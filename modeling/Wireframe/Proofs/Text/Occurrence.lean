import Wireframe.Proofs.Text.Search

/-! Where words stand in a text. A word that does not hold a character stands on one side of it, so
that texts joined by such characters hold the word only if one of them does. -/
namespace Wireframe.Text

variable {word : Text}

/-- A search finds a word exactly if it stands in the text. -/
theorem occurs_iff (word text : Text) : occurs word text = true ↔ word <:+: text := by
  refine ⟨fun h => ?_, isSome_cutAt?⟩
  obtain ⟨cut, hCut⟩ := Option.isSome_iff_exists.mp h
  have hWhole := whole_of_find? (faithful_literal word) hCut
  obtain ⟨hTarget, -⟩ := append_of_literal (read_of_find? (faithful_literal word) hCut)
  exact ⟨cut.before, cut.after, by rw [← hTarget]; exact hWhole⟩

/-- A search stops at the first place that its reader recognises. -/
theorem length_before_le_of_find? {read : Reader} {text before rest : Text} {cut : Cut}
    (h : find? read text = some cut) (hText : text = before ++ rest)
    (hRead : (read rest).isSome = true) : cut.before.length ≤ before.length := by
  subst hText
  induction before generalizing cut with
  | nil =>
      obtain ⟨⟨target, more⟩, hHere⟩ := Option.isSome_iff_exists.mp hRead
      rw [List.nil_append, find?_of_read hHere] at h
      cases h
      exact le_rfl
  | cons c before ih =>
      rw [List.cons_append] at h
      cases hHere : read (c :: (before ++ rest)) with
      | some found =>
          rw [find?_of_read hHere] at h
          cases h
          exact Nat.zero_le _
      | none =>
          rw [find?_cons_of_none hHere] at h
          obtain ⟨found, hFound, rfl⟩ := Option.map_eq_some_iff.mp h
          exact Nat.succ_le_succ (ih hFound)

/-- Words are cut out of a text where they first occur in it. -/
theorem cutAt?_eq_some_iff {text : Text} {cut : Cut} :
    cutAt? word text = some cut ↔ cut.whole = text ∧ cut.target = word ∧
      ∀ before after, text = before ++ (word ++ after) →
        cut.before.length ≤ before.length := by
  have hSound {cut : Cut} (h : cutAt? word text = some cut) : cut.whole = text ∧
      cut.target = word ∧ ∀ before after, text = before ++ (word ++ after) →
        cut.before.length ≤ before.length := by
    obtain ⟨hTarget, -⟩ := append_of_literal (read_of_find? (faithful_literal word) h)
    refine ⟨whole_of_find? (faithful_literal word) h, hTarget, fun before after hText => ?_⟩
    exact length_before_le_of_find? h hText (by rw [literal_append]; rfl)
  refine ⟨hSound, fun ⟨hWhole, hTarget, hFirst⟩ => ?_⟩
  obtain ⟨before, target, after⟩ := cut
  obtain rfl : target = word := hTarget
  have hOccurs : target <:+: text := ⟨before, after, hWhole⟩
  obtain ⟨found, hFound⟩ := Option.isSome_iff_exists.mp (isSome_cutAt? hOccurs)
  obtain ⟨hWholeFound, hTargetFound, hFirstFound⟩ := hSound hFound
  obtain ⟨start, words, rest⟩ := found
  obtain rfl : words = target := hTargetFound
  have hText : before ++ (words ++ after) = start ++ (words ++ rest) := by
    simpa only [Cut.whole, List.append_assoc] using hWhole.trans hWholeFound.symm
  have hLength : before.length = start.length := by
    apply Nat.le_antisymm
    · exact hFirst start rest (hWholeFound.symm.trans (List.append_assoc _ _ _))
    · exact hFirstFound before after (hWhole.symm.trans (List.append_assoc _ _ _))
  obtain ⟨rfl, hRest⟩ := List.append_inj hText hLength
  rw [hFound, List.append_cancel_left hRest]

/-- Words are found in the same place whatever follows them. -/
theorem cutAt?_replace {text : Text} {cut : Cut} (h : cutAt? word text = some cut) (other : Text) :
    cutAt? word (cut.before ++ (word ++ other)) = some { cut with after := other } := by
  obtain ⟨hWhole, hTarget, hFirst⟩ := cutAt?_eq_some_iff.mp h
  refine cutAt?_eq_some_iff.mpr ⟨?_, hTarget, fun before after hText => ?_⟩
  · rw [Cut.whole, hTarget, List.append_assoc]
  · -- An occurrence further left would end before the found one, and so lie in the text as well.
    by_contra hNot
    have hEarly : before.length < cut.before.length := not_le.mp hNot
    have hHere : before ++ word <+: cut.before ++ (word ++ other) :=
      ⟨after, by rw [hText, List.append_assoc]⟩
    have hFound : cut.before ++ word <+: cut.before ++ (word ++ other) :=
      ⟨other, List.append_assoc _ _ _⟩
    have hLength : (before ++ word).length ≤ (cut.before ++ word).length := by
      simp only [List.length_append]
      omega
    obtain ⟨more, hMore⟩ := List.prefix_of_prefix_length_le hHere hFound hLength
    have hOccurs : text = before ++ (word ++ (more ++ cut.after)) := by
      rw [← hWhole, Cut.whole, hTarget, ← hMore]
      simp only [List.append_assoc]
    exact absurd (hFirst before _ hOccurs) (not_le.mpr hEarly)

/-- A cut fails exactly when the word does not occur. -/
theorem cutAt?_eq_none_iff {text : Text} : cutAt? word text = none ↔ ¬ word <:+: text := by
  rw [← occurs_iff, occurs, Bool.not_eq_true, Option.isSome_eq_false_iff, Option.isNone_iff_eq_none]

/-- A word cannot run across a character that is not in it. -/
theorem infix_append_cons_iff {c : Char} (hc : c ∉ word) (before after : Text) :
    word <:+: before ++ c :: after ↔ word <:+: before ∨ word <:+: after := by
  refine ⟨fun h => ?_, ?_⟩
  · rcases List.infix_append_iff.mp h with h | h | ⟨left, right, rfl, hLeft, hRight⟩
    · exact .inl h
    · rcases List.infix_cons_iff.mp h with h | h
      · rcases List.prefix_cons_iff.mp h with rfl | ⟨rest, rfl, -⟩
        · exact .inl List.nil_infix
        · exact absurd List.mem_cons_self hc
      · exact .inr h
    · rcases List.prefix_cons_iff.mp hRight with rfl | ⟨rest, rfl, -⟩
      · exact .inl (by simpa using hLeft.isInfix)
      · exact absurd (List.mem_append_right _ List.mem_cons_self) hc
  · rintro (h | h)
    · exact h.trans (List.prefix_append _ _).isInfix
    · exact h.trans ((List.suffix_cons _ _).trans (List.suffix_append _ _)).isInfix

/-- A word that starts otherwise stands behind the first character if it stands anywhere. -/
theorem infix_cons_iff_of_head_ne {c : Char} (hc : word.head? ≠ some c) (text : Text) :
    word <:+: c :: text ↔ word <:+: text := by
  refine ⟨fun h => ?_, fun h => h.trans (List.suffix_cons _ _).isInfix⟩
  rcases List.infix_cons_iff.mp h with h | h
  · rcases List.prefix_cons_iff.mp h with rfl | ⟨rest, rfl, -⟩
    · exact List.nil_infix
    · exact absurd rfl hc
  · exact h

/-- A text without some character of a word does not hold the word. -/
theorem not_infix_of_notMem {c : Char} {text : Text} (hc : c ∈ word) (h : c ∉ text) :
    ¬ word <:+: text :=
  fun hInfix => h (hInfix.subset hc)

/-- A text that makes no new place for a word when it is put behind another text. -/
def Shuns (word text : Text) : Prop :=
  ∀ before, ¬ word <:+: before → ¬ word <:+: before ++ text

namespace Shuns

theorem nil : Shuns word [] := by
  intro before h
  rwa [List.append_nil]

theorem append {first second : Text} (hFirst : Shuns word first) (hSecond : Shuns word second) :
    Shuns word (first ++ second) := by
  intro before h
  rw [← List.append_assoc]
  exact hSecond _ (hFirst _ h)

theorem cons {c : Char} {text : Text} (hc : c ∉ word) (hText : ¬ word <:+: text) :
    Shuns word (c :: text) := by
  intro before h
  rw [infix_append_cons_iff hc]
  exact not_or.mpr ⟨h, hText⟩

theorem flatMap {α : Type} {items : List α} {write : α → Text}
    (h : ∀ item ∈ items, Shuns word (write item)) : Shuns word (items.flatMap write) := by
  induction items with
  | nil => exact nil
  | cons item items ih =>
      obtain ⟨hItem, hItems⟩ := List.forall_mem_cons.mp h
      rw [List.flatMap_cons]
      exact hItem.append (ih hItems)

/-- A text that shuns a word does not hold it. -/
theorem absent {text : Text} (h : Shuns word text) (hWord : word ≠ []) : ¬ word <:+: text := by
  rw [← List.nil_append text]
  exact h [] fun hNil => hWord (List.infix_nil.mp hNil)

end Shuns

end Wireframe.Text
