import Wireframe.Proofs.Page.Gate

/-! How far tags reach in any text. An opening tag is read from its own characters alone, so that it
is the same tag whatever follows it, and a pair of tags is read again from its own text. -/
namespace Wireframe

namespace Page

open Text

variable {acrossLines : Bool} {kind : Kind}

/-- The attributes of a tag are the same whatever follows the tag. -/
theorem splitAttributes?_replace {state : TagState} {text attributes rest : Text}
    (h : splitAttributes? acrossLines state text = some (attributes, rest)) (other : Text) :
    splitAttributes? acrossLines state (attributes ++ '>' :: other) = some (attributes, other) := by
  induction text generalizing state attributes with
  | nil => cases h
  | cons c text ih =>
      rw [splitAttributes?] at h
      split at h
      · rename_i hClose
        cases h
        simp [splitAttributes?, hClose.1]
      · rename_i hInside
        split at h
        · rename_i next hStep
          simp only [Option.map_eq_some_iff, Prod.mk.injEq] at h
          obtain ⟨⟨more, tail⟩, hMore, rfl, rfl⟩ := h
          simp only [List.cons_append, splitAttributes?, if_neg hInside, hStep, ih hMore,
            Option.map_some]
        · cases h

/-- A tag that must end on its line is read the same way when line breaks are allowed. -/
theorem step?_across {state next : TagState} {c : Char} (h : state.step? false c = some next) :
    state.step? true c = some next := by
  cases state with
  | escape depth =>
      simp only [TagState.step?, Bool.not_false, Bool.and_true, decide_eq_true_eq] at h
      split at h
      · cases h
      · simpa [TagState.step?] using h
  | _ => exact h

/-- Attributes that are read within lines are read across lines. -/
theorem splitAttributes?_across {state : TagState} {text : Text} {found : Text × Text}
    (h : splitAttributes? false state text = some found) :
    splitAttributes? true state text = some found := by
  induction text generalizing state found with
  | nil => cases h
  | cons c text ih =>
      rw [splitAttributes?] at h ⊢
      split at h
      · rename_i hClose
        rw [if_pos hClose, h]
      · rename_i hInside
        rw [if_neg hInside]
        split at h
        · rename_i next hStep
          obtain ⟨tail, hTail, rfl⟩ := Option.map_eq_some_iff.mp h
          simp only [step?_across hStep, ih hTail, Option.map_some]
        · cases h

namespace Opening

/-- A tag as it is read, whatever follows it. -/
structure Reads (acrossLines : Bool) (tag : Opening) : Prop where
  nonempty : tag.name ≠ []
  word : ∀ c ∈ tag.name, isWordChar c = true
  stops : ∀ rest, StopsAt isWordChar (tag.attributes ++ '>' :: rest)
  split : ∀ rest, splitAttributes? acrossLines .between (tag.attributes ++ '>' :: rest) =
    some (tag.attributes, rest)

theorem Reads.across {tag : Opening} (h : tag.Reads false) : tag.Reads true :=
  ⟨h.nonempty, h.word, h.stops, fun rest => splitAttributes?_across (h.split rest)⟩

end Opening

/-- Where a run of characters ends depends on the first character behind it only. -/
theorem stopsAt_append_cons {p : Char → Bool} {lead rest : Text} {c : Char}
    (h : StopsAt p (lead ++ c :: rest)) (other : Text) : StopsAt p (lead ++ c :: other) := by
  cases lead with
  | nil => exact stopsAt_cons.mpr (stopsAt_cons.mp h)
  | cons d lead => exact stopsAt_cons.mpr (stopsAt_cons.mp h)

/-- What reading an opening tag returns, said without the reader: a split of the text at a tag in
the sense of the grammar. -/
theorem opening?_eq_some_iff {text : Text} {tag : Opening} :
    opening? acrossLines text = some tag ↔ text = tag.text ++ tag.rest ∧ tag.Reads acrossLines := by
  constructor
  · intro h
    refine ⟨append_of_opening? h, ?_⟩
    unfold opening? at h
    split at h
    · rename_i text
      dsimp only at h
      split at h
      · cases h
      · rename_i hName
        obtain ⟨⟨attributes, rest⟩, hSplit, rfl⟩ := Option.map_eq_some_iff.mp h
        have hStop := stopsAt_dropWhile isWordChar text
        rw [append_of_splitAttributes? hSplit] at hStop
        exact ⟨by simpa using hName, fun c hc => List.mem_takeWhile_imp hc,
          stopsAt_append_cons hStop, splitAttributes?_replace hSplit⟩
    · cases h
  · rintro ⟨rfl, hTag⟩
    obtain ⟨name, attributes, rest⟩ := tag
    have hTake := takeWhile_append_of_stopsAt hTag.word (hTag.stops rest)
    have hDrop := dropWhile_append_of_stopsAt hTag.word (hTag.stops rest)
    have hName : name.isEmpty = false := by simpa using hTag.nonempty
    simp only [Opening.text, List.cons_append, List.append_assoc, List.nil_append, opening?, hTake,
      hDrop, hName, Bool.false_eq_true, if_false, hTag.split, Option.map_some]

/-- The same tag is read in front of another text. -/
theorem opening?_text_append {text : Text} {tag : Opening} (h : opening? acrossLines text = some tag)
    (other : Text) : opening? acrossLines (tag.text ++ other) = some { tag with rest := other } := by
  obtain ⟨-, hTag⟩ := opening?_eq_some_iff.mp h
  exact opening?_eq_some_iff.mpr ⟨rfl, hTag.nonempty, hTag.word, hTag.stops, hTag.split⟩

/-- More text behind a tag does not change how the tag is read. -/
theorem opening?_append {text : Text} {tag : Opening} (h : opening? acrossLines text = some tag)
    (more : Text) :
    opening? acrossLines (text ++ more) = some { tag with rest := tag.rest ++ more } := by
  conv_lhs => rw [append_of_opening? h, List.append_assoc]
  exact opening?_text_append h _

theorem opening?_across {text : Text} {tag : Opening} (h : opening? false text = some tag) :
    opening? true text = some tag := by
  obtain ⟨hText, hTag⟩ := opening?_eq_some_iff.mp h
  exact opening?_eq_some_iff.mpr ⟨hText, hTag.across⟩

/-- Behind a text that starts with an opening tag, nothing changes what a reader within lines makes
of that tag. -/
theorem opening?_append_of_across {text : Text} {tag : Opening} (h : opening? true text = some tag)
    (more : Text) :
    opening? false (text ++ more) =
      (opening? false text).map fun tag => { tag with rest := tag.rest ++ more } := by
  cases hText : opening? false text with
  | some found => rw [opening?_append hText, Option.map_some]
  | none =>
      rw [Option.map_none, Option.eq_none_iff_forall_ne_some]
      intro found hFound
      obtain rfl := Option.some.inj ((opening?_across hFound).symm.trans (opening?_append h more))
      have hTag : opening? false (tag.text ++ tag.rest) = some tag :=
        opening?_text_append hFound tag.rest
      rw [← append_of_opening? h, hText] at hTag
      cases hTag

/-- The text of a pair of tags of a kind: an opening tag, and behind it the closing tag of the kind at
the very end. -/
def IsPair (kind : Kind) (text : Text) : Prop :=
  ∃ tag inner, opening? true text = some tag ∧ tag.rest = inner ++ closingTag kind.tag

/-- A pair ends with its closing tag. -/
theorem IsPair.isSuffixOf {text : Text} (h : IsPair kind text) :
    (closingTag kind.tag).isSuffixOf text = true := by
  obtain ⟨tag, inner, hTag, hRest⟩ := h
  rw [append_of_opening? hTag, hRest, ← List.append_assoc]
  exact List.isSuffixOf_iff_suffix.mpr (List.suffix_append _ _)

theorem stopsAt_of_endsTagName {text : Text} (h : endsTagName text = true) :
    StopsAt isWordChar text := by
  cases text with
  | nil => exact stopsAt_nil _
  | cons c text =>
      simp only [endsTagName, Bool.or_eq_true, beq_iff_eq] at h
      rcases h with hBlank | rfl
      · exact stopsAt_cons.mpr (isWordChar_of_isBlank hBlank)
      · exact stopsAt_cons.mpr (by decide)

/-- What the pair search of a kind returns is a pair of that kind. -/
theorem isPair_of_kindPair {text target rest : Text} (h : kindPair kind text = some (target, rest)) :
    IsPair kind target := by
  unfold kindPair at h
  split at h
  · cases h
  · rename_i start hStart
    split at h
    · rename_i hEnds
      split at h
      · cases h
      · rename_i attributes more hSplit
        obtain ⟨cut, hCut, hTarget⟩ := Option.map_eq_some_iff.mp h
        obtain ⟨rfl, -⟩ := Prod.mk.inj hTarget
        obtain ⟨hClosing, -⟩ := append_of_literal (read_of_find? (faithful_literal _) hCut)
        have hStop := stopsAt_of_endsTagName hEnds
        rw [append_of_splitAttributes? hSplit] at hStop
        refine ⟨⟨kind.tag, attributes, cut.before ++ closingTag kind.tag⟩, cut.before,
          opening?_eq_some_iff.mpr ⟨by simp [Opening.text, hClosing], ?_⟩, rfl⟩
        exact ⟨tag_ne_nil kind, fun c hc => isWordChar_of_mem_tag hc, stopsAt_append_cons hStop,
          splitAttributes?_replace hSplit⟩
    · cases h

/-- What the pair reader returns is a pair of the name it reads. -/
theorem isPair_of_pair? {text : Text} {pair : Pair} (h : pair? text = some pair)
    (hName : pair.name = kind.tag) : IsPair kind pair.text := by
  obtain ⟨tag, hTag, -, hNamed⟩ := pair?_eq_some_iff.mp h
  rw [text_of_pairNamed? hNamed, hName]
  exact ⟨_, pair.inner, opening?_text_append hTag _, rfl⟩

/-- A component without recorded text, or one that was recovered from some text. -/
def Traceable (c : Component) : Prop :=
  c.source.getD [] = [] ∨ ∃ text, c ∈ Forest.walk (recover text)

/-- The recorded text of a component is a pair of tags of its kind. -/
theorem Traceable.isPair {c : Component} (h : Traceable c) (hSource : c.source.getD [] ≠ []) :
    IsPair c.kind (c.source.getD []) := by
  rcases h with hNone | ⟨text, hText⟩
  · exact absurd hNone hSource
  · obtain ⟨pair, kind, hMeets, hKind, rfl⟩ := mem_walk_recover.mp hText
    obtain ⟨part, -, hPair⟩ := hMeets.exists_part
    exact isPair_of_pair? hPair (Kind.eq_tag_of_ofTag? hKind)

/-- Nothing of a text is lost when a component is located in it. -/
theorem whole_of_locate? {code : Text} {c : Component} {cut : Cut} (h : locate? code c = some cut) :
    cut.whole = code := by
  have hKind {cut : Cut} (h : findKind? c.kind code = some cut) : cut.whole = code :=
    whole_of_find? (faithful_kindPair _) h
  unfold locate? at h
  dsimp only at h
  split at h
  · exact hKind h
  · simp only [Option.or_eq_some_iff] at h
    rcases h with (hCut | ⟨-, hOpening⟩) | ⟨-, hFind⟩
    · exact whole_of_find? (faithful_literal _) hCut
    · unfold findOpening? at hOpening
      split at hOpening
      · cases hOpening
      · split at hOpening
        · cases hOpening
        · rename_i found hFound
          obtain ⟨⟨target, rest⟩, hPair, rfl⟩ := Option.map_eq_some_iff.mp hOpening
          have hWhole := whole_of_find? (faithful_literal _) hFound
          rwa [Cut.whole, List.append_assoc, faithful_kindPair _ _ _ _ hPair,
            ← List.append_assoc] at hWhole
    · exact hKind hFind

/-- Whatever way a component is located, its place is a pair of tags of its kind. -/
theorem Traceable.isPair_of_locate? {code : Text} {c : Component} (hTrace : Traceable c) {cut : Cut}
    (h : locate? code c = some cut) : cut.whole = code ∧ IsPair c.kind cut.target := by
  refine ⟨whole_of_locate? h, ?_⟩
  have hKind {cut : Cut} (h : findKind? c.kind code = some cut) : IsPair c.kind cut.target :=
    isPair_of_kindPair (read_of_find? (faithful_kindPair _) h)
  unfold locate? at h
  dsimp only at h
  split at h
  · exact hKind h
  · rename_i hSource
    simp only [Option.or_eq_some_iff] at h
    rcases h with (hCut | ⟨-, hOpening⟩) | ⟨-, hFind⟩
    · obtain ⟨hTarget, -⟩ := append_of_literal (read_of_find? (faithful_literal _) hCut)
      rw [hTarget]
      exact hTrace.isPair (by simpa using hSource)
    · unfold findOpening? at hOpening
      split at hOpening
      · cases hOpening
      · split at hOpening
        · cases hOpening
        · obtain ⟨⟨target, rest⟩, hPair, rfl⟩ := Option.map_eq_some_iff.mp hOpening
          exact isPair_of_kindPair hPair
    · exact hKind hFind

end Page
end Wireframe
