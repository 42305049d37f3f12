import Wireframe.Proofs.Value.Conditions

/-! Searches that start at `<`. Text without `<` is passed over in one piece, and a
search goes on after a place that its reader refuses. -/
namespace Wireframe.Text

/-- A place in a row lies before a given member of it or behind that. -/
theorem place_beside {α : Type} {member : α} {front back first last : List α}
    (h : front ++ member :: back = first ++ last) :
    (∃ more, front = first ++ more ∧ last = more ++ member :: back) ∨
      ∃ more, first = front ++ member :: more ∧ back = more ++ last := by
  rcases List.append_eq_append_iff.mp h with ⟨more, rfl, hTail⟩ | ⟨more, rfl, rfl⟩
  · cases more with
    | nil => exact .inl ⟨[], by simp, by simpa using hTail.symm⟩
    | cons other more =>
        obtain ⟨rfl, rfl⟩ := List.cons.inj hTail
        exact .inr ⟨more, rfl, rfl⟩
  · exact .inl ⟨more, rfl, rfl⟩

/-- The reader recognises nothing at a place where no `<` stands. -/
structure AngleFirst (read : Reader) : Prop where
  nil : read [] = none
  cons : ∀ c text, c ≠ '<' → read (c :: text) = none

theorem angleFirst_literal (words : Text) : AngleFirst (literal ('<' :: words)) where
  nil := rfl
  cons c text h := by simp [literal, after?, Ne.symm h]

theorem after?_eq_none_of_ne {a c : Char} (h : a ≠ c) (lead text : Text) :
    after? (a :: lead) (c :: text) = none := by
  simp [after?, h]

theorem after?_cons_self (c : Char) (lead text : Text) :
    after? (c :: lead) (c :: text) = after? lead text := by
  simp [after?]

theorem literal_append (words rest : Text) : literal words (words ++ rest) = some (words, rest) := by
  simp [literal, after?_append]

theorem append_of_literal {words text target rest : Text}
    (h : literal words text = some (target, rest)) : target = words ∧ text = words ++ rest := by
  simp only [literal, Option.map_eq_some_iff, Prod.mk.injEq] at h
  obtain ⟨r, hr, rfl, rfl⟩ := h
  exact ⟨rfl, eq_append_of_after? hr⟩

/-- The cut with some more text before it. -/
def preceded (before : Text) (cut : Cut) : Cut :=
  { cut with before := before ++ cut.before }

@[simp] theorem preceded_nil (cut : Cut) : preceded [] cut = cut := rfl

@[simp] theorem preceded_preceded (first second : Text) (cut : Cut) :
    preceded first (preceded second cut) = preceded (first ++ second) cut := by
  simp [preceded]

variable {read : Reader}

theorem find?_of_read {text target rest : Text} (h : read text = some (target, rest)) :
    find? read text = some ⟨[], target, rest⟩ := by
  cases text with
  | nil => simp [find?, h]
  | cons c text => simp [find?, h]

theorem find?_cons_of_none {c : Char} {text : Text} (h : read (c :: text) = none) :
    find? read (c :: text) = (find? read text).map (preceded [c]) := by
  rw [find?, h]
  rfl

/-- A reader that begins at `<` finds nothing in text without it and goes on behind. -/
theorem find?_angleFree_append (hRead : AngleFirst read) {before : Text}
    (hBefore : angleFree before = true) (rest : Text) :
    find? read (before ++ rest) = (find? read rest).map (preceded before) := by
  induction before with
  | nil =>
      cases hRest : find? read rest with
      | none => simpa using hRest
      | some cut => simpa using hRest
  | cons c before ih =>
      rw [angleFree_cons, Bool.and_eq_true, bne_iff_ne] at hBefore
      rw [List.cons_append, find?_cons_of_none (hRead.cons c _ hBefore.1), ih hBefore.2,
        Option.map_map]
      simp [Function.comp_def]

theorem find?_of_angleFree (hRead : AngleFirst read) {text : Text}
    (hText : angleFree text = true) : find? read text = none := by
  have hNil : find? read [] = none := by simp [find?, hRead.nil]
  have hAppend := find?_angleFree_append hRead hText []
  rwa [List.append_nil, hNil] at hAppend

/-- What a search answers is what the reader recognises at that place. -/
theorem read_of_find? (faithful : Faithful read) {text : Text} {cut : Cut}
    (h : find? read text = some cut) :
    read (cut.target ++ cut.after) = some (cut.target, cut.after) := by
  induction text generalizing cut with
  | nil =>
      simp only [find?, Option.map_eq_some_iff] at h
      obtain ⟨⟨target, rest⟩, hr, rfl⟩ := h
      rw [← faithful _ _ _ hr, hr]
  | cons c text ih =>
      cases hr : read (c :: text) with
      | none =>
          rw [find?_cons_of_none hr, Option.map_eq_some_iff] at h
          obtain ⟨found, hFound, rfl⟩ := h
          have hTail := ih hFound
          exact hTail
      | some found =>
          obtain ⟨target, rest⟩ := found
          rw [find?_of_read hr] at h
          cases h
          rw [← faithful _ _ _ hr, hr]

/-- What can be read somewhere is found there or earlier. -/
theorem isSome_find? (before : Text) {rest : Text} (h : (read rest).isSome = true) :
    (find? read (before ++ rest)).isSome = true := by
  induction before with
  | nil =>
      obtain ⟨⟨target, more⟩, hRead⟩ := Option.isSome_iff_exists.mp h
      simp [find?_of_read hRead]
  | cons c before ih =>
      cases hHere : read (c :: (before ++ rest)) with
      | none => simpa [find?_cons_of_none hHere] using ih
      | some found => simp [find?_of_read hHere]

/-- Words that a text contains are found in it. -/
theorem isSome_cutAt? {words text : Text} (h : words <:+: text) :
    (cutAt? words text).isSome = true := by
  obtain ⟨before, after, rfl⟩ := h
  rw [cutAt?, List.append_assoc]
  apply isSome_find?
  rw [literal_append]
  rfl

end Wireframe.Text
