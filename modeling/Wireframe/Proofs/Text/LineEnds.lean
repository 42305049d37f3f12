import Wireframe.Proofs.Text.Search
import Wireframe.Proofs.Text.Span

/-! Line ends. A text that ends a line keeps its lines when more is put behind it,
and a search at line starts stops behind such a text only. -/
namespace Wireframe.Text

variable {read : Reader}

/-- The text is empty or ends a line. -/
def EndsLine (text : Text) : Prop :=
  text = [] ∨ ∃ line, text = line ++ ['\n']

theorem EndsLine.cons {c : Char} {text : Text} (h : EndsLine text) (hc : text = [] → c = '\n') :
    EndsLine (c :: text) := by
  rcases h with rfl | ⟨line, rfl⟩
  · exact .inr ⟨[], by rw [hc rfl, List.nil_append]⟩
  · exact .inr ⟨c :: line, rfl⟩

theorem EndsLine.append {first last : Text} (hFirst : EndsLine first) (hLast : EndsLine last) :
    EndsLine (first ++ last) := by
  rcases hLast with rfl | ⟨line, rfl⟩
  · rwa [List.append_nil]
  · exact .inr ⟨first ++ line, (List.append_assoc first line ['\n']).symm⟩

/-- Behind a line break the last line is all that follows. -/
theorem lastLine_append {text line : Text} (h : EndsLine text) (hLine : '\n' ∉ line) :
    lastLine (text ++ line) = line := by
  have hRun : ∀ c ∈ line.reverse, decide (c ≠ '\n') = true := by
    intro c hc
    rw [decide_eq_true_eq]
    rintro rfl
    exact hLine (List.mem_reverse.mp hc)
  have hStop : StopsAt (fun c => decide (c ≠ '\n')) text.reverse := by
    rcases h with rfl | ⟨more, rfl⟩
    · simp
    · simp
  rw [lastLine, List.reverse_append, takeWhile_append_of_stopsAt hRun hStop, List.reverse_reverse]

theorem dropLastLine_append {text line : Text} (h : EndsLine text) (hLine : '\n' ∉ line) :
    dropLastLine (text ++ line) = text := by
  have hJoin := dropLastLine_append_lastLine (text ++ line)
  rw [lastLine_append h hLine] at hJoin
  exact List.append_cancel_right hJoin

/-- What is found at the start of a line follows a line end. -/
theorem findAtLineStart?_sound (faithful : Faithful read) {starts : Bool} {text : Text} {cut : Cut}
    (h : findAtLineStart? read starts text = some cut) :
    cut.before ++ (cut.target ++ cut.after) = text ∧
      read (cut.target ++ cut.after) = some (cut.target, cut.after) ∧
      EndsLine cut.before ∧ (cut.before = [] → starts = true) := by
  induction text generalizing starts cut with
  | nil =>
      rw [findAtLineStart?] at h
      split at h
      · simp only [Option.map_eq_some_iff] at h
        obtain ⟨⟨target, rest⟩, hRead, rfl⟩ := h
        have hText := faithful _ _ _ hRead
        refine ⟨hText.symm, ?_, .inl rfl, fun _ => ‹_›⟩
        rw [← hText]
        exact hRead
      · cases h
  | cons c text ih =>
      rw [findAtLineStart?] at h
      split at h
      · rename_i target rest hRead
        cases h
        split at hRead
        · have hText := faithful _ _ _ hRead
          refine ⟨hText.symm, ?_, .inl rfl, fun _ => ‹_›⟩
          rw [← hText]
          exact hRead
        · cases hRead
      · simp only [Option.map_eq_some_iff] at h
        obtain ⟨found, hFound, rfl⟩ := h
        obtain ⟨hText, hRead, hEnds, hStarts⟩ := ih hFound
        refine ⟨by rw [← hText]; rfl, hRead, hEnds.cons fun hNil => ?_, by simp⟩
        simpa using hStarts hNil

/-- What can be read behind a line break is found at a start of line, there or earlier. -/
theorem isSome_findAtLineStart? {before rest : Text} (h : (read rest).isSome = true) :
    ∀ starts, EndsLine before → (before = [] → starts = true) →
      (findAtLineStart? read starts (before ++ rest)).isSome = true := by
  induction before with
  | nil =>
      intro starts _ hStarts
      obtain rfl := hStarts rfl
      obtain ⟨⟨target, more⟩, hRead⟩ := Option.isSome_iff_exists.mp h
      cases rest with
      | nil => simp [findAtLineStart?, hRead]
      | cons c rest => simp [findAtLineStart?, hRead]
  | cons c before ih =>
      intro starts hEnds _
      rw [List.cons_append, findAtLineStart?]
      split
      · rfl
      -- The text ends its last line, so it goes on ending it without its first character.
      · rw [Option.isSome_map]
        rcases hEnds with hNil | ⟨line, hLine⟩
        · cases hNil
        · cases line with
          | nil =>
              rw [List.nil_append, List.cons.injEq] at hLine
              obtain ⟨rfl, rfl⟩ := hLine
              exact ih _ (.inl rfl) fun _ => rfl
          | cons d line =>
              rw [List.cons_append, List.cons.injEq] at hLine
              obtain ⟨rfl, rfl⟩ := hLine
              exact ih _ (.inr ⟨line, rfl⟩) fun hNil => absurd hNil (by simp)

end Wireframe.Text
