import Wireframe.Proofs.Page.Finding
import Wireframe.Proofs.Text.LineEnds
import Wireframe.Page.Patch

/-! The rendered block of a page. Whatever lines stand in it, its start and its end are
found where the page was rendered with them, so that roots are put before or after
all lines. -/
namespace Wireframe
namespace Page

open Text

variable {isGap : Char → Bool} {words : Text}

/-- The reader takes blanks and then the words, where the words start with no blank themselves. -/
theorem afterBlanks_append {gap : Text} (hGap : ∀ c ∈ gap, isGap c = true)
    (hWords : StopsAt isGap words) (hNonempty : words ≠ []) (rest : Text) :
    afterBlanks isGap words (gap ++ (words ++ rest)) = some (gap ++ words, rest) := by
  have hStop : StopsAt isGap (words ++ rest) := by
    cases words with
    | nil => exact absurd rfl hNonempty
    | cons c words => exact hWords
  rw [afterBlanks, dropWhile_append_of_stopsAt hGap hStop, takeWhile_append_of_stopsAt hGap hStop,
    after?_append, Option.map_some]

/-- What the reader takes are blanks and the words. -/
theorem afterBlanks_sound {text target rest : Text}
    (h : afterBlanks isGap words text = some (target, rest)) :
    ∃ gap, (∀ c ∈ gap, isGap c = true) ∧ target = gap ++ words ∧ text = target ++ rest := by
  simp only [afterBlanks, Option.map_eq_some_iff, Prod.mk.injEq] at h
  obtain ⟨more, hMore, rfl, rfl⟩ := h
  refine ⟨text.takeWhile isGap, fun c hc => List.mem_takeWhile_imp hc, rfl, ?_⟩
  rw [List.append_assoc, ← eq_append_of_after? hMore, List.takeWhile_append_dropWhile]

theorem faithful_afterBlanks (isGap : Char → Bool) (words : Text) :
    Faithful (afterBlanks isGap words) := by
  intro text target rest h
  obtain ⟨-, -, -, hText⟩ := afterBlanks_sound h
  exact hText

variable {first second : Reader}

/-- The second reader goes on where the first one stopped. -/
theorem andThen_append {text middle start more rest : Text} (hFirst : first text = some (start, middle))
    (hSecond : second middle = some (more, rest)) :
    andThen first second text = some (start ++ more, rest) := by
  rw [andThen, hFirst]
  simp [hSecond]

/-- What is taken together was taken by the first reader and then by the second. -/
theorem andThen_sound {text target rest : Text}
    (h : andThen first second text = some (target, rest)) :
    ∃ start middle more, first text = some (start, middle) ∧
      second middle = some (more, rest) ∧ target = start ++ more := by
  unfold andThen at h
  split at h
  · cases h
  · rename_i start middle hFirst
    simp only [Option.map_eq_some_iff, Prod.mk.injEq] at h
    obtain ⟨⟨more, tail⟩, hSecond, rfl, rfl⟩ := h
    exact ⟨start, middle, more, hFirst, hSecond, rfl⟩

/-- One faithful reader after another is faithful. -/
theorem faithful_andThen (hFirst : Faithful first) (hSecond : Faithful second) :
    Faithful (andThen first second) := by
  intro text target rest h
  obtain ⟨start, middle, more, hStart, hMore, rfl⟩ := andThen_sound h
  rw [hFirst _ _ _ hStart, hSecond _ _ _ hMore, List.append_assoc]

theorem faithful_blockStart : Faithful blockStart :=
  faithful_andThen (faithful_literal _) (faithful_afterBlanks _ _)

theorem faithful_blockEnd : Faithful blockEnd :=
  faithful_andThen (faithful_afterBlanks _ _)
    (faithful_andThen (faithful_afterBlanks _ _) (faithful_afterBlanks _ _))

/-- The opener of the block as it is rendered is recognised. -/
theorem blockStart_here (rest : Text) :
    blockStart (("return (".toList ++ "\n    ".toList) ++ ("<>\n".toList ++ rest)) =
      some ("return (".toList ++ ("\n    ".toList ++ "<>\n".toList), rest) := by
  rw [List.append_assoc]
  exact andThen_append (literal_append _ _)
    (afterBlanks_append (List.all_eq_true.mp (by decide)) (stopsAt_cons.mpr (by decide)) (by decide) rest)

/-- The closer of the block as it is rendered is recognised. -/
theorem blockEnd_here (rest : Text) :
    blockEnd ("    ".toList ++ ("</>".toList ++ ("\n  );".toList ++ rest))) =
      some (("    ".toList ++ "</>".toList) ++ (([] ++ "\n".toList) ++ ("  ".toList ++ ");".toList)),
        rest) := by
  have hLast : afterBlanks isIndent ");".toList ("  ".toList ++ (");".toList ++ rest)) =
      some ("  ".toList ++ ");".toList, rest) :=
    afterBlanks_append (List.all_eq_true.mp (by decide)) (stopsAt_cons.mpr (by decide)) (by decide) rest
  have hBreak : afterBlanks isIndent "\n".toList ([] ++ ("\n".toList ++
      ("  ".toList ++ (");".toList ++ rest)))) =
      some ([] ++ "\n".toList, "  ".toList ++ (");".toList ++ rest)) :=
    afterBlanks_append (List.all_eq_true.mp (by decide)) (stopsAt_cons.mpr (by decide)) (by decide) _
  have hTag : afterBlanks isIndent "</>".toList ("    ".toList ++ ("</>".toList ++
      ("\n".toList ++ ("  ".toList ++ (");".toList ++ rest))))) =
      some ("    ".toList ++ "</>".toList, "\n".toList ++ ("  ".toList ++ (");".toList ++ rest))) :=
    afterBlanks_append (List.all_eq_true.mp (by decide)) (stopsAt_cons.mpr (by decide)) (by decide) _
  exact andThen_append hTag (andThen_append hBreak hLast)

/-- Rendered lines end with a line break, or there are none. -/
theorem endsLine_texts (lines : List Line) : EndsLine (Line.texts lines) := by
  induction lines with
  | nil => exact .inl rfl
  | cons line lines ih =>
      have hLine : EndsLine line.text := .inr ⟨spaces line.indent ++ line.mark.text, rfl⟩
      exact hLine.append ih

theorem endsLine_opening (frame : Frame) : EndsLine (opening frame) := by
  refine .inr ⟨lead frame ++ ("return (".toList ++ "\n    ".toList) ++ "<>".toList, ?_⟩
  rw [opening_eq]
  simp

/-- No tag looks like the opener of the block, so that a page has no other place for it. -/
theorem text_ne_blockStart (mark : Mark) (more rest : Text) :
    mark.text ++ more ≠ '<' :: '>' :: rest := by
  intro h
  cases mark with
  | opening kind props => cases kind <;> cases h
  | closing kind => cases kind <;> cases h

/-- No tag looks like the closer of the block. -/
theorem text_ne_blockEnd (mark : Mark) (more rest : Text) :
    mark.text ++ more ≠ '<' :: '/' :: '>' :: rest := by
  intro h
  cases mark with
  | opening kind props => cases kind <;> cases h
  | closing kind => cases kind <;> cases h

/-- An indentation lies within a line. -/
theorem notMem_of_isIndent {gap : Text} (h : ∀ c ∈ gap, isIndent c = true) : '\n' ∉ gap :=
  fun hMem => absurd (h _ hMem) (by decide)

section

variable {frame : Frame} (hFrame : frame.AngleFree) {lines : List Line}
  (hClean : Line.Clean lines)
include hFrame hClean

/-- The start of the block is found right before the first line. -/
theorem findBlockStart?_page :
    ∃ cut, findBlockStart? (page frame lines) = some cut ∧
      cut.before ++ cut.target = opening frame ∧ cut.after = Line.texts lines ++ closing frame := by
  have hText : page frame lines = lead frame ++
      (("return (".toList ++ "\n    ".toList) ++
        ("<>\n".toList ++ (Line.texts lines ++ closing frame))) := by
    rw [page, opening_eq]
    simp only [List.append_assoc]
  have hSome : (findBlockStart? (page frame lines)).isSome = true := by
    rw [hText]
    apply isSome_find?
    rw [blockStart_here]
    rfl
  obtain ⟨cut, hCut⟩ := Option.isSome_iff_exists.mp hSome
  have hWhole := whole_of_find? faithful_blockStart hCut
  obtain ⟨start, middle, more, hStart, hMore, hTarget⟩ :=
    andThen_sound (read_of_find? faithful_blockStart hCut)
  obtain ⟨gap, -, rfl, rfl⟩ := afterBlanks_sound hMore
  obtain ⟨rfl, -⟩ := append_of_literal hStart
  -- The search has found some `<>`; of the places where `<` stands only the opening one fits.
  have hAngle : page frame lines = (cut.before ++ ("return (".toList ++ gap)) ++
      '<' :: (">\n".toList ++ cut.after) := by
    rw [← hWhole, Cut.whole, hTarget]
    simp
  refine ⟨cut, hCut, ?_⟩
  rcases angle_of_page hFrame hClean hAngle with
    ⟨hBefore, hAfter⟩ | ⟨first, line, last, rfl, -, hLine⟩ | ⟨-, hAfter⟩
  · refine ⟨?_, List.append_cancel_left hAfter⟩
    rw [hTarget, ← hBefore]
    simp
  · exact absurd hLine.symm (text_ne_blockStart _ _ _)
  · cases hAfter

/-- The end of the block is found right behind the last line. -/
theorem findBlockEnd?_page :
    ∃ cut, findBlockEnd? (page frame lines) = some cut ∧
      cut.before = opening frame ++ Line.texts lines ∧ cut.target ++ cut.after = closing frame := by
  have hEnds : EndsLine (opening frame ++ Line.texts lines) :=
    (endsLine_opening frame).append (endsLine_texts lines)
  have hText : page frame lines = (opening frame ++ Line.texts lines) ++ closing frame := by
    rw [page, List.append_assoc]
  have hSome : (findBlockEnd? (page frame lines)).isSome = true := by
    rw [hText]
    apply isSome_findAtLineStart? _ _ hEnds fun _ => rfl
    rw [closing_eq, blockEnd_here]
    rfl
  obtain ⟨cut, hCut⟩ := Option.isSome_iff_exists.mp hSome
  obtain ⟨hWhole, hRead, hBefore, -⟩ := findAtLineStart?_sound faithful_blockEnd hCut
  obtain ⟨start, middle, more, hStart, hMore, hTarget⟩ := andThen_sound hRead
  obtain ⟨gap, hGap, rfl, hMiddle⟩ := afterBlanks_sound hStart
  -- As at the start: only the `<` of the closing fits what was found.
  have hAngle : page frame lines = (cut.before ++ gap) ++ '<' :: ("/>".toList ++ middle) := by
    rw [← hWhole, hMiddle]
    simp
  rcases angle_of_page hFrame hClean hAngle with
    ⟨-, hAfter⟩ | ⟨first, line, last, rfl, -, hLine⟩ | ⟨hPlace, hAfter⟩
  · cases hAfter
  · exact absurd hLine.symm (text_ne_blockEnd _ _ _)
  · have hSame : cut.before = opening frame ++ Line.texts lines := by
      have hDrop := congrArg dropLastLine hPlace
      rwa [dropLastLine_append hBefore (notMem_of_isIndent hGap), ← List.append_assoc,
        dropLastLine_append hEnds (by decide)] at hDrop
    refine ⟨cut, hCut, hSame, ?_⟩
    rw [hSame, hText] at hWhole
    exact List.append_cancel_left hWhole

/-- Put at the start, a component becomes the first root of the page. -/
theorem insertAtStart_page (c : Component) :
    insertAtStart (page frame lines) (renderComponent rootIndent c) =
      .ok (page frame (c.lines 6 ++ lines)) := by
  obtain ⟨cut, hCut, hOpening, hAfter⟩ := findBlockStart?_page hFrame hClean
  have hLines : renderComponent rootIndent c = Line.texts (c.lines 6) :=
    renderComponent_eq_texts 6 c
  simp only [insertAtStart, hCut]
  rw [hOpening, hAfter, hLines, page, Line.texts_append]
  simp only [List.append_assoc]

/-- Put at the end, a component becomes the last root of the page. -/
theorem insertAtEnd_page (c : Component) :
    insertAtEnd (page frame lines) (renderComponent rootIndent c) =
      .ok (page frame (lines ++ c.lines 6)) := by
  obtain ⟨cut, hCut, hBefore, hClosing⟩ := findBlockEnd?_page hFrame hClean
  have hLines : renderComponent rootIndent c = Line.texts (c.lines 6) :=
    renderComponent_eq_texts 6 c
  simp only [insertAtEnd, hCut]
  rw [List.append_assoc _ cut.target, hClosing, hBefore, hLines, page, Line.texts_append]
  simp only [List.append_assoc]

end

/-- Every page has a rendered block, so that patching a page is never refused at once. -/
theorem hasBlock_page {frame : Frame} (hFrame : frame.AngleFree) {lines : List Line}
    (hClean : Line.Clean lines) :
    ((findBlockStart? (page frame lines)).isSome && (findBlockEnd? (page frame lines)).isSome) =
      true := by
  obtain ⟨start, hStart, -⟩ := findBlockStart?_page hFrame hClean
  obtain ⟨stop, hStop, -⟩ := findBlockEnd?_page hFrame hClean
  rw [hStart, hStop]
  rfl

end Page
end Wireframe
