import Wireframe.Proofs.Page.Block

/-! Edits of a page as edits of its lines. Each operation replaces the lines of the
span that it locates, and keeps all other lines. -/
namespace Wireframe
namespace Page

open Text

theorem allBlank_spaces (count : Nat) : allBlank (spaces count) = true := by
  rw [allBlank, List.all_eq_true]
  intro c hc
  rw [List.eq_of_mem_replicate hc]
  decide

theorem notMem_spaces (count : Nat) : '\n' ∉ spaces count :=
  fun hMem => absurd (List.eq_of_mem_replicate hMem) (by decide)

/-- An indentation in front of a place is dropped up to the line break before. -/
theorem dropIndent_append {text : Text} (h : EndsLine text) (count : Nat) :
    dropIndent (text ++ spaces count) = text := by
  rw [dropIndent, lastLine_append h (notMem_spaces count), if_pos (allBlank_spaces count),
    dropLastLine_append h (notMem_spaces count)]

/-- The column of a place behind an indentation is the indentation. -/
theorem column_append {text : Text} (h : EndsLine text) (count : Nat) :
    column (text ++ spaces count) = count := by
  rw [column, lastLine_append h (notMem_spaces count), spaces, List.length_replicate]

theorem dropLineEnd_break (rest : Text) : dropLineEnd ('\n' :: rest) = rest := by
  have hFirst : firstLine ('\n' :: rest) = ['\n'] := by simp [firstLine]
  rw [dropLineEnd, hFirst, if_pos (by decide)]
  simp [dropFirstLine]

theorem lineEnd_break (rest : Text) : lineEnd ('\n' :: rest) = ['\n'] := by
  have hFirst : firstLine ('\n' :: rest) = ['\n'] := by simp [firstLine]
  rw [lineEnd, hFirst, if_pos (by decide)]

section

variable {frame : Frame} {first last : List Line} {span : Span} {target : Component}

/-- In front of a span a line has just ended. -/
theorem endsLine_before : EndsLine (opening frame ++ Line.texts first) :=
  (endsLine_opening frame).append (endsLine_texts first)

/-- Cutting a span out with its lines leaves the lines before it whole. -/
theorem dropIndent_cutIn :
    dropIndent (span.cutIn frame first last).before = opening frame ++ Line.texts first := by
  rw [Span.cutIn, ← List.append_assoc]
  exact dropIndent_append endsLine_before span.indent

/-- The column at which a span is found is its indentation, so that what replaces it is indented
alike. -/
theorem column_cutIn : column (span.cutIn frame first last).before = span.indent := by
  rw [Span.cutIn, ← List.append_assoc]
  exact column_append endsLine_before span.indent

/-- The opening tag of a span is read as the page shows it. -/
theorem opening?_cutIn (hSpan : span.Legible) :
    opening? false ((span.cutIn frame first last).target ++ (span.cutIn frame first last).after) =
      some ⟨span.kind.tag, attributes span.props, '\n' :: (Line.texts (span.inner ++
        ⟨span.closingIndent, .closing span.kind⟩ :: last) ++ closing frame)⟩ := by
  obtain ⟨hProps, -⟩ := Span.clean_lines.mp hSpan.clean
  have hText : (span.cutIn frame first last).target ++ (span.cutIn frame first last).after =
      openingTag span.kind span.props ++ '\n' :: (Line.texts (span.inner ++
        ⟨span.closingIndent, .closing span.kind⟩ :: last) ++ closing frame) := by
    simp [Span.cutIn, Span.text, Line.text, Mark.text_closing]
  rw [hText, opening?_openingTag false span.kind hProps, if_pos hSpan.shallow]

variable (hLocate : locate? (page frame (first ++ (span.lines ++ last))) target =
  some (span.cutIn frame first last))
include hLocate

/-- Removing a component removes its lines. -/
theorem delete_page :
    delete (page frame (first ++ (span.lines ++ last))) target = page frame (first ++ last) := by
  simp only [delete, hLocate, dropIndent_cutIn]
  rw [Span.cutIn, dropLineEnd_break, page, Line.texts_append]
  simp only [List.append_assoc]

/-- Replacing a component puts the lines of the other one in their place, at the same column. -/
theorem replace_page (replacement : Component) :
    replace (page frame (first ++ (span.lines ++ last))) target replacement =
      page frame (first ++ (replacement.lines span.indent ++ last)) := by
  simp only [replace, hLocate, dropIndent_cutIn, column_cutIn, renderComponent_eq_texts]
  rw [Span.cutIn, dropLineEnd_break, page, Line.texts_append, Line.texts_append]
  simp only [List.append_assoc]

/-- Changing props changes the opening tag alone. -/
theorem updateProps_page (hSpan : span.Legible) (changes : List Change) :
    updateProps (page frame (first ++ (span.lines ++ last))) target changes =
      page frame (first ++
        (({ span with props := changes.foldl Change.applyTo (Diff.visible span.props) }).lines ++
          last)) := by
  obtain ⟨hProps, -⟩ := Span.clean_lines.mp hSpan.clean
  simp only [updateProps, hLocate, opening?_cutIn hSpan]
  rw [changeOpening_openingTag span.kind _ changes hProps, page]
  simp [Span.cutIn, Span.lines, Line.text, Mark.text_opening, Mark.text_closing]

/-- Putting new children between the tags of a component moves its closing tag to the column of its
opening tag. -/
theorem updateChildren_page (hSpan : span.Legible) (hKind : target.kind = span.kind)
    (children : Forest) :
    updateChildren (page frame (first ++ (span.lines ++ last))) target children =
      page frame (first ++
        (({ span with inner := Forest.lines (span.indent + 2) children,
                      closingIndent := span.indent }).lines ++ last)) := by
  have hSuffix : (closingTag target.kind.tag).isSuffixOf (span.cutIn frame first last).target =
      true := by
    rw [List.isSuffixOf_iff_suffix, hKind]
    exact ⟨openingTag span.kind span.props ++
      '\n' :: (Line.texts span.inner ++ spaces span.closingIndent), by simp [Span.cutIn, Span.text]⟩
  simp only [updateChildren, hLocate, opening?_cutIn hSpan, hSuffix, column_cutIn,
    natCast_add_indentStep, renderForest_eq_texts, margin_natCast]
  rw [hKind, page]
  simp [Span.cutIn, Span.lines, Line.text, Mark.text_opening, Mark.text_closing, Opening.text,
    openingTag]

end

/-- Operations in two rows are carried out one row after the other. -/
theorem applyEach_append {first last : List Operation} {code middle : Text}
    (h : applyEach first code = .ok middle) :
    applyEach (first ++ last) code = applyEach last middle := by
  induction first generalizing code with
  | nil =>
      cases h
      rfl
  | cons op rest ih =>
      rw [applyEach] at h
      rw [List.cons_append, applyEach]
      split at h
      · exact ih h
      · cases h

/-- A root goes behind the lines of the first navbar. -/
theorem insertAfterNavbar_page {frame : Frame} {first last : List Line} {span : Span}
    (hFind : findKind? .navbar (page frame (first ++ (span.lines ++ last))) =
      some (span.cutIn frame first last)) (c : Component) :
    insertAfterNavbar (page frame (first ++ (span.lines ++ last))) (renderComponent rootIndent c) =
      .ok (page frame (first ++ (span.lines ++ (c.lines 6 ++ last)))) := by
  have hLines : renderComponent rootIndent c = Line.texts (c.lines 6) :=
    renderComponent_eq_texts 6 c
  simp only [insertAfterNavbar, hFind]
  rw [hLines, Span.cutIn, lineEnd_break, dropLineEnd_break, page, Line.texts_append,
    Line.texts_append, Line.texts_append, Span.texts_lines]
  simp only [List.append_assoc]

end Page
end Wireframe
