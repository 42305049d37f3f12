import Wireframe.Proofs.Page.Spans

/-! Pages of lines. Between the lines that open and close a page stand the lines of
a rendered forest, or what edits of the text have left of them. -/
namespace Wireframe

/-- The names of a page hold no `<`. -/
structure Frame.AngleFree (frame : Frame) : Prop where
  componentName : Text.angleFree frame.componentName.toList = true
  importPath : Text.angleFree frame.importPath.toList = true

instance (frame : Frame) : Decidable frame.AngleFree :=
  decidable_of_iff (Text.angleFree frame.componentName.toList = true ∧
      Text.angleFree frame.importPath.toList = true)
    ⟨fun ⟨hName, hPath⟩ => ⟨hName, hPath⟩, fun h => ⟨h.componentName, h.importPath⟩⟩

namespace Page

open Text

def page (frame : Frame) (lines : List Line) : Text :=
  opening frame ++ (Line.texts lines ++ closing frame)

/-- The rendered page is the page of the lines of the plan's components. -/
theorem render_eq_page (frame : Frame) (plan : Plan) :
    render frame plan = page frame (Forest.lines 6 plan.components) := by
  have hForest : renderForest rootIndent plan.components =
      Line.texts (Forest.lines 6 plan.components) := renderForest_eq_texts plan.components 6
  rw [render, hForest, page, List.append_assoc]

def lead (frame : Frame) : Text :=
  header frame ++ "\nexport const ".toList ++ frame.componentName.toList ++ " = () => \x7b\n  ".toList

theorem blockStart_text : " = () => \x7b\n  return (\n    <>\n".toList =
    " = () => \x7b\n  ".toList ++ ("return (".toList ++ "\n    ".toList) ++ "<>\n".toList := by
  simp

/-- The text before the roots, cut where the opener of the block stands. -/
theorem opening_eq (frame : Frame) :
    opening frame = lead frame ++ ("return (".toList ++ "\n    ".toList) ++ "<>\n".toList := by
  unfold opening lead
  rw [blockStart_text]
  simp only [List.append_assoc]

def trail (frame : Frame) : Text :=
  "\n\x7d;\n\nexport default ".toList ++ frame.componentName.toList ++ ";\n".toList

theorem blockEnd_text : "    </>\n  );\n\x7d;\n\nexport default ".toList =
    "    ".toList ++ ("</>".toList ++ ("\n  );".toList ++ "\n\x7d;\n\nexport default ".toList)) := by
  simp

/-- The text behind the roots, cut where the closer of the block stands. -/
theorem closing_eq (frame : Frame) :
    closing frame = "    ".toList ++ ("</>".toList ++ ("\n  );".toList ++ trail frame)) := by
  unfold closing trail
  rw [blockEnd_text]
  simp only [List.append_assoc]

theorem angleFree_literals :
    [", ".intercalate (Kind.all.map Kind.name), "import React from 'react';\nimport \x7b ",
      " \x7d from '", "';\n", "\nexport const ", " = () => \x7b\n  ",
      "\n\x7d;\n\nexport default ", ";\n"].all (fun words => angleFree words.toList) = true := by
  decide +kernel

section

variable {frame : Frame} (hFrame : frame.AngleFree)
include hFrame

/-- Nothing before the opener of the block looks like a tag. -/
theorem angleFree_lead : angleFree (lead frame) = true := by
  have hWords := angleFree_literals
  simp only [List.all_cons, Bool.and_eq_true] at hWords
  obtain ⟨hNames, hStart, hFrom, hQuote, hExport, hArrow, -⟩ := hWords
  unfold lead header
  iterate 7 rw [angleFree_append]
  rw [hNames, hStart, hFrom, hQuote, hExport, hArrow, hFrame.componentName, hFrame.importPath]
  rfl

/-- Nothing behind the closer of the block looks like a tag. -/
theorem angleFree_trail : angleFree (trail frame) = true := by
  have hWords := angleFree_literals
  simp only [List.all_cons, Bool.and_eq_true] at hWords
  obtain ⟨-, -, -, -, -, -, hExport, hEnd, -⟩ := hWords
  unfold trail
  rw [angleFree_append, angleFree_append, hExport, hEnd, hFrame.componentName]
  rfl

/-- No `<` stands before the one that starts the block. -/
theorem angleFree_beforeBlock :
    angleFree (lead frame ++ ("return (".toList ++ "\n    ".toList)) = true := by
  rw [angleFree_append, angleFree_lead hFrame]
  decide

/-- No `<` stands behind the one that ends the block. -/
theorem angleFree_behindBlock :
    angleFree ("/>".toList ++ ("\n  );".toList ++ trail frame)) = true := by
  rw [angleFree_append, angleFree_append, angleFree_trail hFrame]
  decide

end

/-- Where a `<` stands on a page: at the start of the block, at a tag, or at the end of the
block. -/
theorem angle_of_page {frame : Frame} (hFrame : frame.AngleFree) {lines : List Line}
    (hClean : Line.Clean lines) {before after : Text}
    (h : page frame lines = before ++ '<' :: after) :
    (before ++ "<>\n".toList = opening frame ∧
        after = ">\n".toList ++ (Line.texts lines ++ closing frame)) ∨
      (∃ first line last, lines = first ++ line :: last ∧
        before = opening frame ++ Line.texts first ++ spaces line.indent ∧
        '<' :: after = line.mark.text ++ '\n' :: (Line.texts last ++ closing frame)) ∨
      (before = opening frame ++ (Line.texts lines ++ "    ".toList) ∧
        after = "/>".toList ++ ("\n  );".toList ++ trail frame)) := by
  have hSplit : page frame lines =
      (lead frame ++ ("return (".toList ++ "\n    ".toList)) ++
        ('<' :: ('>' :: '\n' :: (Line.texts lines ++ closing frame))) := by
    rw [page, opening_eq]
    simp
  rw [hSplit] at h
  -- From here the page is gone through from one `<` to the next, with none in between.
  obtain ⟨more, rfl, hStart⟩ := angle_after (angleFree_beforeBlock hFrame) h
  cases more with
  | nil =>
      refine .inl ⟨?_, (List.cons.inj hStart).2.symm⟩
      rw [opening_eq, List.append_nil]
  | cons c more =>
      rw [List.cons_append, List.cons.injEq] at hStart
      obtain ⟨rfl, hRest⟩ := hStart
      have hBlock : ['>', '\n'] ++ (Line.texts lines ++ closing frame) = more ++ '<' :: after :=
        hRest
      obtain ⟨more, rfl, hLines⟩ := angle_after (by decide) hBlock
      rcases exists_line_of_angle hClean hLines with
        ⟨first, line, last, rfl, rfl, hAfter⟩ | ⟨more, rfl, hClosing⟩
      · refine .inr (.inl ⟨first, line, last, rfl, ?_, hAfter⟩)
        rw [opening_eq]
        simp
      · rw [closing_eq] at hClosing
        obtain ⟨more, rfl, hEnd⟩ := angle_after (by decide) hClosing
        cases more with
        | nil =>
            refine .inr (.inr ⟨?_, (List.cons.inj hEnd).2.symm⟩)
            rw [opening_eq]
            simp
        | cons c more =>
            have hTail : ("/>".toList ++ ("\n  );".toList ++ trail frame)) =
                more ++ '<' :: after := (List.cons.inj hEnd).2
            have hFree := angleFree_behindBlock hFrame
            rw [angleFree_iff, hTail] at hFree
            exact absurd (by simp) hFree

section

variable {frame : Frame} (hFrame : frame.AngleFree) {read : Reader} (hRead : AngleFirst read)
include hFrame hRead

/-- A search that refuses the start of the block goes on behind it. -/
theorem find?_opening (hBlock : ∀ more, read ('<' :: '>' :: more) = none) (rest : Text) :
    find? read (opening frame ++ rest) = (find? read rest).map (preceded (opening frame)) := by
  have hText : opening frame ++ rest = (lead frame ++ ("return (".toList ++ "\n    ".toList)) ++
      '<' :: (['>', '\n'] ++ rest) := by
    rw [opening_eq]
    simp
  have hHere : read ('<' :: (['>', '\n'] ++ rest)) = none := hBlock _
  rw [hText, find?_angleFree_append hRead (angleFree_beforeBlock hFrame),
    find?_cons_of_none hHere, find?_angleFree_append hRead (by decide), opening_eq]
  simp [Function.comp_def]

/-- A search that refuses the end of the block finds nothing behind the roots. -/
theorem find?_closing (hEnd : ∀ more, read ('<' :: '/' :: '>' :: more) = none) :
    find? read (closing frame) = none := by
  have hHere : read ('<' :: ("/>".toList ++ ("\n  );".toList ++ trail frame))) = none := hEnd _
  have hTag : find? read ('<' :: ("/>".toList ++ ("\n  );".toList ++ trail frame))) = none := by
    rw [find?_cons_of_none hHere, find?_of_angleFree hRead (angleFree_behindBlock hFrame)]
    rfl
  have hSkip := find?_angleFree_append hRead (show angleFree "    ".toList = true by decide)
    ('<' :: ("/>".toList ++ ("\n  );".toList ++ trail frame)))
  rw [hTag] at hSkip
  rw [closing_eq]
  exact hSkip

/-- The first line whose tag is recognised is found. -/
theorem find?_page (hBlock : ∀ more, read ('<' :: '>' :: more) = none) {first last : List Line}
    (line : Line) {target rest : Text} (hClean : Line.Clean first)
    (hFirst : ∀ before other after, first = before ++ other :: after →
      read (other.mark.text ++
        '\n' :: (Line.texts (after ++ line :: last) ++ closing frame)) = none)
    (hHere : read (line.mark.text ++ '\n' :: (Line.texts last ++ closing frame)) =
      some (target, rest)) :
    find? read (page frame (first ++ line :: last)) =
      some ⟨opening frame ++ (Line.texts first ++ spaces line.indent), target, rest⟩ := by
  have hLine := find?_of_read hHere
  have hMargin := find?_angleFree_append hRead (angleFree_spaces line.indent)
    (line.mark.text ++ '\n' :: (Line.texts last ++ closing frame))
  have hLines := Line.find?_texts hRead hClean (Line.texts (line :: last) ++ closing frame)
    fun before other after hBefore => by
      have hOther := hFirst before other after hBefore
      rwa [Line.texts_append, List.append_assoc] at hOther
  rw [Line.texts_cons, List.append_assoc, Line.text_append, hMargin, hLine] at hLines
  rw [page, find?_opening hFrame hRead hBlock, Line.texts_append, List.append_assoc,
    Line.texts_cons, List.append_assoc, Line.text_append, hLines]
  simp [preceded]

/-- Nothing is found on a page whose tags are all refused. -/
theorem find?_page_eq_none (hBlock : ∀ more, read ('<' :: '>' :: more) = none)
    (hEnd : ∀ more, read ('<' :: '/' :: '>' :: more) = none) {lines : List Line}
    (hClean : Line.Clean lines) (hNone : ∀ line ∈ lines, ∀ more, read (line.mark.text ++ more) = none) :
    find? read (page frame lines) = none := by
  rw [page, find?_opening hFrame hRead hBlock,
    Line.find?_texts_of_refused hRead hClean _ hNone, find?_closing hFrame hRead hEnd]
  rfl

end

end Page
end Wireframe
