import Wireframe.Proofs.Page.RootTexts

/-! Roots by their opening tags. A root whose content has changed is no longer found by its recorded
text. Its opening tag still finds it, if no other component of the page has the same one. -/
namespace Wireframe

open Page Text

def Component.opener (c : Component) : Text :=
  openingTag c.kind c.props

namespace Forest

def openers (forest : Forest) : List Text :=
  (walk forest).map Component.opener

theorem openers_cons (c : Component) (rest : Forest) :
    openers (c :: rest) = c.opener :: (openers c.children ++ openers rest) :=
  map_walk_cons _ c rest

theorem openers_append (first last : Forest) :
    openers (first ++ last) = openers first ++ openers last :=
  map_walk_append _ first last

/-- The opening tags can be collected root by root. -/
theorem openers_eq_flatMap (forest : Forest) :
    openers forest = forest.flatMap fun c => openers [c] := by
  induction forest with
  | nil => rfl
  | cons c rest ih => rw [← List.singleton_append, openers_append, ih, List.flatMap_append]; simp

/-- The order of the roots does not matter for which opening tags there are, and how often. -/
theorem openers_perm {forest other : Forest} (h : forest.Perm other) :
    (openers forest).Perm (openers other) := by
  rw [openers_eq_flatMap, openers_eq_flatMap other]
  exact h.flatMap_right _

theorem mem_openers_of_mem {forest : Forest} {c : Component} (h : c ∈ forest) {tag : Text}
    (hTag : tag ∈ openers [c]) : tag ∈ openers forest := by
  rw [openers_eq_flatMap]
  exact List.mem_flatMap.mpr ⟨c, h, hTag⟩

/-- A tag that stands once on a page stands nowhere beside the root that has it. -/
theorem not_mem_openers_of_count {first last : Forest} {c : Component} {tag : Text}
    (hTag : c.opener = tag) (h : (openers (first ++ c :: last)).count tag = 1) :
    tag ∉ openers first ∧ tag ∉ openers last := by
  rw [openers_append, openers_cons, hTag, List.count_append, List.count_cons_self,
    List.count_append] at h
  exact ⟨List.count_eq_zero.mp (by omega), List.count_eq_zero.mp (by omega)⟩

end Forest

namespace Page

/-- An opening tag shows the kind and the visible props of its component. -/
theorem eq_of_opener_eq {c d : Component} (hc : c.props.Clean) (hcShallow : c.props.Shallow)
    (hd : d.props.Clean) (hdShallow : d.props.Shallow) (h : c.opener = d.opener) :
    c.kind = d.kind ∧ Diff.visible c.props = Diff.visible d.props := by
  have hTag := opening?_openingTag false c.kind hc []
  rw [if_pos hcShallow, show openingTag c.kind c.props = openingTag d.kind d.props from h,
    opening?_openingTag false d.kind hd, if_pos hdShallow, Option.some.injEq,
    Opening.mk.injEq] at hTag
  obtain ⟨hName, hAttributes, -⟩ := hTag
  exact ⟨(tag_injective hName).symm, by rw [← props_attributes hc, ← hAttributes, props_attributes hd]⟩

/-- Components of one kind that show the same props have one opening tag. -/
theorem opener_eq {c d : Component} (hKind : c.kind = d.kind)
    (hVisible : Diff.visible c.props = Diff.visible d.props) : c.opener = d.opener := by
  rw [Component.opener, Component.opener, openingTag, openingTag, attributes_eq,
    attributes_eq d.props, hKind, hVisible]

/-- No closing tag reads like an opening one. -/
theorem text_closing_ne_openingTag (kind other : Kind) (props : Props) :
    (Mark.closing kind).text ≠ openingTag other props := by
  intro hTag
  have hSlash := after?_tag_slash other (kind.tag ++ ['>'])
  have hText : '/' :: (kind.tag ++ ['>']) = other.tag ++ (attributes props ++ ['>']) := by
    simpa [Mark.text, Mark.inner, openingTag] using hTag
  rw [hText, after?_append] at hSlash
  cases hSlash

/-- Every opening tag on the lines of a forest is one of its components'. -/
theorem text_ne_of_not_mem_openers {kind : Kind} {props : Props} {forest : Forest} {indent : Nat}
    (h : openingTag kind props ∉ Forest.openers forest) {line : Line}
    (hLine : line ∈ Forest.lines indent forest) : line.mark.text ≠ openingTag kind props := by
  obtain ⟨c, hc, hMark | hMark⟩ := mark_of_mem_lines hLine
  · rw [hMark, Mark.text_opening]
    exact fun hTag => h (hTag ▸ List.mem_map_of_mem hc)
  · rw [hMark]
    exact text_closing_ne_openingTag _ _ _

/-- An opening tag does not occur at the start of another tag. -/
theorem literal_openingTag_of_ne {kind : Kind} {props : Props} (hProps : props.Clean)
    (hShallow : props.Shallow) {mark : Mark} (hMark : mark.Clean)
    (h : mark.text ≠ openingTag kind props) (rest : Text) :
    literal (openingTag kind props) (mark.text ++ rest) = none := by
  cases hRead : literal (openingTag kind props) (mark.text ++ rest) with
  | none => rfl
  | some found =>
      obtain ⟨target, more⟩ := found
      obtain ⟨-, hText⟩ := append_of_literal hRead
      have hTag := opening?_openingTag false kind hProps more
      rw [if_pos hShallow, ← hText] at hTag
      cases mark with
      | opening other otherProps =>
          rw [Mark.text_opening, opening?_openingTag false other hMark] at hTag
          split at hTag
          · simp only [Option.some.injEq, Opening.mk.injEq] at hTag
            refine absurd ?_ h
            rw [Mark.text_opening, openingTag, openingTag, hTag.1, hTag.2.1]
          · cases hTag
      | closing other =>
          have hSlash := after?_tag_slash kind (other.tag ++ ['>'] ++ rest)
          have hStart : '/' :: (other.tag ++ ['>'] ++ rest) =
              kind.tag ++ (attributes props ++ '>' :: more) := by
            simpa [Mark.text, Mark.inner, openingTag] using hText
          rw [hStart, after?_append] at hSlash
          cases hSlash

/-- Spans of a page that start on the same line are cut at the same place. -/
theorem cutIn_eq_of_first {frame : Frame} {first last after : List Line} {s span : Span}
    (hs : s.Legible) (hSpan : span.Legible) (hIndent : s.indent = span.indent)
    (hKind : s.kind = span.kind) (h : s.lines ++ last = span.lines ++ after) :
    s.cutIn frame first last = span.cutIn frame first after := by
  have hPage := congrArg (fun lines => page frame (first ++ lines)) h
  simp only [page_span, hIndent] at hPage
  have hText := List.append_cancel_left (List.append_cancel_left (List.append_cancel_left hPage))
  have hPair := kindPair_text hs ('\n' :: (Line.texts last ++ closing frame))
  rw [hText, hKind, kindPair_text hSpan, Option.some.injEq, Prod.mk.injEq] at hPair
  rw [Span.cutIn, Span.cutIn, hIndent, hPair.1, hPair.2]

/-- The opening tag can be recovered from the recorded text of a component. -/
theorem recordedOpening_text {span : Span} (h : span.Legible) :
    recordedOpening span.text = openingTag span.kind span.props := by
  have hTag := opening?_openingTag false span.kind (Span.clean_lines.mp h.clean).1
    ('\n' :: (Line.texts span.inner ++ (spaces span.closingIndent ++ closingTag span.kind.tag)))
  rw [if_pos h.shallow] at hTag
  rw [recordedOpening, Span.text, hTag]
  rfl

section

variable {frame : Frame} (hFrame : frame.AngleFree) {first last : List Line} {s span : Span}
  (hClean : Line.Clean (first ++ (span.lines ++ last))) (hs : s.Legible) (hSpan : span.Legible)
  (hKind : span.kind = s.kind)
  (hTag : openingTag span.kind span.props = openingTag s.kind s.props)
  (hFirst : ∀ line ∈ first, line.mark.text ≠ openingTag s.kind s.props)
include hFrame hClean hs hSpan hKind hTag hFirst

omit hKind in
/-- The first pair of tags with an opening tag is found by that tag. -/
theorem findOpening?_span :
    findOpening? span.kind (recordedOpening s.text) (page frame (first ++ (span.lines ++ last))) =
      some (span.cutIn frame first last) := by
  let line : Line := ⟨span.indent, .opening span.kind span.props⟩
  let inner := span.inner ++ (⟨span.closingIndent, .closing span.kind⟩ :: last)
  have hLines : first ++ (span.lines ++ last) = first ++ line :: inner := by
    simp [line, inner, Span.lines]
  -- The fragment has no name, so the search goes past it.
  have hBlock (more : Text) : literal (openingTag s.kind s.props) ('<' :: '>' :: more) = none := by
    have hName := after?_append_of_none (attributes s.props ++ ['>']) (after?_tag_close s.kind more)
    simpa [literal, openingTag, after?_cons_self] using hName
  have hBefore : Line.Clean first := (Line.clean_append.mp hClean).1
  have hCut : cutAt? (openingTag s.kind s.props) (page frame (first ++ line :: inner)) =
      some ⟨opening frame ++ (Line.texts first ++ spaces span.indent), openingTag s.kind s.props,
        '\n' :: (Line.texts inner ++ closing frame)⟩ := by
    refine find?_page hFrame (angleFirst_literal _) hBlock line hBefore ?_ ?_
    · rintro before other after rfl
      exact literal_openingTag_of_ne (Span.clean_lines.mp hs.clean).1 hs.shallow
        (hBefore other (by simp)) (hFirst other (by simp)) _
    · rw [Mark.text_opening, hTag]
      exact literal_append _ _
  have hFilled : (openingTag s.kind s.props).isEmpty = false := rfl
  have hText : openingTag s.kind s.props ++ '\n' :: (Line.texts inner ++ closing frame) =
      span.text ++ '\n' :: (Line.texts last ++ closing frame) := by
    rw [← hTag]
    simp [inner, Span.text, Line.text, Mark.text_closing]
  rw [hLines, findOpening?, recordedOpening_text hs, hFilled, if_neg (by decide), hCut]
  simp only [hText, kindPair_text hSpan, Option.map_some, Span.cutIn]

/-- A component whose opening tag stands on one line only is found there, whatever has become of the
rest of its text. -/
theorem locate?_span {target : Component} (hSource : target.source = some s.text)
    (hTarget : target.kind = span.kind)
    (hLast : ∀ line ∈ span.inner ++ (⟨span.closingIndent, .closing span.kind⟩ :: last),
      line.mark.text ≠ openingTag s.kind s.props) :
    locate? (page frame (first ++ (span.lines ++ last))) target =
      some (span.cutIn frame first last) := by
  have hFilled : s.text.isEmpty = false := by simpa using s.text_ne_nil
  cases hCut : cutAt? s.text (page frame (first ++ (span.lines ++ last))) with
  | none =>
      simp only [locate?, hSource, Option.getD_some, hFilled, Bool.false_eq_true, if_false, hCut,
        Option.none_or, hTarget, findOpening?_span hFrame hClean hs hSpan hTag hFirst,
        Option.some_or]
  | some cut =>
      -- The recorded text is still there, and then it is the text of the span.
      have hWhole := whole_of_find? (faithful_literal _) hCut
      obtain ⟨hText, -⟩ := append_of_literal (read_of_find? (faithful_literal _) hCut)
      have hPair := kindPair_text hs cut.after
      rw [← hText] at hPair
      rw [Cut.whole, List.append_assoc] at hWhole
      obtain ⟨before, after, found, hLines, hFoundKind, hFound, hCutIn⟩ :=
        span_of_kindPair hFrame hClean hWhole.symm hPair
      have hFoundText : found.text = s.text := by
        rw [← hText]
        exact congrArg Cut.target hCutIn
      have hVisible := Span.visible_eq_of_text_eq hs hFound hFoundText
      have hFoundTag : openingTag found.kind found.props = openingTag s.kind s.props := by
        rw [openingTag, openingTag, attributes_eq, attributes_eq s.props, hVisible, hFoundKind]
      have hSplit : first ++ (⟨span.indent, .opening span.kind span.props⟩ :: (span.inner ++
          (⟨span.closingIndent, .closing span.kind⟩ :: last))) =
          before ++ (⟨found.indent, .opening found.kind found.props⟩ :: (found.inner ++
            (⟨found.closingIndent, .closing found.kind⟩ :: after))) := by
        simpa [Span.lines] using hLines
      let line : Line := ⟨found.indent, .opening found.kind found.props⟩
      have hFoundFirst : line ∉ first := fun hMem => hFirst line hMem hFoundTag
      have hFoundLast : line ∉ span.inner ++ (⟨span.closingIndent, .closing span.kind⟩ :: last) :=
        fun hMem => hLast line hMem hFoundTag
      obtain ⟨rfl, hLine, -⟩ :=
        (List.append_cons_inj_of_notMem hFoundFirst hFoundLast).mp hSplit
      rw [Line.mk.injEq] at hLine
      have hSame : span.cutIn frame first last = cut :=
        (cutIn_eq_of_first hSpan hFound hLine.1 (hKind.trans hFoundKind.symm)
          (List.append_cancel_left hLines)).trans hCutIn
      simp only [locate?, hSource, Option.getD_some, hFilled, Bool.false_eq_true, if_false, hCut,
        Option.some_or, hSame]

end

/-- The props of a root with an opening tag of its own are changed, whatever it holds by now. -/
theorem updateProps_opener {frame : Frame} (hFrame : frame.AngleFree) {first last : Forest}
    {c d : Component} (hPlain : Forest.Plain (first ++ d :: last)) (hc : Forest.Plain [c])
    (hKind : d.kind = c.kind) (hTag : d.opener = c.opener)
    (hOwn : c.opener ∉ Forest.openers first ++ (Forest.openers d.children ++ Forest.openers last))
    (changes : List Change) :
    updateProps (page frame (Forest.lines 6 (first ++ d :: last))) (c.recorded rootIndent) changes =
      page frame (Forest.lines 6 (first ++ d.changeProps changes :: last)) := by
  rw [List.mem_append, List.mem_append, not_or, not_or] at hOwn
  obtain ⟨hFirst, hChildren, hLast⟩ := hOwn
  have hSpan := legible_spanOf hPlain.right 6
  have hClean := clean_lines hPlain.clean 6
  have hSource : (c.recorded rootIndent).source = some (spanOf 6 c).text := by
    rw [recorded_eq]
    exact congrArg some (emitted_eq 6 c)
  have hTarget : (c.recorded rootIndent).kind = (spanOf 6 d).kind := by
    rw [recorded_eq]
    exact hKind.symm
  rw [lines_root] at hClean
  have hLocate := locate?_span hFrame hClean (legible_spanOf hc 6) hSpan hKind hTag
    (fun line hLine => text_ne_of_not_mem_openers hFirst hLine) hSource hTarget (by
      intro line hLine
      rcases List.mem_append.mp hLine with hLine | hLine
      · exact text_ne_of_not_mem_openers hChildren hLine
      · rcases List.mem_cons.mp hLine with rfl | hLine
        · exact text_closing_ne_openingTag _ _ _
        · exact text_ne_of_not_mem_openers hLast hLine)
  rw [lines_root, updateProps_page hLocate hSpan, lines_root]
  rfl

end Page
end Wireframe
