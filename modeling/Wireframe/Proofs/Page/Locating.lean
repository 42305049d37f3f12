import Wireframe.Proofs.Page.Matching

/-! Finding a root by the text that was recorded for it. The text of a root occurs at that
root alone: components below others are indented further, and roots that no text confuses
have different opening tags. -/
namespace Wireframe
namespace Page

open Text

theorem notMem_closingTag (kind : Kind) : '\n' ∉ closingTag kind.tag := by
  cases kind <;> decide

namespace Span

theorem lastLine_text (span : Span) :
    lastLine span.text = spaces span.closingIndent ++ closingTag span.kind.tag := by
  have hEnds : EndsLine (openingTag span.kind span.props ++ ['\n'] ++ Line.texts span.inner) :=
    EndsLine.append (.inr ⟨_, rfl⟩) (endsLine_texts span.inner)
  have hLast : '\n' ∉ spaces span.closingIndent ++ closingTag span.kind.tag := by
    rw [List.mem_append, not_or]
    exact ⟨notMem_spaces _, notMem_closingTag _⟩
  have hText : span.text = openingTag span.kind span.props ++ ['\n'] ++ Line.texts span.inner ++
      (spaces span.closingIndent ++ closingTag span.kind.tag) := by
    simp [text]
  rw [hText, lastLine_append hEnds hLast]

variable {s t : Span}

/-- The text of a span occurs at the start of another one only if it is its text. -/
theorem literal_text_of_ne (hs : s.Legible) (ht : t.Legible) (h : t.text ≠ s.text) (rest : Text) :
    literal s.text (t.text ++ rest) = none := by
  cases hRead : literal s.text (t.text ++ rest) with
  | none => rfl
  | some found =>
      obtain ⟨target, more⟩ := found
      obtain ⟨-, hText⟩ := append_of_literal hRead
      have hPair := kindPair_text hs more
      rw [← hText] at hPair
      by_cases hKind : t.kind = s.kind
      · rw [← hKind, kindPair_text ht rest, Option.some.injEq, Prod.mk.injEq] at hPair
        exact absurd hPair.1 h
      · rw [text_append, ← Mark.text_opening, kindPair_opening_of_ne hKind] at hPair
        cases hPair

/-- The text of a span shows its kind, in the name of its first tag. -/
theorem kind_eq_of_text_eq (hs : s.Legible) (h : t.text = s.text) : t.kind = s.kind := by
  by_contra hKind
  have hPair := kindPair_text hs []
  rw [← h, text_append, ← Mark.text_opening, kindPair_opening_of_ne hKind] at hPair
  cases hPair

/-- The text of a span shows the column of its closing tag. -/
theorem closingIndent_eq_of_text_eq (hs : s.Legible) (h : t.text = s.text) :
    t.closingIndent = s.closingIndent := by
  have hLast := congrArg (fun text => (lastLine text).length) h
  simp only [lastLine_text, kind_eq_of_text_eq hs h, List.length_append, spaces,
    List.length_replicate] at hLast
  omega

/-- The text of a span shows those of its props that are not `false`. -/
theorem visible_eq_of_text_eq (hs : s.Legible) (ht : t.Legible) (h : t.text = s.text) :
    Diff.visible t.props = Diff.visible s.props := by
  obtain ⟨hSProps, -⟩ := clean_lines.mp hs.clean
  obtain ⟨hTProps, -⟩ := clean_lines.mp ht.clean
  have hTag := congrArg (fun text => (opening? false text).map Opening.attributes) h
  simp only [text, opening?_openingTag false _ hSProps, opening?_openingTag false _ hTProps,
    if_pos hs.shallow, if_pos ht.shallow, Option.map_some, Option.some.injEq] at hTag
  rw [← props_attributes hTProps, hTag, props_attributes hSProps]

/-- A search for the text of a span looks at tags only. -/
theorem angleFirst_text (span : Span) : AngleFirst (literal span.text) := by
  have hText : span.text = '<' :: (span.kind.tag ++ (attributes span.props ++ '>' ::
      '\n' :: (Line.texts span.inner ++
        (spaces span.closingIndent ++ closingTag span.kind.tag)))) := by
    simp [text, openingTag]
  rw [hText]
  exact angleFirst_literal _

/-- The text of a span does not start at a closing tag. -/
theorem literal_text_closing (span : Span) (kind : Kind) (rest : Text) :
    literal span.text ((Mark.closing kind).text ++ rest) = none := by
  have hTag := after?_append_of_none (attributes span.props ++ '>' :: '\n' ::
    (Line.texts span.inner ++ (spaces span.closingIndent ++ closingTag span.kind.tag)))
    (after?_tag_slash span.kind (kind.tag ++ ['>'] ++ rest))
  simpa [literal, text, openingTag, Mark.text, Mark.inner, after?_cons_self] using hTag

/-- Nor does it start at the opener of the block. -/
theorem literal_text_blockStart (span : Span) (rest : Text) :
    literal span.text ('<' :: '>' :: rest) = none := by
  have hTag := after?_append_of_none (attributes span.props ++ '>' :: '\n' ::
    (Line.texts span.inner ++ (spaces span.closingIndent ++ closingTag span.kind.tag)))
    (after?_tag_close span.kind rest)
  simpa [literal, text, openingTag, after?_cons_self] using hTag

end Span

/-- A search for the text of a span goes past components that are indented further, and past
others whose text is a different one. -/
theorem find?_text_lines {s : Span} (hs : s.Legible) {forest : Forest}
    (hPlain : Forest.Plain forest) :
    ∀ {indent : Nat}, s.closingIndent ≤ indent →
      (s.closingIndent = indent → ∀ c ∈ forest, (spanOf indent c).text ≠ s.text) →
      ∀ rest, find? (literal s.text) (Line.texts (Forest.lines indent forest) ++ rest) =
        (find? (literal s.text) rest).map (preceded (Line.texts (Forest.lines indent forest))) := by
  induction forest using Forest.induction with
  | nil =>
      intro indent _ _ rest
      cases hRest : find? (literal s.text) rest with
      | none => simpa [Forest.lines] using hRest
      | some cut => simpa [Forest.lines] using hRest
  | cons c others hChildren hOthers =>
      intro indent hIndent hRoots rest
      have hSpan := legible_spanOf hPlain indent
      have hRead := s.angleFirst_text
      have hText : (spanOf indent c).text ≠ s.text := by
        intro hEq
        exact hRoots (Span.closingIndent_eq_of_text_eq hs hEq).symm c (by simp) hEq
      have hBelow := hChildren hPlain.children (show s.closingIndent ≤ indent + 2 by omega)
        (fun hEq => absurd hEq (by omega))
      have hLater := hOthers hPlain.tail hIndent
        (fun hEq d hd => hRoots hEq d (List.mem_cons_of_mem _ hd)) rest
      -- The search is refused at the opening tag of each root and again at its closing tag.
      have hOpen : ∀ more, literal s.text ((Mark.opening c.kind c.props).text ++ '\n' ::
          (Line.texts (Forest.lines (indent + 2) c.children) ++
            (Line.text ⟨indent, .closing c.kind⟩ ++ more))) = none := by
        intro more
        have hRefused := Span.literal_text_of_ne hs hSpan hText ('\n' :: more)
        rw [Span.text_append, ← Mark.text_opening] at hRefused
        simpa [spanOf, Line.text, Mark.text_closing] using hRefused
      have hClose := Line.find?_text hRead ⟨indent, .closing c.kind⟩ trivial
        (s.literal_text_closing c.kind
          ('\n' :: (Line.texts (Forest.lines indent others) ++ rest)))
      have hHere := Line.find?_text hRead ⟨indent, .opening c.kind c.props⟩
        (Span.clean_lines.mp hSpan.clean).1 (hOpen (Line.texts (Forest.lines indent others) ++ rest))
      have hLines : Line.texts (Forest.lines indent (c :: others)) ++ rest =
          Line.text ⟨indent, .opening c.kind c.props⟩ ++
            (Line.texts (Forest.lines (indent + 2) c.children) ++
              (Line.text ⟨indent, .closing c.kind⟩ ++
                (Line.texts (Forest.lines indent others) ++ rest))) := by
        simp [Forest.lines_cons, c.lines_eq]
      rw [hLines, hHere, hBelow, hClose, hLater]
      simp [Function.comp_def, Forest.lines_cons, c.lines_eq]

/-- Roots of one text have the same identifying texts. -/
theorem alike_of_text_eq {c d : Component} (hc : Forest.Plain [c]) (hd : Forest.Plain [d])
    {indent : Nat} (hText : (spanOf indent d).text = (spanOf indent c).text) : Diff.Alike d c := by
  have hcSpan := legible_spanOf hc indent
  have hdSpan := legible_spanOf hd indent
  have hKind : d.kind = c.kind := Span.kind_eq_of_text_eq hcSpan hText
  have hVisible : Diff.visible d.props = Diff.visible c.props :=
    Span.visible_eq_of_text_eq hcSpan hdSpan hText
  have hc := (hc.clean c (Forest.mem_walk_self c [])).distinct
  have hd := (hd.clean d (Forest.mem_walk_self d [])).distinct
  have hTexts (key : String) : d.props.text? key = c.props.text? key := by
    rw [← Diff.text?_visible hd, hVisible, Diff.text?_visible hc]
  refine ⟨hKind, ?_⟩
  simp only [Diff.identity, hTexts]

/-- A component is found at the first root that has its recorded text. -/
theorem locate?_recorded {frame : Frame} (hFrame : frame.AngleFree) {first : Forest} {c d : Component}
    {last : Forest} (hPlain : Forest.Plain (first ++ d :: last))
    (hText : (spanOf 6 d).text = (spanOf 6 c).text)
    (hFirst : ∀ e ∈ first, (spanOf 6 e).text ≠ (spanOf 6 c).text) :
    locate? (page frame (Forest.lines 6 (first ++ d :: last))) (c.recorded rootIndent) =
      some ((spanOf 6 d).cutIn frame (Forest.lines 6 first) (Forest.lines 6 last)) := by
  have hSpan := legible_spanOf hPlain.right 6
  have hRead := (spanOf 6 d).angleFirst_text
  rw [← hText] at hFirst
  have hHere := find?_of_read
    (literal_append (spanOf 6 d).text ('\n' :: (Line.texts (Forest.lines 6 last) ++ closing frame)))
  have hMargin := find?_angleFree_append hRead (angleFree_spaces 6) ((spanOf 6 d).text ++
    '\n' :: (Line.texts (Forest.lines 6 last) ++ closing frame))
  have hLines := find?_text_lines hSpan hPlain.left (Nat.le_refl 6) (fun _ => hFirst)
    (spaces 6 ++ ((spanOf 6 d).text ++ '\n' :: (Line.texts (Forest.lines 6 last) ++ closing frame)))
  have hPage : page frame (Forest.lines 6 (first ++ d :: last)) =
      opening frame ++ (Line.texts (Forest.lines 6 first) ++ (spaces 6 ++ ((spanOf 6 d).text ++
        '\n' :: (Line.texts (Forest.lines 6 last) ++ closing frame)))) := by
    rw [Forest.lines_append, Forest.lines_cons, ← lines_spanOf]
    exact page_span frame _ _ _
  have hCut : cutAt? (spanOf 6 d).text (page frame (Forest.lines 6 (first ++ d :: last))) =
      some ((spanOf 6 d).cutIn frame (Forest.lines 6 first) (Forest.lines 6 last)) := by
    rw [hPage, cutAt?, find?_opening hFrame hRead (spanOf 6 d).literal_text_blockStart, hLines,
      hMargin, hHere]
    simp [preceded, Span.cutIn, spanOf]
  have hSource : (c.recorded rootIndent).source = some (spanOf 6 d).text := by
    rw [recorded_eq, hText]
    exact congrArg some (emitted_eq 6 c)
  have hNonempty : (spanOf 6 d).text.isEmpty = false := by simpa using (spanOf 6 d).text_ne_nil
  simp only [locate?, hSource, Option.getD_some, hNonempty, Bool.false_eq_true, if_false, hCut,
    Option.some_or]

end Page
end Wireframe
