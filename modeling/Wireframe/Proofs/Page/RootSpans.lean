import Wireframe.Proofs.Page.Locating

/-! The first pair of tags at a root. The pair that a root opens ends at its own closing tag just
when nothing of its kind lies below it. On a rendered page the text of such a pair, if it has
something in it, stands at a root only. -/
namespace Wireframe
namespace Page

open Text

/-- Every line of a forest is indented at least as far as the forest. -/
theorem indent_of_mem_lines {forest : Forest} {line : Line} :
    ∀ {indent : Nat}, line ∈ Forest.lines indent forest → indent ≤ line.indent := by
  induction forest using Forest.induction with
  | nil =>
      intro indent hLine
      cases hLine
  | cons c rest hChildren hRest =>
      intro indent hLine
      rw [Forest.lines_cons, c.lines_eq] at hLine
      simp only [List.mem_append, List.mem_cons, List.not_mem_nil, or_false] at hLine
      rcases hLine with (rfl | hLine | rfl) | hLine
      · exact Nat.le_refl _
      · exact Nat.le_of_add_right_le (hChildren hLine)
      · exact Nat.le_refl _
      · exact hRest hLine

/-- Every component of a forest has a closing tag among the lines. -/
theorem exists_closing {forest : Forest} {c : Component} (h : c ∈ Forest.walk forest) :
    ∀ indent, ∃ line ∈ Forest.lines indent forest, line.mark = .closing c.kind := by
  induction forest using Forest.induction with
  | nil => cases h
  | cons d rest hChildren hRest =>
      intro indent
      rw [Forest.lines_cons, d.lines_eq]
      rw [Forest.walk_cons, List.mem_cons, List.mem_append] at h
      rcases h with rfl | h | h
      · exact ⟨⟨indent, .closing c.kind⟩, by simp, rfl⟩
      · obtain ⟨line, hLine, hMark⟩ := hChildren h (indent + 2)
        exact ⟨line, by simp [hLine], hMark⟩
      · obtain ⟨line, hLine, hMark⟩ := hRest h indent
        exact ⟨line, by simp [hLine], hMark⟩

/-- A component with one of its own kind below is read up to a closing tag below it, and its own
closing tag is left over. -/
theorem exists_span_of_repeated {c : Component} {rest : Forest} (hClean : Forest.Clean (c :: rest))
    (hShallow : c.props.Shallow) (h : ¬c.Unrepeated) (indent : Nat) :
    ∃ inner closingIndent left,
      Forest.lines (indent + 2) c.children =
        inner ++ (⟨closingIndent, .closing c.kind⟩ :: left) ∧
      indent + 2 ≤ closingIndent ∧
      (Span.mk indent c.kind c.props inner closingIndent).Legible := by
  have hBelow : ∃ d ∈ Forest.walk c.children, d.kind = c.kind := by
    by_contra hNone
    exact h fun d hd hKind => hNone ⟨d, hd, hKind⟩
  obtain ⟨d, hd, hKind⟩ := hBelow
  have hClosed := exists_closing hd (indent + 2)
  rw [hKind] at hClosed
  obtain ⟨inner, ⟨closingIndent, mark⟩, left, hLines, hMark, hInner⟩ := exists_first hClosed
  obtain rfl : mark = .closing c.kind := hMark
  have hLine := clean_lines hClean.children (indent + 2)
  refine ⟨inner, closingIndent, left, hLines, ?_, Span.clean_lines.mpr ⟨?_, ?_⟩, hShallow, hInner⟩
  · have hMem : (⟨closingIndent, .closing c.kind⟩ : Line) ∈
        Forest.lines (indent + 2) c.children := by
      rw [hLines]
      simp
    exact indent_of_mem_lines hMem
  · exact hClean c (Forest.mem_walk_self c rest)
  · rw [hLines] at hLine
    exact (Line.clean_append.mp hLine).1

/-- A tag opened right behind an opening tag stands two columns further. -/
def Steps (line next : Line) : Prop :=
  ∀ kind props, line.mark = .opening kind props →
    ∀ kind' props', next.mark = .opening kind' props' → next.indent = line.indent + 2

theorem steps_closing_left (line next : Line) {kind : Kind} (h : line.mark = .closing kind) :
    Steps line next := by
  intro _ _ hOpening
  rw [h] at hOpening
  cases hOpening

theorem steps_closing_right (line next : Line) {kind : Kind} (h : next.mark = .closing kind) :
    Steps line next := by
  intro _ _ _ _ _ hOpening
  rw [h] at hOpening
  cases hOpening

/-- A forest begins at its own column. -/
theorem head_lines (indent : Nat) (forest : Forest) :
    ∀ line ∈ (Forest.lines indent forest).head?, line.indent = indent := by
  cases forest with
  | nil => simp [Forest.lines]
  | cons c rest => simp [Forest.lines_cons, c.lines_eq]

/-- Along the lines of a forest two opening lines in a row go exactly one level in, since only a
child follows its parent's opening. -/
theorem isChain_lines (forest : Forest) :
    ∀ indent, (Forest.lines indent forest).IsChain Steps := by
  induction forest using Forest.induction with
  | nil => exact fun _ => .nil
  | cons c rest hChildren hRest =>
      intro indent
      have hHead : ∀ next ∈ (spanOf indent c).inner.head?,
          Steps ⟨indent, .opening c.kind c.props⟩ next :=
        fun next hNext _ _ _ _ _ _ => head_lines _ _ next hNext
      have hOpening : (⟨indent, .opening c.kind c.props⟩ ::
          (spanOf indent c).inner : List Line).IsChain Steps :=
        List.isChain_cons.mpr ⟨hHead, hChildren (indent + 2)⟩
      have hLines : (spanOf indent c).lines.IsChain Steps := by
        refine List.isChain_append.mpr ⟨hOpening, .singleton _, ?_⟩
        intro line _ next hNext
        obtain rfl := Option.some.inj hNext
        exact steps_closing_right _ _ rfl
      rw [Forest.lines_cons, ← lines_spanOf]
      refine List.isChain_append.mpr ⟨hLines, hRest indent, ?_⟩
      intro line hLine next _
      rw [Span.lines, ← List.cons_append, List.getLast?_concat] at hLine
      obtain rfl := Option.some.inj hLine
      exact steps_closing_left _ _ rfl

/-- A child is written two columns further in than its parent. -/
theorem indent_of_nested {indent : Nat} {forest : Forest} {first last : List Line}
    {outer inner : Nat} {kind kind' : Kind} {props props' : Props}
    (h : Forest.lines indent forest =
      first ++ (⟨outer, .opening kind props⟩ :: ⟨inner, .opening kind' props'⟩ :: last)) :
    inner = outer + 2 := by
  have hChain := isChain_lines forest indent
  rw [h, List.isChain_append, List.isChain_cons_cons] at hChain
  exact hChain.2.1.1 kind props rfl kind' props' rfl

/-- A tag opened at the outermost column belongs to a root. -/
theorem root_of_indent {indent : Nat} {forest : Forest} :
    ∀ {first last : List Line} {kind : Kind} {props : Props},
      Forest.lines indent forest = first ++ (⟨indent, .opening kind props⟩ :: last) →
      ∃ before c after, forest = before ++ c :: after ∧ first = Forest.lines indent before ∧
        ⟨indent, .opening kind props⟩ :: last = c.lines indent ++ Forest.lines indent after := by
  induction forest with
  | nil =>
      intro first last kind props h
      exact absurd h (by simp [Forest.lines])
  | cons c rest ih =>
      intro first last kind props h
      cases first with
      | nil => exact ⟨[], c, rest, rfl, rfl, h.symm⟩
      | cons line first =>
          rw [Forest.lines_cons, c.lines_eq, List.cons_append, List.cons_append,
            List.cons.injEq] at h
          obtain ⟨rfl, h⟩ := h
          -- The tag is not among the lines of the children, which are indented further.
          have hRest : ∃ more, first = Forest.lines (indent + 2) c.children ++
              [⟨indent, .closing c.kind⟩] ++ more ∧
              Forest.lines indent rest = more ++ (⟨indent, .opening kind props⟩ :: last) := by
            rcases place_beside h.symm with hBehind | ⟨more, hInner, -⟩
            · exact hBehind
            · have hMem : (⟨indent, .opening kind props⟩ : Line) ∈
                  Forest.lines (indent + 2) c.children ++ [⟨indent, .closing c.kind⟩] := by
                rw [hInner]
                simp
              rcases List.mem_append.mp hMem with hMem | hMem
              · exact absurd (indent_of_mem_lines hMem) (by simp)
              · exact absurd (List.mem_singleton.mp hMem) (by simp)
          obtain ⟨more, rfl, hMore⟩ := hRest
          obtain ⟨before, d, after, rfl, rfl, hLines⟩ := ih hMore
          refine ⟨c :: before, d, after, rfl, ?_, hLines⟩
          rw [Forest.lines_cons, c.lines_eq]
          rfl

/-- Indentation can be read off a line that starts with a tag. -/
theorem spaces_angle_inj {n m : Nat} {text text' : Text}
    (h : spaces n ++ '<' :: text = spaces m ++ '<' :: text') : n = m ∧ text = text' := by
  have hStop (rest : Text) : StopsAt (· == ' ') ('<' :: rest) := by simp
  have hRun (count : Nat) : ∀ c ∈ spaces count, (c == ' ') = true := by
    intro c hc
    rw [List.eq_of_mem_replicate hc]
    rfl
  have hTake := congrArg (List.takeWhile (· == ' ')) h
  rw [takeWhile_append_of_stopsAt (hRun n) (hStop _), takeWhile_append_of_stopsAt (hRun m) (hStop _)]
    at hTake
  obtain rfl : n = m := by simpa [spaces] using congrArg List.length hTake
  exact ⟨rfl, (List.cons.inj (List.append_cancel_left h)).2⟩

/-- A text between two tags that goes on with an opening tag starts with the line of one. -/
theorem exists_opening_line {lines : List Line} {closingIndent indent : Nat} {kind kind' : Kind}
    {props : Props} {rest : Text}
    (h : Line.texts lines ++ (spaces closingIndent ++ closingTag kind.tag) =
      spaces indent ++ (openingTag kind' props ++ rest)) :
    ∃ other props' more, lines = ⟨indent, .opening other props'⟩ :: more := by
  have hSlash {more : Text} (hTag : '/' :: more = kind'.tag ++ attributes props ++ ['>'] ++ rest) :
      False := by
    have hAfter := after?_tag_slash kind' more
    rw [hTag, List.append_assoc, List.append_assoc, after?_append] at hAfter
    cases hAfter
  cases lines with
  | nil =>
      obtain ⟨-, hTag⟩ := spaces_angle_inj h
      exact (hSlash hTag).elim
  | cons line more =>
      rw [Line.texts_cons, List.append_assoc, Line.text_append] at h
      obtain ⟨hIndent, hTag⟩ := spaces_angle_inj h
      obtain ⟨column, mark⟩ := line
      cases mark with
      | opening other props' => exact ⟨other, props', more, by rw [← hIndent]⟩
      | closing other => exact (hSlash hTag).elim

namespace Span

/-- Two spans of one text agree behind their opening tags, since the tag is read the same way off
both. -/
theorem rest_eq_of_text_eq {s t : Span} (hs : s.Legible) (ht : t.Legible) (h : t.text = s.text) :
    Line.texts t.inner ++ (spaces t.closingIndent ++ closingTag t.kind.tag) =
      Line.texts s.inner ++ (spaces s.closingIndent ++ closingTag s.kind.tag) := by
  obtain ⟨hSProps, -⟩ := clean_lines.mp hs.clean
  obtain ⟨hTProps, -⟩ := clean_lines.mp ht.clean
  have hRest := congrArg (fun text => (opening? false text).map Opening.rest) h
  simp only [text, opening?_openingTag false _ hSProps, opening?_openingTag false _ hTProps,
    if_pos hs.shallow, if_pos ht.shallow, Option.map_some, Option.some.injEq,
    List.cons.injEq] at hRest
  exact hRest.2

end Span

/-- On a rendered page the text of a pair that goes on with a tag two columns from the margin of the
roots is found at a root. -/
theorem locate?_root {frame : Frame} (hFrame : frame.AngleFree) {forest : Forest}
    (hClean : Forest.Clean forest) {s : Span} (hs : s.Legible) {kind : Kind} {props : Props}
    {more : List Line} (hInner : s.inner = ⟨8, .opening kind props⟩ :: more) {target : Component}
    (hSource : target.source = some s.text) {front back : List Line}
    (hOccurs : Forest.lines 6 forest = front ++ (s.lines ++ back)) :
    ∃ (before : Forest) (c : Component) (after : Forest) (span : Span) (last : List Line),
      forest = before ++ c :: after ∧ c.lines 6 ++ Forest.lines 6 after = span.lines ++ last ∧
      span.indent = 6 ∧ span.text = s.text ∧ span.Legible ∧
      locate? (page frame (Forest.lines 6 forest)) target =
        some (span.cutIn frame (Forest.lines 6 before) last) := by
  have hLines := clean_lines hClean 6
  have hNonempty : s.text.isEmpty = false := by simpa using s.text_ne_nil
  have hInfix : s.text <:+: page frame (Forest.lines 6 forest) := by
    rw [hOccurs, page_span]
    exact ⟨opening frame ++ (Line.texts front ++ spaces s.indent),
      '\n' :: (Line.texts back ++ closing frame), by simp⟩
  obtain ⟨cut, hCut⟩ := Option.isSome_iff_exists.mp (isSome_cutAt? hInfix)
  obtain ⟨hTarget, -⟩ := append_of_literal (read_of_find? (faithful_literal _) hCut)
  have hWhole := whole_of_find? (faithful_literal _) hCut
  have hPair := kindPair_text hs cut.after
  rw [Cut.whole, List.append_assoc] at hWhole
  rw [← hTarget] at hPair
  obtain ⟨first, last, span, hSplit, hKind, hSpan, hCutIn⟩ :=
    span_of_kindPair hFrame hLines hWhole.symm hPair
  have hText : span.text = s.text := by
    rw [← hTarget]
    exact congrArg Cut.target hCutIn
  have hRest := Span.rest_eq_of_text_eq hs hSpan hText
  rw [hInner, Line.texts_cons, List.append_assoc, Line.text_append, Mark.text_opening] at hRest
  obtain ⟨other, props', lines, hNext⟩ := exists_opening_line hRest
  -- What stands there goes on with a tag at column 8, so it starts at column 6 and is a root.
  have hIndent : span.indent = 6 := by
    rw [Span.lines, hNext, List.cons_append, List.cons_append, List.cons_append] at hSplit
    have hNested : 8 = span.indent + 2 := indent_of_nested hSplit
    omega
  have hHead : Forest.lines 6 forest = first ++ (⟨6, .opening span.kind span.props⟩ ::
      (span.inner ++ [⟨span.closingIndent, .closing span.kind⟩] ++ last)) := by
    rw [hSplit, Span.lines, hIndent]
    rfl
  obtain ⟨before, c, after, rfl, rfl, hRoot⟩ := root_of_indent hHead
  refine ⟨before, c, after, span, last, rfl, ?_, hIndent, hText, hSpan, ?_⟩
  · rw [← hRoot, Span.lines, hIndent]
    rfl
  · have hLocate : locate? (page frame (Forest.lines 6 (before ++ c :: after))) target =
        some cut := by
      simp only [locate?, hSource, Option.getD_some, hNonempty, Bool.false_eq_true, if_false, hCut,
        Option.some_or]
    rw [hLocate, hCutIn]

end Page
end Wireframe
