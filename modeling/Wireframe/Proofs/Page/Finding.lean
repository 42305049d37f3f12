import Wireframe.Proofs.Page.Pages

/-! Finding pairs of tags on a page. Whatever is found is a span of lines of the page,
and the first span of a kind is found if nothing before it opens that kind. -/
namespace Wireframe
namespace Page

open Text

/-- The end of a page closes no name. -/
theorem cutAt?_closingTag_closing {frame : Frame} (hFrame : frame.AngleFree) {name : Text}
    (hName : '>' ∉ name) (hNonempty : name ≠ []) :
    cutAt? (closingTag name) (closing frame) = none := by
  apply find?_closing hFrame (angleFirst_closingTag name)
  intro more
  have hEnd := after?_name_of_ne (Ne.symm hNonempty) hName (by simp) more
  rw [literal, Option.map_eq_none_iff]
  exact hEnd

/-- A name that neither a line nor what follows the lines closes is closed nowhere. -/
theorem cutAt?_closingTag_eq_none {name tail : Text} (hName : '>' ∉ name)
    (hTail : cutAt? (closingTag name) tail = none) {lines : List Line} (hClean : Line.Clean lines)
    (hOpen : ∀ line ∈ lines, ∀ kind, line.mark = .closing kind → kind.tag ≠ name) :
    cutAt? (closingTag name) ('\n' :: (Line.texts lines ++ tail)) = none := by
  have hBreak := find?_angleFree_append (angleFirst_closingTag name)
    (show angleFree ['\n'] = true from rfl) (Line.texts lines ++ tail)
  have hLines := cutAt?_closingTag_texts hName hClean hOpen tail
  rw [hTail, Option.map_none] at hLines
  unfold cutAt? at hLines ⊢
  rw [← List.singleton_append, hBreak, hLines, Option.map_none]

theorem kindPair_blockStart (kind : Kind) (more : Text) :
    kindPair kind ('<' :: '>' :: more) = none := by
  rw [kindPair, after?_cons_self, after?_tag_close]

theorem kindPair_blockEnd (kind : Kind) (more : Text) :
    kindPair kind ('<' :: '/' :: '>' :: more) = none := by
  rw [kindPair, after?_cons_self, after?_tag_slash]

/-- A pair of a kind starts at an opening tag of the kind and nowhere else. -/
theorem kindPair_of_not_opening {kind : Kind} {mark : Mark}
    (h : ∀ props, mark ≠ .opening kind props) (rest : Text) :
    kindPair kind (mark.text ++ rest) = none := by
  cases mark with
  | opening other props =>
      have hKind : other ≠ kind := fun hEq => h props (by rw [hEq])
      exact kindPair_opening_of_ne hKind props rest
  | closing other => exact kindPair_closing kind other rest

/-- If anything in a row meets a condition, there is a first one that does. -/
theorem exists_first {α : Type} {p : α → Prop} {xs : List α} (h : ∃ x ∈ xs, p x) :
    ∃ before x after, xs = before ++ x :: after ∧ p x ∧ ∀ y ∈ before, ¬p y := by
  induction xs with
  | nil =>
      obtain ⟨x, hx, -⟩ := h
      cases hx
  | cons x xs ih =>
      by_cases hx : p x
      · exact ⟨[], x, xs, rfl, hx, by simp⟩
      · obtain ⟨y, hy, hp⟩ := h
        have hLater : ∃ y ∈ xs, p y := by
          rcases List.mem_cons.mp hy with rfl | hy
          · exact absurd hp hx
          · exact ⟨y, hy, hp⟩
        obtain ⟨before, z, after, rfl, hz, hBefore⟩ := ih hLater
        refine ⟨x :: before, z, after, rfl, hz, fun y hy => ?_⟩
        rcases List.mem_cons.mp hy with rfl | hy
        · exact hx
        · exact hBefore y hy

def Span.cutIn (frame : Frame) (first last : List Line) (span : Span) : Cut :=
  ⟨opening frame ++ (Line.texts first ++ spaces span.indent), span.text,
    '\n' :: (Line.texts last ++ closing frame)⟩

/-- A page around a span, written out as text. -/
theorem page_span (frame : Frame) (first last : List Line) (span : Span) :
    page frame (first ++ (span.lines ++ last)) =
      opening frame ++ (Line.texts first ++ (spaces span.indent ++
        (span.text ++ '\n' :: (Line.texts last ++ closing frame)))) := by
  rw [page, Line.texts_append, Line.texts_append, Span.texts_lines]
  simp

section

variable {frame : Frame} (hFrame : frame.AngleFree)
include hFrame

/-- A pair whose opening tag stands on a line ends on a later line, the first one that closes
its kind. -/
theorem span_of_kindPair_opening {kind : Kind} {props : Props} {more : List Line}
    {target rest : Text} (indent : Nat) (hProps : props.Clean) (hClean : Line.Clean more)
    (hPair : kindPair kind (openingTag kind props ++
      '\n' :: (Line.texts more ++ closing frame)) = some (target, rest)) :
    ∃ (span : Span) (last : List Line),
      ⟨indent, .opening kind props⟩ :: more = span.lines ++ last ∧ span.indent = indent ∧
        span.kind = kind ∧ span.Legible ∧ target = span.text ∧
        rest = '\n' :: (Line.texts last ++ closing frame) := by
  rw [kindPair_opening kind hProps] at hPair
  by_cases hShallow : props.Shallow
  -- Without a closing tag on a later line there is none at all, as the frame has none.
  · by_cases hClosed : ∃ line ∈ more, line.mark = .closing kind
    · obtain ⟨inner, ⟨closingIndent, mark⟩, last, rfl, hMark, hInner⟩ := exists_first hClosed
      obtain rfl : mark = .closing kind := hMark
      obtain ⟨hBefore, -⟩ := Line.clean_append.mp hClean
      have hSpan : Span.Legible ⟨indent, kind, props, inner, closingIndent⟩ :=
        ⟨Span.clean_lines.mpr ⟨hProps, hBefore⟩, hShallow, hInner⟩
      have hText : openingTag kind props ++ '\n' ::
          (Line.texts (inner ++ ⟨closingIndent, .closing kind⟩ :: last) ++ closing frame) =
          Span.text ⟨indent, kind, props, inner, closingIndent⟩ ++
            '\n' :: (Line.texts last ++ closing frame) := by
        simp [Span.text, Line.text, Mark.text_closing]
      rw [← kindPair_opening kind hProps, hText, kindPair_text hSpan, Option.some.injEq,
        Prod.mk.injEq] at hPair
      exact ⟨⟨indent, kind, props, inner, closingIndent⟩, last, by simp [Span.lines], rfl, rfl,
        hSpan, hPair.1.symm, hPair.2.symm⟩
    · have hOpen : ∀ line ∈ more, line.mark ≠ .closing kind :=
        fun line hLine hMark => hClosed ⟨line, hLine, hMark⟩
      have hCut : cutAt? (closingTag kind.tag) ('\n' :: (Line.texts more ++ closing frame)) = none :=
        cutAt?_closingTag_eq_none (notMem_tag kind)
          (cutAt?_closingTag_closing hFrame (notMem_tag kind) (tag_ne_nil kind)) hClean
          (tag_ne_of_unclosed hOpen)
      rw [if_pos hShallow, hCut] at hPair
      cases hPair
  · rw [if_neg hShallow] at hPair
    cases hPair

/-- A pair of tags that is recognised at a place of a page is a span of its lines. -/
theorem span_of_kindPair {lines : List Line} (hClean : Line.Clean lines) {kind : Kind}
    {before text target rest : Text} (hPage : page frame lines = before ++ text)
    (hPair : kindPair kind text = some (target, rest)) :
    ∃ (first last : List Line) (span : Span), lines = first ++ (span.lines ++ last) ∧
      span.kind = kind ∧ span.Legible ∧ span.cutIn frame first last = ⟨before, target, rest⟩ := by
  have hAngle : ∃ more, text = '<' :: more := by
    cases text with
    | nil =>
        rw [(angleFirst_kindPair kind).nil] at hPair
        cases hPair
    | cons c more =>
        by_cases hc : c = '<'
        · exact ⟨more, by rw [hc]⟩
        · rw [(angleFirst_kindPair kind).cons c more hc] at hPair
          cases hPair
  obtain ⟨more, rfl⟩ := hAngle
  -- The fragment is no pair of a kind, nor does a pair begin at a closing tag.
  rcases angle_of_page hFrame hClean hPage with
    ⟨-, rfl⟩ | ⟨first, line, last, rfl, rfl, hText⟩ | ⟨-, rfl⟩
  · rw [show '<' :: (">\n".toList ++ (Line.texts lines ++ closing frame)) =
      '<' :: '>' :: ('\n' :: (Line.texts lines ++ closing frame)) from rfl,
      kindPair_blockStart] at hPair
    cases hPair
  · obtain ⟨-, hRest⟩ := Line.clean_append.mp hClean
    obtain ⟨indent, mark⟩ := line
    cases mark with
    | opening other props =>
        rw [hText] at hPair
        by_cases hKind : other = kind
        · subst hKind
          obtain ⟨span, after, hLines, rfl, hKind, hLegible, rfl, rfl⟩ :=
            span_of_kindPair_opening hFrame indent hRest.head hRest.tail hPair
          refine ⟨first, after, span, by rw [hLines], hKind, hLegible, ?_⟩
          simp [Span.cutIn]
        · rw [kindPair_opening_of_ne hKind] at hPair
          cases hPair
    | closing other =>
        rw [hText, kindPair_closing] at hPair
        cases hPair
  · rw [show '<' :: ("/>".toList ++ ("\n  );".toList ++ trail frame)) =
      '<' :: '/' :: '>' :: ("\n  );".toList ++ trail frame) from rfl, kindPair_blockEnd] at hPair
    cases hPair

/-- The first span of a kind is found if no line before it opens that kind. -/
theorem findKind?_span {kind : Kind} {first : List Line} (last : List Line) {span : Span}
    (hClean : Line.Clean first) (hFirst : ∀ line ∈ first, ∀ props, line.mark ≠ .opening kind props)
    (hKind : span.kind = kind) (hSpan : span.Legible) :
    findKind? kind (page frame (first ++ (span.lines ++ last))) =
      some (span.cutIn frame first last) := by
  subst hKind
  have hPair := kindPair_text hSpan ('\n' :: (Line.texts last ++ closing frame))
  have hText : span.text ++ '\n' :: (Line.texts last ++ closing frame) =
      (Mark.opening span.kind span.props).text ++
        '\n' :: (Line.texts (span.inner ++
          ⟨span.closingIndent, .closing span.kind⟩ :: last) ++ closing frame) := by
    simp [Span.text, Line.text, Mark.text_opening, Mark.text_closing]
  rw [hText] at hPair
  have hFind := find?_page hFrame (angleFirst_kindPair span.kind) (kindPair_blockStart span.kind)
    ⟨span.indent, .opening span.kind span.props⟩ hClean
    (fun before other after hBefore =>
      kindPair_of_not_opening (hFirst other (by simp [hBefore])) _) hPair
  simpa [Span.lines, Span.cutIn, findKind?] using hFind

/-- A page without opening tags of a kind has no pair of the kind. -/
theorem findKind?_eq_none {kind : Kind} {lines : List Line} (hClean : Line.Clean lines)
    (hNone : ∀ line ∈ lines, ∀ props, line.mark ≠ .opening kind props) :
    findKind? kind (page frame lines) = none :=
  find?_page_eq_none hFrame (angleFirst_kindPair kind) (kindPair_blockStart kind)
    (kindPair_blockEnd kind) hClean fun line hLine =>
      kindPair_of_not_opening (hNone line hLine)

/-- What is found for a kind is a span of the page. -/
theorem span_of_findKind? {lines : List Line} (hClean : Line.Clean lines) {kind : Kind} {cut : Cut}
    (h : findKind? kind (page frame lines) = some cut) :
    ∃ (first last : List Line) (span : Span), lines = first ++ (span.lines ++ last) ∧
      span.kind = kind ∧ span.Legible ∧ span.cutIn frame first last = cut := by
  have hWhole := whole_of_find? (faithful_kindPair kind) h
  have hPair := read_of_find? (faithful_kindPair kind) h
  rw [Cut.whole, List.append_assoc] at hWhole
  exact span_of_kindPair hFrame hClean hWhole.symm hPair

end

/-- The component has no recorded text, or the text of a pair of tags of its kind. -/
def Recorded (c : Component) : Prop :=
  c.source.getD [] = [] ∨
    ∃ span : Span, span.Legible ∧ span.kind = c.kind ∧ c.source = some span.text

theorem Span.text_ne_nil (span : Span) : span.text ≠ [] := by
  simp [text, openingTag]

/-- Whatever way a component is located, its place is a span of its kind. -/
theorem span_of_locate? {frame : Frame} (hFrame : frame.AngleFree) {lines : List Line}
    (hClean : Line.Clean lines) {c : Component} (hRecorded : Recorded c) {cut : Cut}
    (h : locate? (page frame lines) c = some cut) :
    ∃ (first last : List Line) (span : Span), lines = first ++ (span.lines ++ last) ∧
      span.kind = c.kind ∧ span.Legible ∧ span.cutIn frame first last = cut := by
  unfold locate? at h
  rcases hRecorded with hNone | ⟨source, hSource, hKind, hText⟩
  · rw [hNone] at h
    exact span_of_findKind? hFrame hClean h
  · have hNonempty : source.text.isEmpty = false := by simpa using source.text_ne_nil
    simp only [hText, Option.getD_some, hNonempty, Bool.false_eq_true, if_false,
      Option.or_eq_some_iff] at h
    -- By the recorded text, by its opening tag, or by the kind alone.
    rcases h with (hCut | ⟨-, hOpening⟩) | ⟨-, hFind⟩
    · have hWhole := whole_of_find? (faithful_literal _) hCut
      obtain ⟨hTarget, -⟩ := append_of_literal (read_of_find? (faithful_literal _) hCut)
      have hPair := kindPair_text hSource cut.after
      rw [hKind, ← hTarget] at hPair
      rw [Cut.whole, List.append_assoc] at hWhole
      exact span_of_kindPair hFrame hClean hWhole.symm hPair
    · unfold findOpening? at hOpening
      split at hOpening
      · cases hOpening
      · split at hOpening
        · cases hOpening
        · rename_i found hFound
          simp only [Option.map_eq_some_iff] at hOpening
          obtain ⟨⟨target, rest⟩, hPair, rfl⟩ := hOpening
          have hWhole := whole_of_find? (faithful_literal _) hFound
          rw [Cut.whole, List.append_assoc] at hWhole
          exact span_of_kindPair hFrame hClean hWhole.symm hPair
    · exact span_of_findKind? hFrame hClean hFind

end Page
end Wireframe
