import Wireframe.Proofs.Page.Lines

/-! Pairs of tags among lines. A reader of pairs takes the first closing tag of the
kind that it meets, so what it recognises on a page are lines that hold no earlier
closing tag of that kind. -/
namespace Wireframe
namespace Page

open Text

/-- No tag name of the vocabulary begins another one. -/
theorem after?_tag_append {kind other : Kind} (h : other ≠ kind) (rest : Text) :
    after? kind.tag (other.tag ++ rest) = none := by
  cases kind <;> cases other <;> first | exact absurd rfl h | rfl

theorem after?_tag_slash (kind : Kind) (rest : Text) : after? kind.tag ('/' :: rest) = none := by
  cases kind <;> rfl

theorem after?_tag_close (kind : Kind) (rest : Text) : after? kind.tag ('>' :: rest) = none := by
  cases kind <;> rfl

/-- A text that does not begin with some words does not begin with longer ones either. -/
theorem after?_append_of_none {lead text : Text} (more : Text) (h : after? lead text = none) :
    after? (lead ++ more) text = none := by
  induction lead generalizing text with
  | nil => cases h
  | cons a lead ih =>
      cases text with
      | nil => rfl
      | cons c text =>
          by_cases hc : a = c
          · subst hc
            rw [after?_cons_self] at h
            rw [List.cons_append, after?_cons_self, ih h]
          · exact after?_eq_none_of_ne hc _ _

/-- The pair search of a kind matches at `<` only. -/
theorem angleFirst_kindPair (kind : Kind) : AngleFirst (kindPair kind) where
  nil := rfl
  cons c text h := by
    unfold kindPair
    rw [after?_eq_none_of_ne (Ne.symm h)]

/-- The pair search returns a part of the text, neither more nor less. -/
theorem faithful_kindPair (kind : Kind) : Faithful (kindPair kind) := by
  intro text target rest h
  unfold kindPair at h
  split at h
  · cases h
  · rename_i more hName
    split at h
    · split at h
      · cases h
      · rename_i attributes inner hSplit
        simp only [Option.map_eq_some_iff, Prod.mk.injEq] at h
        obtain ⟨cut, hCut, rfl, rfl⟩ := h
        have hWhole := whole_of_find? (faithful_literal _) hCut
        rw [eq_append_of_after? hName, append_of_splitAttributes? hSplit, ← hWhole]
        simp [Cut.whole]
    · cases h

theorem notMem_tag (kind : Kind) : '>' ∉ kind.tag := by
  cases kind <;> decide

theorem tag_ne_nil (kind : Kind) : kind.tag ≠ [] := by
  cases kind <;> decide

/-- The tag name determines the kind. -/
theorem tag_injective {kind other : Kind} (h : kind.tag = other.tag) : kind = other := by
  have hKind := Kind.ofTag?_tag kind
  rw [h, Kind.ofTag?_tag] at hKind
  exact (Option.some.inj hKind).symm

/-- Different names without `>` are told apart where they end. -/
theorem after?_name_of_ne {name other : Text} (h : other ≠ name) (hName : '>' ∉ name)
    (hOther : '>' ∉ other) (rest : Text) :
    after? (name ++ ['>']) (other ++ '>' :: rest) = none := by
  induction name generalizing other with
  | nil =>
      cases other with
      | nil => exact absurd rfl h
      | cons c other =>
          have hc : '>' ≠ c := fun hEq => hOther (List.mem_cons.mpr (.inl hEq))
          exact after?_eq_none_of_ne hc _ _
  | cons a name ih =>
      cases other with
      | nil =>
          have ha : a ≠ '>' := fun hEq => hName (List.mem_cons.mpr (.inl hEq.symm))
          exact after?_eq_none_of_ne ha _ _
      | cons c other =>
          by_cases hc : a = c
          · subst hc
            simp only [List.mem_cons, not_or] at hName hOther
            rw [List.cons_append, List.cons_append, after?_cons_self]
            exact ih (fun hEq => h (by rw [hEq])) hName.2 hOther.2
          · exact after?_eq_none_of_ne hc _ _

/-- A closing tag is recognised on a line of its own name only. -/
theorem literal_closingTag_of_ne {name : Text} (hName : '>' ∉ name) {mark : Mark}
    (h : ∀ kind, mark = .closing kind → kind.tag ≠ name) (rest : Text) :
    literal (closingTag name) (mark.text ++ rest) = none := by
  have hNone : after? (closingTag name) (mark.text ++ rest) = none := by
    cases mark with
    | opening other props =>
        have hHead : ∃ c more, other.tag = c :: more ∧ '/' ≠ c := by
          cases other <;> exact ⟨_, _, rfl, by decide⟩
        obtain ⟨c, more, hTag, hc⟩ := hHead
        simp only [Mark.text, Mark.inner, hTag, closingTag, List.cons_append, after?_cons_self]
        exact after?_eq_none_of_ne hc _ _
    | closing other =>
        simp only [Mark.text, Mark.inner, closingTag, List.cons_append, after?_cons_self,
          List.append_assoc]
        exact after?_name_of_ne (h other rfl) hName (notMem_tag other) rest
  rw [literal, hNone, Option.map_none]

theorem angleFirst_closingTag (name : Text) : AngleFirst (literal (closingTag name)) :=
  angleFirst_literal ('/' :: name ++ ['>'])

/-- Looking for a closing tag skips every line that does not close this name: attribute texts hold
no closing tag, since values hold no `<`. -/
theorem cutAt?_closingTag_texts {name : Text} (hName : '>' ∉ name) {lines : List Line}
    (hClean : Line.Clean lines)
    (hOpen : ∀ line ∈ lines, ∀ kind, line.mark = .closing kind → kind.tag ≠ name) (rest : Text) :
    cutAt? (closingTag name) (Line.texts lines ++ rest) =
      (cutAt? (closingTag name) rest).map (preceded (Line.texts lines)) := by
  apply Line.find?_texts_of_refused (angleFirst_closingTag name) hClean
  intro line hLine more
  exact literal_closingTag_of_ne hName (hOpen line hLine) more

theorem tag_ne_of_unclosed {kind : Kind} {lines : List Line}
    (h : ∀ line ∈ lines, line.mark ≠ .closing kind) :
    ∀ line ∈ lines, ∀ other : Kind, line.mark = .closing other → other.tag ≠ kind.tag := by
  intro line hLine other hMark hTag
  exact h line hLine (by rw [hMark, tag_injective hTag])

/-- The closing tag of a pair is the first one of its kind. -/
theorem cutAt?_closingTag {kind : Kind} {lines : List Line} (hClean : Line.Clean lines)
    (hOpen : ∀ line ∈ lines, line.mark ≠ .closing kind) (indent : Nat) (rest : Text) :
    cutAt? (closingTag kind.tag)
        ('\n' :: (Line.texts lines ++ (spaces indent ++ (closingTag kind.tag ++ rest)))) =
      some ⟨'\n' :: (Line.texts lines ++ spaces indent), closingTag kind.tag, rest⟩ := by
  have hRead := angleFirst_closingTag kind.tag
  have hHere : cutAt? (closingTag kind.tag) (closingTag kind.tag ++ rest) =
      some ⟨[], closingTag kind.tag, rest⟩ := find?_of_read (literal_append _ _)
  have hMargin := find?_angleFree_append hRead (angleFree_spaces indent)
    (closingTag kind.tag ++ rest)
  have hBreak := find?_angleFree_append hRead (show angleFree ['\n'] = true from rfl)
    (Line.texts lines ++ (spaces indent ++ (closingTag kind.tag ++ rest)))
  have hLines := cutAt?_closingTag_texts (notMem_tag kind) hClean (tag_ne_of_unclosed hOpen)
    (spaces indent ++ (closingTag kind.tag ++ rest))
  unfold cutAt? at hHere hLines ⊢
  rw [List.singleton_append] at hBreak
  rw [hBreak, hLines, hMargin, hHere]
  simp [preceded]

/-- A pair of tag lines and the lines between them. -/
structure Span where
  indent : Nat
  kind : Kind
  props : Props
  inner : List Line
  closingIndent : Nat

namespace Span

def lines (span : Span) : List Line :=
  ⟨span.indent, .opening span.kind span.props⟩ ::
    (span.inner ++ [⟨span.closingIndent, .closing span.kind⟩])

def text (span : Span) : Text :=
  openingTag span.kind span.props ++
    '\n' :: (Line.texts span.inner ++ (spaces span.closingIndent ++ closingTag span.kind.tag))

structure Legible (span : Span) : Prop where
  clean : Line.Clean span.lines
  shallow : span.props.Shallow
  unclosed : ∀ line ∈ span.inner, line.mark ≠ .closing span.kind

/-- The lines of a span are clean when its props and its inner lines are. -/
theorem clean_lines {span : Span} :
    Line.Clean span.lines ↔ span.props.Clean ∧ Line.Clean span.inner := by
  constructor
  · intro h
    exact ⟨h _ List.mem_cons_self, fun line hLine => h line (by simp [lines, hLine])⟩
  · rintro ⟨hProps, hInner⟩ line hLine
    simp only [lines, List.mem_cons, List.mem_append, List.not_mem_nil, or_false] at hLine
    rcases hLine with rfl | hLine | rfl
    · exact hProps
    · exact hInner line hLine
    · trivial

/-- A span written on its lines is its text, indented and ended by a line break. -/
theorem texts_lines (span : Span) :
    Line.texts span.lines = spaces span.indent ++ span.text ++ ['\n'] := by
  simp [lines, text, Line.text, Mark.text_opening, Mark.text_closing]

/-- The text of a span starts with its opening tag. -/
theorem text_append (span : Span) (rest : Text) :
    span.text ++ rest = openingTag span.kind span.props ++ '\n' :: (Line.texts span.inner ++
      (spaces span.closingIndent ++ (closingTag span.kind.tag ++ rest))) := by
  simp [text]

/-- A legible span ends with the first closing tag of its kind. -/
theorem Legible.cutAt?_inner {span : Span} (h : span.Legible) (rest : Text) :
    cutAt? (closingTag span.kind.tag) ('\n' :: (Line.texts span.inner ++
        (spaces span.closingIndent ++ (closingTag span.kind.tag ++ rest)))) =
      some ⟨'\n' :: (Line.texts span.inner ++ spaces span.closingIndent),
        closingTag span.kind.tag, rest⟩ :=
  cutAt?_closingTag (clean_lines.mp h.clean).2 h.unclosed span.closingIndent rest

end Span

/-- A closing tag starts no pair. -/
theorem kindPair_closing (kind other : Kind) (rest : Text) :
    kindPair kind ((Mark.closing other).text ++ rest) = none := by
  simp only [kindPair, Mark.text, Mark.inner, List.cons_append, after?_cons_self,
    after?_tag_slash]

/-- An opening tag of another kind starts no pair of this one. -/
theorem kindPair_opening_of_ne {kind other : Kind} (h : other ≠ kind) (props : Props)
    (rest : Text) : kindPair kind ((Mark.opening other props).text ++ rest) = none := by
  simp only [kindPair, Mark.text, Mark.inner, List.cons_append, List.append_assoc,
    after?_cons_self, after?_tag_append h]

/-- The tag name in a written opening tag ends where the attributes begin, or at the bracket. -/
theorem endsTagName_attributes (props : Props) (rest : Text) :
    endsTagName (attributes props ++ '>' :: rest) = true := by
  rw [attributes_eq]
  cases Diff.visible props with
  | nil => rfl
  | cons entry more => rfl

/-- A pair of a kind is read from its opening tag on if that can be read, up to the first closing
tag of the kind. -/
theorem kindPair_opening (kind : Kind) {props : Props} (h : props.Clean) (rest : Text) :
    kindPair kind (openingTag kind props ++ rest) =
      if props.Shallow then
        (cutAt? (closingTag kind.tag) rest).map fun cut =>
          (openingTag kind props ++ (cut.before ++ cut.target), cut.after)
      else none := by
  have hText : openingTag kind props ++ rest =
      '<' :: kind.tag ++ (attributes props ++ '>' :: rest) := by
    simp [openingTag]
  rw [kindPair, hText, after?_append]
  simp only [endsTagName_attributes, if_true, splitAttributes?_attributes true h]
  by_cases hShallow : props.Shallow
  · rw [if_pos hShallow, if_pos hShallow]
    simp [openingTag]
  · rw [if_neg hShallow, if_neg hShallow]

/-- The reader of pairs recognises the text of a span. -/
theorem kindPair_text {span : Span} (h : span.Legible) (rest : Text) :
    kindPair span.kind (span.text ++ rest) = some (span.text, rest) := by
  obtain ⟨hProps, -⟩ := Span.clean_lines.mp h.clean
  rw [span.text_append, kindPair_opening span.kind hProps, if_pos h.shallow, h.cutAt?_inner]
  simp [Span.text]

end Page
end Wireframe
