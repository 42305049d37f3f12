import Wireframe.Proofs.Page.TagReading
import Wireframe.Proofs.Text.Search
import Wireframe.Component.Edit

/-! Rendered forests as lines. Each line holds one tag, and `<` occurs at the start
of tags only, so that a search in page source is a search among lines. -/
namespace Wireframe
namespace Page

open Text

inductive Mark where
  | opening (kind : Kind) (props : Props)
  | closing (kind : Kind)

namespace Mark

def inner : Mark → Text
  | .opening kind props => kind.tag ++ attributes props ++ ['>']
  | .closing kind => '/' :: kind.tag ++ ['>']

def text (mark : Mark) : Text :=
  '<' :: mark.inner

def Clean : Mark → Prop
  | .opening _ props => props.Clean
  | .closing _ => True

theorem text_opening (kind : Kind) (props : Props) :
    (opening kind props).text = openingTag kind props := rfl

theorem text_closing (kind : Kind) : (closing kind).text = closingTag kind.tag := rfl

end Mark

structure Line where
  indent : Nat
  mark : Mark

namespace Line

def text (line : Line) : Text :=
  spaces line.indent ++ line.mark.text ++ ['\n']

def texts (lines : List Line) : Text :=
  lines.flatMap text

@[simp] theorem texts_nil : texts [] = [] := rfl

@[simp] theorem texts_cons (line : Line) (lines : List Line) :
    texts (line :: lines) = line.text ++ texts lines :=
  List.flatMap_cons

/-- Lines side by side have their texts side by side. -/
@[simp] theorem texts_append (first last : List Line) :
    texts (first ++ last) = texts first ++ texts last :=
  List.flatMap_append

def Clean (lines : List Line) : Prop :=
  ∀ line ∈ lines, line.mark.Clean

end Line

end Page

open Page

mutual

def Component.lines (indent : Nat) : Component → List Line
  | ⟨kind, props, children, _⟩ =>
    ⟨indent, .opening kind props⟩ ::
      (Forest.lines (indent + 2) children ++ [⟨indent, .closing kind⟩])
termination_by structural c => c

def Forest.lines (indent : Nat) : List Component → List Line
  | [] => []
  | c :: rest => c.lines indent ++ Forest.lines indent rest
termination_by structural forest => forest

end

/-- A component is its opening tag, its children two columns further, and its closing tag below the
opening one. -/
theorem Component.lines_eq (indent : Nat) (c : Component) :
    c.lines indent = ⟨indent, .opening c.kind c.props⟩ ::
      (Forest.lines (indent + 2) c.children ++ [⟨indent, .closing c.kind⟩]) := by
  cases c
  rfl

theorem Forest.lines_cons (indent : Nat) (c : Component) (rest : Forest) :
    Forest.lines indent (c :: rest) = c.lines indent ++ Forest.lines indent rest := rfl

/-- Components side by side have their lines side by side. -/
theorem Forest.lines_append (indent : Nat) (first last : Forest) :
    Forest.lines indent (first ++ last) =
      Forest.lines indent first ++ Forest.lines indent last := by
  induction first with
  | nil => rfl
  | cons c rest ih => rw [List.cons_append, lines_cons, ih, lines_cons, List.append_assoc]

namespace Page

open Text

theorem margin_natCast (indent : Nat) : margin indent = spaces indent := by
  rw [margin, Int.toNat_natCast]

/-- Indentations stay natural numbers from one level to the next. -/
theorem natCast_add_indentStep (indent : Nat) :
    (indent : Int) + indentStep = ((indent + 2 : Nat) : Int) := rfl

/-- Rendering unfolded once. The children are rendered as a forest, one step further. -/
theorem renderComponent_eq (indent : Int) (c : Component) :
    renderComponent indent c = margin indent ++ openingTag c.kind c.props
      ++ '\n' :: renderForest (indent + indentStep) c.children
      ++ margin indent ++ closingTag c.kind.tag ++ ['\n'] := by
  cases c
  rfl

/-- The text of a forest is the text of its lines. -/
theorem renderForest_eq_texts (forest : Forest) :
    ∀ indent : Nat, renderForest indent forest = Line.texts (Forest.lines indent forest) := by
  induction forest using Forest.induction with
  | nil => exact fun _ => rfl
  | cons c rest hChildren hRest =>
      intro indent
      have hComponent : renderComponent indent c = Line.texts (c.lines indent) := by
        rw [renderComponent_eq, natCast_add_indentStep, hChildren, margin_natCast, c.lines_eq]
        simp [Line.text, Mark.text_opening, Mark.text_closing]
      rw [renderForest, hComponent, hRest, Forest.lines_cons, Line.texts_append]

/-- Rendering a component is writing out its lines. From here on pages are known by their lines. -/
theorem renderComponent_eq_texts (indent : Nat) (c : Component) :
    renderComponent indent c = Line.texts (c.lines indent) := by
  have hForest := renderForest_eq_texts [c] indent
  simpa [renderForest, Forest.lines] using hForest

theorem angleFree_spaces (count : Nat) : angleFree (spaces count) = true := by
  rw [angleFree_iff, spaces]
  intro hMem
  exact absurd (List.eq_of_mem_replicate hMem) (by decide)

theorem angleFree_tag (kind : Kind) : angleFree kind.tag = true := by
  cases kind <;> decide

/-- A tag that can be read holds no `<` but its first character. -/
theorem Mark.Clean.angleFree_inner {mark : Mark} (h : mark.Clean) : angleFree mark.inner = true := by
  cases mark with
  | opening kind props =>
      have hAttributes := angleFree_attributes h
      simp [inner, angleFree_tag, hAttributes]
  | closing kind => simp [inner, angleFree_tag]

/-- The only `<` of a tag line is the first character of its tag. -/
theorem Mark.Clean.angleFree_inner_newline {mark : Mark} (h : mark.Clean) :
    angleFree (mark.inner ++ ['\n']) = true := by
  simp [h.angleFree_inner]

/-- A tag and the line break behind it split behind the `<`. -/
theorem Mark.text_newline (mark : Mark) (rest : Text) :
    mark.text ++ '\n' :: rest = '<' :: ((mark.inner ++ ['\n']) ++ rest) := by
  simp [text]

namespace Line

theorem Clean.head {line : Line} {lines : List Line} (h : Clean (line :: lines)) :
    line.mark.Clean :=
  h line (by simp)

theorem Clean.tail {line : Line} {lines : List Line} (h : Clean (line :: lines)) : Clean lines :=
  fun other hOther => h other (List.mem_cons_of_mem _ hOther)

/-- Lines can be read if those of either part can. -/
theorem clean_append {first last : List Line} :
    Clean (first ++ last) ↔ Clean first ∧ Clean last := by
  simp only [Clean, List.mem_append, or_imp, forall_and]

/-- A line is its indentation, its tag and a line break. -/
theorem text_append (line : Line) (rest : Text) :
    line.text ++ rest = spaces line.indent ++ (line.mark.text ++ '\n' :: rest) := by
  simp [text]

variable {read : Reader} {lines : List Line}

/-- A search goes past a line whose tag the reader refuses. -/
theorem find?_text (hRead : AngleFirst read) (line : Line) (hClean : line.mark.Clean) {rest : Text}
    (hNone : read (line.mark.text ++ '\n' :: rest) = none) :
    find? read (line.text ++ rest) = (find? read rest).map (preceded line.text) := by
  rw [line.mark.text_newline] at hNone
  rw [text_append, find?_angleFree_append hRead (angleFree_spaces line.indent),
    line.mark.text_newline, find?_cons_of_none hNone,
    find?_angleFree_append hRead hClean.angleFree_inner_newline]
  simp [Function.comp_def, text, Mark.text]

/-- A search goes past lines whose tags the reader refuses. -/
theorem find?_texts (hRead : AngleFirst read) (hClean : Clean lines) (rest : Text)
    (hNone : ∀ first line last, lines = first ++ line :: last →
      read (line.mark.text ++ '\n' :: (texts last ++ rest)) = none) :
    find? read (texts lines ++ rest) = (find? read rest).map (preceded (texts lines)) := by
  induction lines with
  | nil =>
      cases hRest : find? read rest with
      | none => simpa using hRest
      | some cut => simpa using hRest
  | cons line lines ih =>
      have hHere := hNone [] line lines rfl
      have hLater := ih hClean.tail fun first other last hLines =>
        hNone (line :: first) other last (by rw [hLines, List.cons_append])
      rw [texts_cons, List.append_assoc, find?_text hRead line hClean.head hHere, hLater]
      simp [Function.comp_def]

/-- A search goes past lines whose tags the reader refuses, whatever follows them. -/
theorem find?_texts_of_refused (hRead : AngleFirst read) (hClean : Clean lines) (rest : Text)
    (hNone : ∀ line ∈ lines, ∀ more, read (line.mark.text ++ more) = none) :
    find? read (texts lines ++ rest) = (find? read rest).map (preceded (texts lines)) := by
  apply find?_texts hRead hClean rest
  intro first line last hLines
  exact hNone line (by simp [hLines]) _

end Line

/-- A `<` behind text without one stands in what follows. -/
theorem angle_after {free rest before after : Text} (hFree : angleFree free = true)
    (h : free ++ rest = before ++ '<' :: after) :
    ∃ more, before = free ++ more ∧ rest = more ++ '<' :: after := by
  rcases place_beside h.symm with hBehind | ⟨more, rfl, -⟩
  · exact hBehind
  · exact absurd (by simp) (angleFree_iff.mp hFree)

/-- Every `<` among lines starts the tag of one of them. -/
theorem exists_line_of_angle {lines : List Line} (hClean : Line.Clean lines)
    {rest before after : Text} (h : Line.texts lines ++ rest = before ++ '<' :: after) :
    (∃ first line last, lines = first ++ line :: last ∧
        before = Line.texts first ++ spaces line.indent ∧
        '<' :: after = line.mark.text ++ '\n' :: (Line.texts last ++ rest)) ∨
      ∃ more, before = Line.texts lines ++ more ∧ rest = more ++ '<' :: after := by
  induction lines generalizing before with
  | nil => exact .inr ⟨before, by simp, by simpa using h⟩
  | cons line lines ih =>
      rw [Line.texts_cons, List.append_assoc, Line.text_append] at h
      obtain ⟨more, rfl, hTag⟩ := angle_after (angleFree_spaces line.indent) h
      cases more with
      | nil =>
          refine .inl ⟨[], line, lines, rfl, by simp, ?_⟩
          simpa using hTag.symm
      | cons c more =>
          rw [line.mark.text_newline, List.cons_append, List.cons.injEq] at hTag
          obtain ⟨rfl, hInside⟩ := hTag
          obtain ⟨more, rfl, hRest⟩ := angle_after hClean.head.angleFree_inner_newline hInside
          rcases ih hClean.tail hRest with ⟨first, other, last, rfl, rfl, hAfter⟩ | ⟨tail, rfl, hTail⟩
          · refine .inl ⟨line :: first, other, last, rfl, ?_, hAfter⟩
            simp [Line.text, Mark.text]
          · refine .inr ⟨tail, ?_, hTail⟩
            simp [Line.text, Mark.text]

end Page
end Wireframe
