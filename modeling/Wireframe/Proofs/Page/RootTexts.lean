import Wireframe.Proofs.Page.Locating

/-! Roots by their texts. A page depends on the texts of its roots alone, and an operation on a
recovered root edits the first root that has its text. -/
namespace Wireframe
namespace Page

open Text

/-- The text of a component as a root, from its opening tag to its closing tag. -/
def rootText (c : Component) : Text :=
  (spanOf 6 c).text

/-- A page is its root texts, each on the root column and ended by a line break. -/
theorem texts_lines (forest : Forest) :
    Line.texts (Forest.lines 6 forest) =
      (forest.map rootText).flatMap fun text => spaces 6 ++ text ++ ['\n'] := by
  induction forest with
  | nil => rfl
  | cons c rest ih =>
      rw [Forest.lines_cons, Line.texts_append, ih, ← lines_spanOf, Span.texts_lines]
      rfl

/-- A page depends on the texts of its roots alone. -/
theorem page_eq_of_texts {forest other : Forest} (h : forest.map rootText = other.map rootText)
    (frame : Frame) :
    page frame (Forest.lines 6 forest) = page frame (Forest.lines 6 other) := by
  rw [page, page, texts_lines, texts_lines, h]

/-- Two roots have the same text if they are of one kind, show the same props, and hold children of
the same text. -/
theorem rootText_eq {c d : Component} (hKind : c.kind = d.kind)
    (hVisible : Diff.visible c.props = Diff.visible d.props)
    (hInner : Line.texts (Forest.lines 8 c.children) = Line.texts (Forest.lines 8 d.children)) :
    rootText c = rootText d := by
  simp only [rootText, Span.text, spanOf, openingTag, attributes_eq, hKind, hVisible, hInner]

section

variable {c d : Component} (hc : Forest.Plain [c]) (hd : Forest.Plain [d])
  (hText : rootText d = rootText c)
include hc hText

/-- Roots of one text are of one kind, since the tag name is read off it. -/
theorem kind_eq_of_rootText_eq : d.kind = c.kind :=
  Span.kind_eq_of_text_eq (legible_spanOf hc 6) hText

include hd

/-- Roots of one text show the same props. -/
theorem visible_eq_of_rootText_eq : Diff.visible d.props = Diff.visible c.props :=
  Span.visible_eq_of_text_eq (legible_spanOf hc 6) (legible_spanOf hd 6) hText

/-- Roots of one text enclose the same lines. -/
theorem inner_eq_of_rootText_eq :
    Line.texts (Forest.lines 8 d.children) = Line.texts (Forest.lines 8 c.children) := by
  have hKind := kind_eq_of_rootText_eq hc hText
  have hVisible := visible_eq_of_rootText_eq hc hd hText
  simpa [rootText, Span.text, spanOf, openingTag, attributes_eq, hKind, hVisible] using hText

end

/-- Roots that no text confuses have different texts. -/
theorem rootText_ne_of_apart {c d : Component} (hc : Forest.Plain [c]) (hd : Forest.Plain [d])
    (h : Diff.Apart d c) : rootText d ≠ rootText c :=
  fun hText => h.not_alike (alike_of_text_eq hc hd hText)

/-- The first root of a given text, with nothing before it that has this text. -/
theorem exists_first_root {forest : Forest} {text : Text} (h : text ∈ forest.map rootText) :
    ∃ first d last, forest = first ++ d :: last ∧ rootText d = text ∧
      ∀ e ∈ first, rootText e ≠ text :=
  exists_first (List.mem_map.mp h)

/-- Roots with the texts of other roots are those, up to their order, as far as a page shows. -/
theorem exists_perm_of_texts {roots wanted : Forest}
    (h : (roots.map rootText).Perm (wanted.map rootText)) :
    ∃ order : Forest, order.Perm wanted ∧ roots.map rootText = order.map rootText := by
  have hTexts : List.Forall₂ (fun text c => text = rootText c) (wanted.map rootText) wanted := by
    rw [List.forall₂_map_left_iff, List.forall₂_same]
    exact fun _ _ => rfl
  obtain ⟨order, hOrder, hPerm⟩ := List.perm_comp_forall₂ h hTexts
  rw [← List.forall₂_map_right_iff, List.forall₂_eq_eq_eq] at hOrder
  exact ⟨order, hPerm, hOrder⟩

section

variable {frame : Frame} (hFrame : frame.AngleFree) {first last : Forest} {c d : Component}
  (hPlain : Forest.Plain (first ++ d :: last)) (hText : rootText d = rootText c)
  (hFirst : ∀ e ∈ first, rootText e ≠ rootText c)
include hFrame hPlain hText hFirst

/-- Deleting a root cuts out its lines, also where other roots of the same text follow. -/
theorem delete_root :
    delete (page frame (Forest.lines 6 (first ++ d :: last))) (c.recorded rootIndent) =
      page frame (Forest.lines 6 (first ++ last)) := by
  have hLocate := locate?_recorded hFrame hPlain hText hFirst
  rw [lines_root] at hLocate
  rw [lines_root, delete_page hLocate, Forest.lines_append]

/-- Changing the props of a root rewrites its opening tag in place. -/
theorem updateProps_root (changes : List Change) :
    updateProps (page frame (Forest.lines 6 (first ++ d :: last))) (c.recorded rootIndent) changes =
      page frame (Forest.lines 6 (first ++ d.changeProps changes :: last)) := by
  have hLocate := locate?_recorded hFrame hPlain hText hFirst
  rw [lines_root] at hLocate
  rw [lines_root, updateProps_page hLocate (legible_spanOf hPlain.right 6), lines_root]
  rfl

/-- New children replace the lines between the tags of the root. -/
theorem updateChildren_root (hKind : d.kind = c.kind) (children : Forest) :
    updateChildren (page frame (Forest.lines 6 (first ++ d :: last))) (c.recorded rootIndent)
        children =
      page frame (Forest.lines 6 (first ++ d.withChildren children :: last)) := by
  have hLocate := locate?_recorded hFrame hPlain hText hFirst
  have hTarget : (c.recorded rootIndent).kind = d.kind := by rw [recorded_eq, hKind]
  rw [lines_root] at hLocate
  rw [lines_root, updateChildren_page hLocate (legible_spanOf hPlain.right 6) hTarget, lines_root]
  rfl

end

end Page
end Wireframe
