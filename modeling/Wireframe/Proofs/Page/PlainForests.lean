import Wireframe.Proofs.Page.Finding

/-! Plain forests: every tag can be read, and no component lies below one of its own
kind, so that every component is the span from its opening tag to the first closing
tag of its kind. -/
namespace Wireframe

def Forest.Clean (forest : Forest) : Prop :=
  ∀ c ∈ Forest.walk forest, c.props.Clean

def Component.Unrepeated (c : Component) : Prop :=
  ∀ d ∈ Forest.walk c.children, d.kind ≠ c.kind

instance (c : Component) : Decidable c.Unrepeated :=
  inferInstanceAs (Decidable (∀ _ ∈ _, _))

/-- A forest whose page can be read: attributes can be written and read back, objects in their values
are nested at most three deep, and no component lies below one of its own kind. -/
structure Forest.Plain (forest : Forest) : Prop where
  clean : Forest.Clean forest
  shallow : ∀ c ∈ Forest.walk forest, c.props.Shallow
  unnested : ∀ c ∈ Forest.walk forest, ∀ d ∈ Forest.walk c.children, d.kind ≠ c.kind

instance (forest : Forest) : Decidable (Forest.Clean forest) :=
  inferInstanceAs (Decidable (∀ _ ∈ _, _))

instance (forest : Forest) : Decidable (Forest.Plain forest) :=
  decidable_of_iff (Forest.Clean forest ∧ (∀ c ∈ Forest.walk forest, c.props.Shallow) ∧
      ∀ c ∈ Forest.walk forest, ∀ d ∈ Forest.walk c.children, d.kind ≠ c.kind)
    ⟨fun ⟨hClean, hShallow, hUnnested⟩ => ⟨hClean, hShallow, hUnnested⟩,
      fun h => ⟨h.clean, h.shallow, h.unnested⟩⟩

namespace Forest

theorem mem_walk_self (c : Component) (rest : Forest) : c ∈ walk (c :: rest) := by
  simp [walk_cons]

/-- What is below the first root of a forest is in the forest. -/
theorem walk_children_sublist (c : Component) (rest : Forest) :
    ∀ d ∈ walk c.children, d ∈ walk (c :: rest) := by
  intro d hd
  simp [walk_cons, hd]

/-- So is what is in the roots behind it. -/
theorem walk_rest_sublist (c : Component) (rest : Forest) :
    ∀ d ∈ walk rest, d ∈ walk (c :: rest) := by
  intro d hd
  simp [walk_cons, hd]

/-- Forests side by side are walked one after the other. -/
theorem walk_append (first last : Forest) : walk (first ++ last) = walk first ++ walk last := by
  induction first with
  | nil => rfl
  | cons c first ih => simp [walk_cons, ih]

/-- Reading something off every component in turn: the root first, then what is below it, then the
roots behind it. -/
theorem map_walk_cons {α : Type} (label : Component → α) (c : Component) (rest : Forest) :
    (walk (c :: rest)).map label =
      label c :: ((walk c.children).map label ++ (walk rest).map label) := by
  rw [walk_cons, List.map_cons, List.map_append]

theorem map_walk_append {α : Type} (label : Component → α) (first last : Forest) :
    (walk (first ++ last)).map label = (walk first).map label ++ (walk last).map label := by
  rw [walk_append, List.map_append]

/-- The walk goes through the roots one by one. -/
theorem mem_walk_iff {forest : Forest} {d : Component} :
    d ∈ walk forest ↔ ∃ c ∈ forest, d ∈ walk [c] := by
  induction forest with
  | nil => simp
  | cons c rest ih =>
      rw [← List.singleton_append, walk_append, List.mem_append, ih, List.singleton_append,
        List.exists_mem_cons_iff]

/-- What is below a root is in the forest. -/
theorem walk_root {forest : Forest} {c : Component} (h : c ∈ forest) :
    ∀ d ∈ walk [c], d ∈ walk forest :=
  fun _ hd => mem_walk_iff.mpr ⟨c, h, hd⟩

/-- Part of a plain forest is plain. -/
theorem Plain.mono {forest other : Forest} (h : Plain forest)
    (hSub : ∀ c ∈ walk other, c ∈ walk forest) : Plain other where
  clean c hc := h.clean c (hSub c hc)
  shallow c hc := h.shallow c (hSub c hc)
  unnested c hc := h.unnested c (hSub c hc)

theorem Plain.children {c : Component} {rest : Forest} (h : Plain (c :: rest)) :
    Plain c.children :=
  h.mono (walk_children_sublist c rest)

theorem Plain.tail {c : Component} {rest : Forest} (h : Plain (c :: rest)) : Plain rest :=
  h.mono (walk_rest_sublist c rest)

theorem Plain.left {first last : Forest} (h : Plain (first ++ last)) : Plain first :=
  h.mono fun c hc => by
    rw [walk_append]
    exact List.mem_append_left _ hc

theorem Plain.right {first last : Forest} (h : Plain (first ++ last)) : Plain last :=
  h.mono fun c hc => by
    rw [walk_append]
    exact List.mem_append_right _ hc

/-- Whether a forest is plain depends on its roots one by one. -/
theorem plain_iff {forest : Forest} : Plain forest ↔ ∀ c ∈ forest, Plain [c] := by
  constructor
  · exact fun h c hc => h.mono (walk_root hc)
  · intro h
    refine ⟨fun d hd => ?_, fun d hd => ?_, fun d hd => ?_⟩
    all_goals obtain ⟨c, hc, hdc⟩ := mem_walk_iff.mp hd
    · exact (h c hc).clean d hdc
    · exact (h c hc).shallow d hdc
    · exact (h c hc).unnested d hdc

/-- Forests side by side are plain if each is. -/
theorem plain_append {first last : Forest} :
    Plain (first ++ last) ↔ Plain first ∧ Plain last := by
  refine ⟨fun h => ⟨h.left, h.right⟩, fun ⟨hFirst, hLast⟩ => ?_⟩
  rw [plain_iff] at hFirst hLast ⊢
  exact fun c hc => (List.mem_append.mp hc).elim (hFirst c) (hLast c)

/-- Whether a forest is plain can be told root by root. -/
theorem plain_cons {c : Component} {rest : Forest} :
    Plain (c :: rest) ↔ Plain [c] ∧ Plain rest :=
  @plain_append [c] rest

/-- The forest without one of its roots. -/
theorem Plain.without {first last : Forest} {c : Component} (h : Plain (first ++ c :: last)) :
    Plain (first ++ last) :=
  plain_append.mpr ⟨h.left, h.right.tail⟩

theorem Clean.children {c : Component} {rest : Forest} (h : Clean (c :: rest)) :
    Clean c.children :=
  fun d hd => h d (walk_children_sublist c rest d hd)

theorem Clean.root {forest : Forest} (h : Clean forest) {c : Component} (hc : c ∈ forest) :
    Clean [c] :=
  fun d hd => h d (walk_root hc d hd)

theorem Clean.head {c : Component} {rest : Forest} (h : Clean (c :: rest)) : Clean [c] :=
  h.root List.mem_cons_self

theorem Clean.tail {c : Component} {rest : Forest} (h : Clean (c :: rest)) : Clean rest :=
  fun d hd => h d (walk_rest_sublist c rest d hd)

end Forest

namespace Page

open Text

/-- Every line of a forest holds a tag of one of its components. -/
theorem mark_of_mem_lines {forest : Forest} {line : Line} :
    ∀ {indent : Nat}, line ∈ Forest.lines indent forest →
      ∃ c ∈ Forest.walk forest, line.mark = .opening c.kind c.props ∨
        line.mark = .closing c.kind := by
  induction forest using Forest.induction with
  | nil =>
      intro indent hLine
      cases hLine
  | cons c rest hChildren hRest =>
      intro indent hLine
      rw [Forest.lines_cons, c.lines_eq] at hLine
      simp only [List.mem_append, List.mem_cons, List.not_mem_nil, or_false] at hLine
      rcases hLine with (rfl | hLine | rfl) | hLine
      · exact ⟨c, Forest.mem_walk_self c rest, .inl rfl⟩
      · obtain ⟨d, hd, hMark⟩ := hChildren hLine
        exact ⟨d, Forest.walk_children_sublist c rest d hd, hMark⟩
      · exact ⟨c, Forest.mem_walk_self c rest, .inr rfl⟩
      · obtain ⟨d, hd, hMark⟩ := hRest hLine
        exact ⟨d, Forest.walk_rest_sublist c rest d hd, hMark⟩

/-- Components whose props can be written have lines that can be read. -/
theorem clean_lines {forest : Forest} (h : Forest.Clean forest) (indent : Nat) :
    Line.Clean (Forest.lines indent forest) := by
  intro line hLine
  obtain ⟨c, hc, hMark⟩ := mark_of_mem_lines hLine
  rcases hMark with hMark | hMark
  · rw [hMark]
    exact h c hc
  · rw [hMark]
    trivial

def spanOf (indent : Nat) (c : Component) : Span :=
  ⟨indent, c.kind, c.props, Forest.lines (indent + 2) c.children, indent⟩

/-- The lines of a component are a span. -/
theorem lines_spanOf (indent : Nat) (c : Component) : (spanOf indent c).lines = c.lines indent := by
  rw [c.lines_eq]
  rfl

/-- The lines of a forest around those of one of its roots. -/
theorem lines_root (indent : Nat) (first last : Forest) (c : Component) :
    Forest.lines indent (first ++ c :: last) =
      Forest.lines indent first ++ ((spanOf indent c).lines ++ Forest.lines indent last) := by
  rw [Forest.lines_append, Forest.lines_cons, lines_spanOf]

/-- A component with none of its own kind below it is read up to its own closing tag. -/
theorem legible_of_unrepeated {c : Component} {rest : Forest} (hClean : Forest.Clean (c :: rest))
    (hShallow : c.props.Shallow) (h : c.Unrepeated) (indent : Nat) :
    (spanOf indent c).Legible where
  clean := Span.clean_lines.mpr
    ⟨hClean c (Forest.mem_walk_self c rest), clean_lines hClean.children _⟩
  shallow := hShallow
  unclosed line hLine hMark := by
    obtain ⟨d, hd, hMarks⟩ := mark_of_mem_lines hLine
    have hKind := h d hd
    rcases hMarks with hOpening | hClosing
    · rw [hOpening] at hMark
      cases hMark
    · rw [hClosing, Mark.closing.injEq] at hMark
      exact hKind hMark

/-- In a plain forest every root is read as the span from its opening tag to its own closing tag. -/
theorem legible_spanOf {c : Component} {rest : Forest} (h : Forest.Plain (c :: rest))
    (indent : Nat) : (spanOf indent c).Legible :=
  legible_of_unrepeated h.clean (h.shallow c (Forest.mem_walk_self c rest))
    (h.unnested c (Forest.mem_walk_self c rest)) indent

def sampleFrame : Frame := ⟨"GeneratedUI", "./components"⟩

/-- A plan whose values hold quotes, line breaks, `>`, nested objects and both kinds of numbers. -/
def samplePlan : Plan where
  layout := "dashboard"
  components :=
    [⟨.card, [("title", .text "a > b"), ("open", .boolean true), ("hidden", .boolean false)],
      [⟨.modal, [("title", .text "say \"no\"\n"), ("size", .integer 2)],
        [⟨.input, [("data-min", .real (.zero true)),
            ("options", .object [("a", .object [("b", .list [.object [], .null])])])], [], none⟩],
        none⟩,
        ⟨.modal, [], [], none⟩], none⟩,
      ⟨.card, [("title", .text "")], [], none⟩]
  modifications := []

end Page
end Wireframe
