import Wireframe.Proofs.Page.PlainForests
import Wireframe.Proofs.Page.LineEdits

/-! Operations as edits of forests, and where an edited forest differs in its lines. An
edit of the first component of a kind replaces the lines of that component alone. -/
namespace Wireframe

namespace Forest

def insertAfterRoot? (kind : Kind) (new : Component) : List Component → Option (List Component)
  | [] => none
  | c :: rest =>
    if c.kind = kind then some (c :: new :: rest)
    else (insertAfterRoot? kind new rest).map fun rest => c :: rest

/-- Adds a root at a position. Without a navbar among the roots, what should follow it comes
first. -/
def addRootAt (new : Component) : Position → Forest → Forest
  | .start, forest => new :: forest
  | .afterNavbar, forest => (insertAfterRoot? .navbar new forest).getD (new :: forest)
  | .finish, forest => forest ++ [new]

/-- The first component of a kind, if there is one at all, is a root. -/
def firstIsRoot (kind : Kind) : List Component → Bool
  | [] => true
  | c :: rest => c.kind == kind || (!hasKind kind c.children && firstIsRoot kind rest)

end Forest

namespace Component

def changeProps (changes : List Change) (c : Component) : Component :=
  { c with props := changes.foldl Change.applyTo (Diff.visible c.props) }

def withChildren (children : Forest) (c : Component) : Component :=
  { c with children := children }

end Component

namespace Operation

def target? : Operation → Option Component
  | .add _ _ => none
  | .move target _ => some target
  | .remove target => some target
  | .updateProps target _ => some target
  | .updateChildren target _ => some target
  | .replace target _ => some target

/-- The edit of a forest that an operation stands for. Its target is the first component of a
kind. -/
def edit (forest : Forest) : Operation → Forest
  | .add new position => forest.addRootAt new position
  | .remove target => (Forest.dropFirst? target.kind forest).getD forest
  | .updateProps target changes =>
    (Forest.updateFirst? target.kind (Component.changeProps changes) forest).getD forest
  | .updateChildren target children =>
    (Forest.updateFirst? target.kind (Component.withChildren children) forest).getD forest
  | .move target position =>
    match Forest.dropFirst? target.kind forest with
    | some rest => Forest.addRootAt target position rest
    | none => forest
  | .replace target replacement =>
    (Forest.updateFirst? target.kind (fun _ => replacement) forest).getD forest

end Operation

namespace Forest

theorem hasKind_nil (kind : Kind) : hasKind kind [] = false := rfl

theorem hasKind_cons (kind : Kind) (c : Component) (rest : Forest) :
    hasKind kind (c :: rest) = (c.kind == kind || (hasKind kind c.children || hasKind kind rest)) := by
  rw [hasKind, walk_cons, List.any_cons, List.any_append]
  rfl

theorem hasKind_append (kind : Kind) (first last : Forest) :
    hasKind kind (first ++ last) = (hasKind kind first || hasKind kind last) := by
  rw [hasKind, walk_append, List.any_append]
  rfl

/-- A kind the forest does not have is no component's kind. -/
theorem kind_ne_of_hasKind {kind : Kind} {forest : Forest} (h : hasKind kind forest = false) :
    ∀ c ∈ walk forest, c.kind ≠ kind := by
  intro c hc
  simpa using List.any_eq_false.mp h c hc

/-- Induction along the search for the first component of a kind. It is the first root, or it lies below
the first root, or it comes later because neither the first root nor anything below it is of the kind. -/
theorem induction_first {kind : Kind}
    {motive : (forest : Forest) → hasKind kind forest = true → Prop}
    (here : ∀ c rest h, c.kind = kind → motive (c :: rest) h)
    (below : ∀ c rest h, c.kind ≠ kind → ∀ hBelow : hasKind kind c.children = true,
      motive c.children hBelow → motive (c :: rest) h)
    (later : ∀ c rest h, c.kind ≠ kind → hasKind kind c.children = false →
      ∀ hLater : hasKind kind rest = true, motive rest hLater → motive (c :: rest) h)
    (forest : Forest) (h : hasKind kind forest = true) : motive forest h := by
  induction forest using Forest.induction with
  | nil => cases h
  | cons c rest hChildren hRest =>
      by_cases hHere : c.kind = kind
      · exact here c rest h hHere
      · cases hBelow : hasKind kind c.children with
        | true => exact below c rest h hHere hBelow (hChildren hBelow)
        | false =>
            have hLater : hasKind kind rest = true := by
              simpa [hasKind_cons, hBelow, hHere] using h
            exact later c rest h hHere hBelow hLater (hRest hLater)

/-- Pre-order: the root itself, then what is below it, then the roots behind it. -/
theorem dropFirst?_cons (kind : Kind) (c : Component) (rest : Forest) :
    dropFirst? kind (c :: rest) =
      if c.kind = kind then some rest
      else
        match dropFirst? kind c.children with
        | some children => some (c.withChildren children :: rest)
        | none => (dropFirst? kind rest).map fun rest => c :: rest := by
  obtain ⟨k, props, children, source⟩ := c
  rw [dropFirst?, Component.dropFirst?]
  cases dropFirst? kind children <;> rfl

/-- The same order as for a deletion, so both edits meet the same component. -/
theorem updateFirst?_cons (kind : Kind) (change : Component → Component) (c : Component)
    (rest : Forest) :
    updateFirst? kind change (c :: rest) =
      if c.kind = kind then some (change c :: rest)
      else
        match updateFirst? kind change c.children with
        | some children => some (c.withChildren children :: rest)
        | none => (updateFirst? kind change rest).map fun rest => c :: rest := by
  obtain ⟨k, props, children, source⟩ := c
  rw [updateFirst?, Component.updateFirst?]
  cases updateFirst? kind change children <;> rfl

/-- A component of the kind goes with all that is below it, and counts once; any other keeps its place,
and what is removed below it counts. -/
theorem dropAll_cons (kind : Kind) (c : Component) (rest : Forest) :
    dropAll kind (c :: rest) =
      if c.kind = kind then ((dropAll kind rest).1, (dropAll kind rest).2 + 1)
      else (c.withChildren (dropAll kind c.children).1 :: (dropAll kind rest).1,
        (dropAll kind c.children).2 + (dropAll kind rest).2) := by
  obtain ⟨k, props, children, source⟩ := c
  rfl

theorem setAll_cons (kind : Kind) (key : String) (value : Value) (c : Component) (rest : Forest) :
    setAll kind key value (c :: rest) =
      { c with
        props := if c.kind = kind then c.props.set key value else c.props
        children := setAll kind key value c.children } :: setAll kind key value rest := by
  cases c
  rfl

/-- Without a component of the kind there is nothing to edit. -/
theorem edits_of_not_hasKind {kind : Kind} (change : Component → Component) {forest : Forest} :
    hasKind kind forest = false →
      dropFirst? kind forest = none ∧ updateFirst? kind change forest = none := by
  induction forest using Forest.induction with
  | nil => exact fun _ => ⟨rfl, rfl⟩
  | cons c rest hChildren hRest =>
      intro h
      simp only [hasKind_cons, Bool.or_eq_false_iff, beq_eq_false_iff_ne] at h
      obtain ⟨hKind, hBelow, hLater⟩ := h
      obtain ⟨hDropChildren, hUpdateChildren⟩ := hChildren hBelow
      obtain ⟨hDropRest, hUpdateRest⟩ := hRest hLater
      rw [dropFirst?_cons, updateFirst?_cons, if_neg hKind, if_neg hKind, hDropChildren,
        hUpdateChildren, hDropRest, hUpdateRest]
      exact ⟨rfl, rfl⟩

/-- What is left after a removal was there before, at most with fewer components below it. -/
theorem walk_of_dropFirst? {kind : Kind} {forest : Forest} :
    ∀ {edited : Forest}, dropFirst? kind forest = some edited →
      ∀ c ∈ walk edited, ∃ d ∈ walk forest, c.kind = d.kind ∧ c.props = d.props ∧
        ∀ e ∈ walk c.children, ∃ f ∈ walk d.children, e.kind = f.kind := by
  induction forest using Forest.induction with
  | nil =>
      intro edited hDrop
      cases hDrop
  | cons c rest hChildren hRest =>
      intro edited hDrop d hd
      rw [dropFirst?_cons] at hDrop
      have hLater (e : Component) (he : e ∈ walk rest) :
          ∃ f ∈ walk (c :: rest), e.kind = f.kind ∧ e.props = f.props ∧
            ∀ g ∈ walk e.children, ∃ k ∈ walk f.children, g.kind = k.kind :=
        ⟨e, walk_rest_sublist c rest e he, rfl, rfl, fun g hg => ⟨g, hg, rfl⟩⟩
      split at hDrop
      · cases hDrop
        exact hLater d hd
      · split at hDrop
        · rename_i children hBelow
          cases hDrop
          rw [walk_cons, List.mem_cons, List.mem_append] at hd
          rcases hd with rfl | hd | hd
          · refine ⟨c, mem_walk_self c rest, rfl, rfl, fun e he => ?_⟩
            obtain ⟨f, hf, hKind, -⟩ := hChildren hBelow e he
            exact ⟨f, hf, hKind⟩
          · obtain ⟨f, hf, hSame⟩ := hChildren hBelow d hd
            exact ⟨f, walk_children_sublist c rest f hf, hSame⟩
          · exact hLater d hd
        · simp only [Option.map_eq_some_iff] at hDrop
          obtain ⟨others, hOthers, rfl⟩ := hDrop
          rw [walk_cons, List.mem_cons, List.mem_append] at hd
          rcases hd with rfl | hd | hd
          · exact ⟨d, mem_walk_self d rest, rfl, rfl, fun e he => ⟨e, he, rfl⟩⟩
          · exact ⟨d, walk_children_sublist c rest d hd, rfl, rfl, fun e he => ⟨e, he, rfl⟩⟩
          · obtain ⟨f, hf, hSame⟩ := hRest hOthers d hd
            exact ⟨f, walk_rest_sublist c rest f hf, hSame⟩

/-- A deletion leaves a plain forest plain. -/
theorem Plain.dropFirst? {kind : Kind} {forest edited : Forest} (h : Plain forest)
    (hDrop : Forest.dropFirst? kind forest = some edited) : Plain edited where
  clean c hc := by
    obtain ⟨d, hd, -, hProps, -⟩ := walk_of_dropFirst? hDrop c hc
    exact hProps ▸ h.clean d hd
  shallow c hc := by
    obtain ⟨d, hd, -, hProps, -⟩ := walk_of_dropFirst? hDrop c hc
    exact hProps ▸ h.shallow d hd
  unnested c hc e he := by
    obtain ⟨d, hd, hKind, -, hBelow⟩ := walk_of_dropFirst? hDrop c hc
    obtain ⟨f, hf, hSame⟩ := hBelow e he
    rw [hKind, hSame]
    exact h.unnested d hd f hf

/-- If the first component of a kind is a root, a new root goes right behind it. -/
theorem insertAfterRoot?_cases {kind : Kind} (new : Component) {forest : Forest}
    (h : firstIsRoot kind forest = true) :
    (∃ before c after, forest = before ++ c :: after ∧ hasKind kind before = false ∧
        c.kind = kind ∧ insertAfterRoot? kind new forest = some (before ++ c :: new :: after)) ∨
      hasKind kind forest = false ∧ insertAfterRoot? kind new forest = none := by
  induction forest with
  | nil => exact .inr ⟨rfl, rfl⟩
  | cons c rest ih =>
      by_cases hKind : c.kind = kind
      · exact .inl ⟨[], c, rest, rfl, rfl, hKind, by rw [insertAfterRoot?, if_pos hKind]; rfl⟩
      · simp only [firstIsRoot, Bool.or_eq_true, beq_iff_eq, hKind, false_or, Bool.and_eq_true,
          Bool.not_eq_true'] at h
        obtain ⟨hBelow, hRest⟩ := h
        rcases ih hRest with ⟨before, d, after, rfl, hBefore, hd, hInsert⟩ | ⟨hNone, hInsert⟩
        · refine .inl ⟨c :: before, d, after, rfl, ?_, hd, ?_⟩
          · simp [hasKind_cons, hKind, hBelow, hBefore]
          · rw [insertAfterRoot?, if_neg hKind, hInsert]
            rfl
        · refine .inr ⟨?_, ?_⟩
          · simp [hasKind_cons, hKind, hBelow, hNone]
          · rw [insertAfterRoot?, if_neg hKind, hInsert]
            rfl

end Forest

namespace Page

/-- A kind the forest does not have is opened on none of its lines. -/
theorem not_opening_of_not_hasKind {kind : Kind} {forest : Forest}
    (h : Forest.hasKind kind forest = false) (indent : Nat) :
    ∀ line ∈ Forest.lines indent forest, ∀ props, line.mark ≠ .opening kind props := by
  intro line hLine props hMark
  obtain ⟨c, hc, hMarks⟩ := mark_of_mem_lines hLine
  have hKind := Forest.kind_ne_of_hasKind h c hc
  rcases hMarks with hOpening | hClosing
  · rw [hOpening, Mark.opening.injEq] at hMark
    exact hKind hMark.1
  · rw [hClosing] at hMark
    cases hMark

theorem lines_withChildren (indent : Nat) (children : Forest) (c : Component) :
    (c.withChildren children).lines indent = ⟨indent, .opening c.kind c.props⟩ ::
      (Forest.lines (indent + 2) children ++ [⟨indent, .closing c.kind⟩]) :=
  Component.lines_eq indent _

/-- The lines of a forest around the first component of a kind, and those of the forest after an
edit of that component. -/
structure FirstOf (kind : Kind) (indent : Nat) (forest : Forest) where
  first : List Line
  component : Component
  column : Nat
  last : List Line
  kind_eq : component.kind = kind
  legible : (spanOf column component).Legible
  lines_eq : Forest.lines indent forest = first ++ (component.lines column ++ last)
  not_opening : ∀ line ∈ first, ∀ props, line.mark ≠ .opening kind props
  drop : ∃ edited, Forest.dropFirst? kind forest = some edited ∧
    Forest.lines indent edited = first ++ last
  update : ∀ change, ∃ edited, Forest.updateFirst? kind change forest = some edited ∧
    Forest.lines indent edited = first ++ ((change component).lines column ++ last)

/-- The first root of a plain forest is the first of its kind, and the next closing tag of the kind
is its own. -/
theorem FirstOf.here {c : Component} {rest : Forest} (h : Forest.Plain (c :: rest))
    (indent : Nat) : Nonempty (FirstOf c.kind indent (c :: rest)) := by
  refine ⟨⟨[], c, indent, Forest.lines indent rest, rfl, legible_spanOf h indent, rfl, by simp,
    ⟨rest, ?_, rfl⟩, fun change => ⟨change c :: rest, ?_, rfl⟩⟩⟩
  · rw [Forest.dropFirst?_cons, if_pos rfl]
  · rw [Forest.updateFirst?_cons, if_pos rfl]

/-- The first of a kind among the children is the first of the forest, if the parent is of another
kind. -/
theorem FirstOf.below {kind : Kind} {indent : Nat} {c : Component} {rest : Forest}
    (hKind : c.kind ≠ kind) (found : FirstOf kind (indent + 2) c.children) :
    Nonempty (FirstOf kind indent (c :: rest)) := by
  refine ⟨⟨⟨indent, .opening c.kind c.props⟩ :: found.first, found.component, found.column,
    found.last ++ (⟨indent, .closing c.kind⟩ :: Forest.lines indent rest), found.kind_eq,
    found.legible, ?_, ?_, ?_, ?_⟩⟩
  · rw [Forest.lines_cons, c.lines_eq, found.lines_eq]
    simp
  · intro line hLine props hMark
    rcases List.mem_cons.mp hLine with rfl | hLine
    · rw [Mark.opening.injEq] at hMark
      exact hKind hMark.1
    · exact found.not_opening line hLine props hMark
  · obtain ⟨edited, hDrop, hLines⟩ := found.drop
    refine ⟨c.withChildren edited :: rest, ?_, ?_⟩
    · rw [Forest.dropFirst?_cons, if_neg hKind, hDrop]
    · rw [Forest.lines_cons, lines_withChildren, hLines]
      simp
  · intro change
    obtain ⟨edited, hUpdate, hLines⟩ := found.update change
    refine ⟨c.withChildren edited :: rest, ?_, ?_⟩
    · rw [Forest.updateFirst?_cons, if_neg hKind, hUpdate]
    · rw [Forest.lines_cons, lines_withChildren, hLines]
      simp

/-- The first of a kind among the later roots is the first of the forest, if the kind is not met
before. -/
theorem FirstOf.later {kind : Kind} {indent : Nat} {c : Component} {rest : Forest}
    (hKind : c.kind ≠ kind) (hBelow : Forest.hasKind kind c.children = false)
    (found : FirstOf kind indent rest) : Nonempty (FirstOf kind indent (c :: rest)) := by
  have hNone (change : Component → Component) := Forest.edits_of_not_hasKind change hBelow
  refine ⟨⟨c.lines indent ++ found.first, found.component, found.column, found.last,
    found.kind_eq, found.legible, ?_, ?_, ?_, ?_⟩⟩
  · rw [Forest.lines_cons, found.lines_eq, List.append_assoc]
  · intro line hLine props hMark
    rcases List.mem_append.mp hLine with hLine | hLine
    · have hSingle : Forest.hasKind kind [c] = false := by
        simp [Forest.hasKind_cons, Forest.hasKind_nil, hKind, hBelow]
      have hLines : Forest.lines indent [c] = c.lines indent := List.append_nil _
      exact not_opening_of_not_hasKind hSingle indent line (hLines ▸ hLine) props hMark
    · exact found.not_opening line hLine props hMark
  · obtain ⟨edited, hDrop, hLines⟩ := found.drop
    refine ⟨c :: edited, ?_, ?_⟩
    · rw [Forest.dropFirst?_cons, if_neg hKind, (hNone id).1, hDrop]
      rfl
    · rw [Forest.lines_cons, hLines, List.append_assoc]
  · intro change
    obtain ⟨edited, hUpdate, hLines⟩ := found.update change
    refine ⟨c :: edited, ?_, ?_⟩
    · rw [Forest.updateFirst?_cons, if_neg hKind, (hNone change).2, hUpdate]
      rfl
    · rw [Forest.lines_cons, hLines, List.append_assoc]

/-- In a plain forest the first component of a kind is a span of lines, and edits of it change these
lines only. -/
theorem exists_firstOf {kind : Kind} {forest : Forest} (hPlain : Forest.Plain forest)
    (hKind : Forest.hasKind kind forest = true) :
    ∀ indent, Nonempty (FirstOf kind indent forest) := by
  induction forest, hKind using Forest.induction_first with
  | here c rest _ hHere =>
      subst hHere
      exact FirstOf.here hPlain
  | below c rest _ hHere _ ih =>
      intro indent
      obtain ⟨found⟩ := ih hPlain.children (indent + 2)
      exact found.below hHere
  | later c rest _ hHere hBelow _ ih =>
      intro indent
      obtain ⟨found⟩ := ih hPlain.tail indent
      exact found.later hHere hBelow

end Page

end Wireframe
