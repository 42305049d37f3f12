import Wireframe.Proofs.Page.TreeEdits

/-! Where the components of a forest stand. A place is a component together with those above it, and
the places of a forest come in the order of the walk. How deep each component stands says how the
components are nested, so that a row of depths and labels fits one nesting only. -/
namespace Wireframe

/-- A component together with those above it, the root first. -/
structure Place where
  above : List Component
  component : Component

namespace Place

def depth (place : Place) : Nat :=
  place.above.length

def under (c : Component) (place : Place) : Place :=
  ⟨c :: place.above, place.component⟩

@[simp] theorem depth_under (c : Component) (place : Place) :
    (place.under c).depth = place.depth + 1 := rfl

@[simp] theorem component_under (c : Component) (place : Place) :
    (place.under c).component = place.component := rfl

end Place

mutual

def Component.places : Component → List Place
  | ⟨kind, props, children, source⟩ =>
    ⟨[], ⟨kind, props, children, source⟩⟩ ::
      (Forest.places children).map (Place.under ⟨kind, props, children, source⟩)
termination_by structural c => c

/-- The places of a forest, each before those below it. -/
def Forest.places : List Component → List Place
  | [] => []
  | c :: rest => c.places ++ Forest.places rest
termination_by structural forest => forest

end

namespace Forest

@[simp] theorem places_nil : places [] = [] := rfl

/-- The places of a forest follow its walk, and everything below a root has that root above it. -/
theorem places_cons (c : Component) (rest : Forest) :
    places (c :: rest) = ⟨[], c⟩ :: ((places c.children).map (Place.under c) ++ places rest) := by
  cases c
  rfl

/-- The places are those of the components of the walk. -/
theorem map_component_places (forest : Forest) :
    (places forest).map Place.component = walk forest := by
  induction forest using Forest.induction with
  | nil => rfl
  | cons c rest hChildren hRest =>
      have hUnder : Place.component ∘ Place.under c = Place.component := rfl
      rw [places_cons, walk_cons, List.map_cons, List.map_append, List.map_map, hUnder, hChildren,
        hRest]

section

variable {α : Type} {label : Component → α}

/-- Two forests have the same labels in the same nesting and order. -/
inductive SameNesting (label : Component → α) : Forest → Forest → Prop
  | nil : SameNesting label [] []
  | cons {c d : Component} {rest others : Forest} :
      label c = label d → SameNesting label c.children d.children →
        SameNesting label rest others → SameNesting label (c :: rest) (d :: others)

/-- A coarser label forgets no nesting. -/
theorem SameNesting.imp {β : Type} {other : Component → β} {forest roots : Forest}
    (h : SameNesting label forest roots) (hLabel : ∀ c d, label c = label d → other c = other d) :
    SameNesting other forest roots := by
  induction h with
  | nil => exact .nil
  | cons hSame _ _ ihChildren ihRest => exact .cons (hLabel _ _ hSame) ihChildren ihRest

/-- The depth and the label of each component, in the order of the walk. -/
def outline (label : Component → α) (forest : Forest) : List (Nat × α) :=
  (places forest).map fun place => (place.depth, label place.component)

def deeper (entry : Nat × α) : Nat × α :=
  (entry.1 + 1, entry.2)

/-- Going one level down loses nothing of an entry, so that outlines can be compared level by level. -/
theorem deeper_injective : Function.Injective (deeper : Nat × α → Nat × α) := by
  rintro ⟨m, a⟩ ⟨n, b⟩ h
  simpa [deeper] using h

/-- An outline starts at depth zero with every root. This is how it shows where a tree ends and the
next one begins. -/
theorem outline_cons (c : Component) (rest : Forest) :
    outline label (c :: rest) =
      (0, label c) :: ((outline label c.children).map deeper ++ outline label rest) := by
  rw [outline, places_cons, List.map_cons, List.map_append, List.map_map, outline, List.map_map]
  rfl

/-- What lies below the first root of a forest ends where an entry of depth zero comes. -/
theorem takeWhile_outline (inside : List (Nat × α)) (rest : Forest) :
    (inside.map deeper ++ outline label rest).takeWhile (fun entry => entry.1 ≠ 0) =
      inside.map deeper := by
  have hInside : ∀ entry ∈ inside.map deeper, decide (entry.1 ≠ 0) = true := by
    intro entry hEntry
    obtain ⟨shallower, -, rfl⟩ := List.mem_map.mp hEntry
    simp [deeper]
  rw [List.takeWhile_append_of_pos hInside]
  cases rest with
  | nil => exact List.append_nil _
  | cons d others => rw [outline_cons, List.takeWhile_cons_of_neg (by simp), List.append_nil]

/-- An outline fits one nesting only. -/
theorem sameNesting_iff {forest other : Forest} :
    SameNesting label forest other ↔ outline label forest = outline label other := by
  refine ⟨fun h => ?_, fun h => ?_⟩
  · induction h with
    | nil => rfl
    | cons hLabel _ _ ihChildren ihRest =>
        rw [outline_cons, outline_cons, hLabel, ihChildren, ihRest]
  · induction forest using Forest.induction generalizing other with
    | nil =>
        cases other with
        | nil => exact .nil
        | cons d others =>
            rw [outline_cons] at h
            cases h
    | cons c rest hChildren hRest =>
        cases other with
        | nil =>
            rw [outline_cons] at h
            cases h
        | cons d others =>
            rw [outline_cons, outline_cons, List.cons.injEq, Prod.mk.injEq] at h
            obtain ⟨⟨-, hLabel⟩, hTail⟩ := h
            -- The part of the outline that is deeper than the root belongs to its children.
            have hInside : (outline label c.children).map deeper =
                (outline label d.children).map deeper := by
              rw [← takeWhile_outline (outline label c.children) rest, hTail, takeWhile_outline]
            rw [hInside] at hTail
            exact .cons hLabel (hChildren (deeper_injective.list_map hInside))
              (hRest (List.append_cancel_left hTail))

end

end Forest
end Wireframe
