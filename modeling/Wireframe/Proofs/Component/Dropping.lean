import Wireframe.Proofs.Component.Places
import Wireframe.Proofs.Component.Pruning
import Wireframe.Proofs.Plan.Untouched

/-! Removing every component of a kind. What is left is known by its places: they are those that have
no component of the kind at them or above them, and they fit one forest only. -/
namespace Wireframe

def Component.alone (c : Component) : Component :=
  c.withChildren []

namespace Place

/-- The place with each of its components by itself. -/
def alone (place : Place) : Place :=
  ⟨place.above.map Component.alone, place.component.alone⟩

def isUncovered (kind : Kind) (place : Place) : Bool :=
  place.above.all fun c => c.kind ≠ kind

def isClear (kind : Kind) (place : Place) : Bool :=
  place.component.kind ≠ kind && place.isUncovered kind

/-- The component at the place is of the kind, and none above it is. -/
def isTopmost (kind : Kind) (place : Place) : Bool :=
  place.component.kind = kind && place.isUncovered kind

/-- A place below another root is clear of a kind if that root is not of the kind either. -/
theorem isClear_under (kind : Kind) (c : Component) (place : Place) :
    (place.under c).isClear kind = (decide (c.kind ≠ kind) && place.isClear kind) := by
  rw [isClear, isUncovered, under, List.all_cons, Bool.and_left_comm]
  rfl

/-- A component below one of its own kind is not topmost, and so goes with that one uncounted. -/
theorem isTopmost_under (kind : Kind) (c : Component) (place : Place) :
    (place.under c).isTopmost kind = (decide (c.kind ≠ kind) && place.isTopmost kind) := by
  rw [isTopmost, isUncovered, under, List.all_cons, Bool.and_left_comm]
  rfl

end Place

namespace Forest

variable {kind : Kind} {forest other : Forest}

/-- A choice of places that takes none below a component of the kind is made root by root. -/
theorem filter_places_cons {chosen : Place → Bool}
    (h : ∀ c place, chosen (place.under c) = (decide (c.kind ≠ kind) && chosen place))
    (c : Component) (rest : Forest) :
    (places (c :: rest)).filter chosen = [⟨[], c⟩].filter chosen ++
      ((if c.kind = kind then [] else ((places c.children).filter chosen).map (Place.under c)) ++
        (places rest).filter chosen) := by
  have hUnder : chosen ∘ Place.under c = fun place => decide (c.kind ≠ kind) && chosen place :=
    funext (h c)
  rw [places_cons, ← List.singleton_append, List.filter_append, List.filter_append, List.filter_map,
    hUnder]
  by_cases hKind : c.kind = kind <;> simp [hKind]

/-- A forest is known by its places, even with each component by itself. -/
theorem eq_of_map_alone (h : (places forest).map Place.alone = (places other).map Place.alone) :
    forest = other := by
  have hOutline (roots : Forest) : outline Component.alone roots =
      ((places roots).map Place.alone).map fun place => (place.depth, place.component) := by
    simp [outline, Place.alone, Place.depth, Function.comp_def]
  have hNesting : SameNesting Component.alone forest other := by
    rw [sameNesting_iff, hOutline, hOutline, h]
  clear h
  induction hNesting with
  | nil => rfl
  | @cons c d _ _ hAlone _ _ ihChildren ihRest =>
      obtain ⟨kind, props, children, source⟩ := c
      obtain ⟨otherKind, otherProps, otherChildren, otherSource⟩ := d
      simp only [Component.alone, Component.withChildren, Component.mk.injEq] at hAlone
      obtain ⟨rfl, rfl, -, rfl⟩ := hAlone
      cases ihChildren
      rw [ihRest]

/-- What is left has the places that are clear of the kind. -/
theorem map_alone_places_dropAll (kind : Kind) (forest : Forest) :
    (places (dropAll kind forest).1).map Place.alone =
      ((places forest).filter (Place.isClear kind)).map Place.alone := by
  induction forest using Forest.induction with
  | nil => rfl
  | cons c rest hChildren hRest =>
      rw [filter_places_cons (Place.isClear_under kind), dropAll_cons]
      by_cases hKind : c.kind = kind
      · simpa [hKind, Place.isClear] using hRest
      · -- Below the root the places are compared under roots that differ in their children only.
        have hUnder (d : Component) : Place.alone ∘ Place.under d =
            Place.under d.alone ∘ Place.alone := rfl
        have hInside : ((places (dropAll kind c.children).1).map
              (Place.under (c.withChildren (dropAll kind c.children).1))).map Place.alone =
            (((places c.children).filter (Place.isClear kind)).map (Place.under c)).map
              Place.alone := by
          rw [List.map_map, List.map_map, hUnder, hUnder, ← List.map_map, ← List.map_map, hChildren]
          rfl
        have hRoot : [(⟨[], c⟩ : Place)].filter (Place.isClear kind) = [⟨[], c⟩] := by
          simp [hKind, Place.isClear, Place.isUncovered]
        rw [if_neg hKind, if_neg hKind, hRoot, places_cons, List.map_cons, List.map_append,
          List.map_append, List.map_append, ← hInside, hRest]
        rfl

/-- What is removed is counted by the topmost components of the kind. -/
theorem count_dropAll (kind : Kind) (forest : Forest) :
    (dropAll kind forest).2 = ((places forest).filter (Place.isTopmost kind)).length := by
  induction forest using Forest.induction with
  | nil => rfl
  | cons c rest hChildren hRest =>
      rw [filter_places_cons (Place.isTopmost_under kind), dropAll_cons, hChildren, hRest]
      by_cases hKind : c.kind = kind
      · simp [hKind, Place.isTopmost, Place.isUncovered, Nat.add_comm]
      · simp [hKind, Place.isTopmost]

/-- Both ways to say that a forest has no component of a kind. -/
theorem ofKind_eq_nil_iff : ofKind kind forest = [] ↔ hasKind kind forest = false := by
  rw [ofKind, hasKind, List.filter_eq_nil_iff, List.any_eq_false]

/-- Removing a kind removes exactly it. What is left is the one forest whose places are those of the
old forest that have no component of the kind at them or above them, with the same components in the
same order. The count is that of the components of the kind that are below no other one; no component
of the kind is left; and the count is zero exactly if there was none, which is when nothing changes. -/
theorem places_dropAll (kind : Kind) (forest : Forest) :
    (∀ left, (dropAll kind forest).1 = left ↔ (places left).map Place.alone =
        ((places forest).filter (Place.isClear kind)).map Place.alone) ∧
      (dropAll kind forest).2 = ((places forest).filter (Place.isTopmost kind)).length ∧
      ofKind kind (dropAll kind forest).1 = [] ∧
      ((dropAll kind forest).2 = 0 ↔ ofKind kind forest = []) ∧
      ((dropAll kind forest).1 = forest ↔ ofKind kind forest = []) := by
  obtain ⟨visits, hPruned, hAll, -⟩ := exists_cutsAll kind forest
  have hNone : ofKind kind (dropAll kind forest).1 = [] :=
    ofKind_eq_nil_iff.mpr (hAll.hasKind_eq_false hPruned)
  have hUnchanged (h : (dropAll kind forest).2 = 0) : (dropAll kind forest).1 = forest :=
    dropAll_of_count_eq_zero h
  have hGone (h : (dropAll kind forest).1 = forest) : ofKind kind forest = [] := by
    rwa [h] at hNone
  have hZero (h : ofKind kind forest = []) : (dropAll kind forest).2 = 0 := by
    -- Without a component of the kind there is no topmost one.
    rw [count_dropAll, List.length_eq_zero_iff, List.filter_eq_nil_iff]
    intro place hPlace hTopmost
    have hWalk : place.component ∈ walk forest := by
      rw [← map_component_places]
      exact List.mem_map_of_mem hPlace
    have hKind := kind_ne_of_hasKind (ofKind_eq_nil_iff.mp h) _ hWalk
    simp [Place.isTopmost, hKind] at hTopmost
  refine ⟨fun left => ⟨?_, fun h => ?_⟩, count_dropAll kind forest, hNone,
    ⟨fun h => hGone (hUnchanged h), hZero⟩, hGone, fun h => hUnchanged (hZero h)⟩
  · rintro rfl
    exact map_alone_places_dropAll kind forest
  · exact eq_of_map_alone ((map_alone_places_dropAll kind forest).trans h.symm)

end Forest
end Wireframe
