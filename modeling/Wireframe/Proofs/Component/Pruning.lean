import Wireframe.Proofs.Plan.Moving

/-! Whole subtrees cut off a forest. A forest is pruned by a visit of its components, each before its
children, that keeps a component or cuts it off and does not go below one that it cuts off. The edits
that remove components are known by what such a visit cuts off. -/
namespace Wireframe

/-- What becomes of a component that a visit meets. -/
inductive Visit where
  | kept (c : Component)
  | cut (c : Component)

namespace Visit

def component : Visit → Component
  | .kept c => c
  | .cut c => c

def isCut : Visit → Bool
  | .kept _ => false
  | .cut _ => true

end Visit

namespace Forest

variable {kind : Kind} {old middle new : Forest} {visits first second : List Visit}

/-- A visit makes one forest of another. A component that is kept keeps its kind, its props and its
place, and below it is what is kept of its children. -/
inductive Pruned : Forest → Forest → List Visit → Prop
  | nil : Pruned [] [] []
  | cut (c : Component) {rest new : Forest} {later : List Visit} :
      Pruned rest new later → Pruned (c :: rest) new (.cut c :: later)
  | keep {c : Component} {children rest new : Forest} {inside later : List Visit} :
      Pruned c.children children inside → Pruned rest new later →
        Pruned (c :: rest) (c.withChildren children :: new) (.kept c :: (inside ++ later))

def cutKinds (visits : List Visit) : List Kind :=
  (visits.filter Visit.isCut).map fun visit => visit.component.kind

theorem cutKinds_append (first second : List Visit) :
    cutKinds (first ++ second) = cutKinds first ++ cutKinds second := by
  rw [cutKinds, List.filter_append, List.map_append]
  rfl

@[simp] theorem cutKinds_cut (c : Component) (visits : List Visit) :
    cutKinds (.cut c :: visits) = c.kind :: cutKinds visits := rfl

@[simp] theorem cutKinds_kept (c : Component) (visits : List Visit) :
    cutKinds (.kept c :: visits) = cutKinds visits := rfl

theorem cutKinds_map_kept (components : List Component) :
    cutKinds (components.map .kept) = [] := by
  induction components with
  | nil => rfl
  | cons c rest ih => rwa [List.map_cons, cutKinds_kept]

namespace Pruned

/-- Nothing is cut off. -/
theorem refl (forest : Forest) : Pruned forest forest ((walk forest).map .kept) := by
  induction forest using Forest.induction with
  | nil => exact .nil
  | cons c rest hChildren hRest =>
      obtain ⟨kind, props, children, source⟩ := c
      rw [walk_cons, List.map_cons, List.map_append]
      exact .keep hChildren hRest

/-- A component is kept with everything below it. -/
theorem keepAll (c : Component) {rest : Forest} {later : List Visit} (h : Pruned rest new later) :
    Pruned (c :: rest) (c :: new) (.kept c :: ((walk c.children).map .kept ++ later)) := by
  obtain ⟨kind, props, children, source⟩ := c
  exact .keep (.refl children) h

/-- The nodes of the new forest are those that are kept, in the order of the visit. -/
theorem nodes_eq (h : Pruned old new visits) :
    nodes new = (visits.filter fun visit => !visit.isCut).map fun visit => visit.component.node := by
  induction h with
  | nil => rfl
  | cut c _ ih => simpa [Visit.isCut] using ih
  | keep _ _ ihChildren ihRest =>
      rw [nodes_cons, ihRest]
      simpa [Visit.isCut, Visit.component, Component.node, Component.withChildren] using ihChildren

/-- No kind comes back by pruning. -/
theorem hasKind_eq_false (h : Pruned old new visits) (hKind : hasKind kind old = false) :
    hasKind kind new = false := by
  induction h with
  | nil => rfl
  | cut c _ ih =>
      simp only [hasKind_cons, Bool.or_eq_false_iff] at hKind
      exact ih hKind.2.2
  | keep _ _ ihChildren ihRest =>
      simp only [hasKind_cons, Bool.or_eq_false_iff] at hKind ⊢
      exact ⟨hKind.1, ihChildren hKind.2.1, ihRest hKind.2.2⟩

/-- What is pruned twice is pruned at once, and the subtrees that are cut off at once have the kinds
of some that were cut off one time or the other. -/
theorem trans (hFirst : Pruned old middle first) (hSecond : Pruned middle new second) :
    ∃ both, Pruned old new both ∧ (cutKinds both).Subperm (cutKinds first ++ cutKinds second) := by
  induction hFirst generalizing new second with
  | nil => exact ⟨second, hSecond, .refl _⟩
  | cut c _ ih =>
      obtain ⟨both, hBoth, hKinds⟩ := ih hSecond
      exact ⟨_, .cut c hBoth, (List.subperm_cons c.kind).mpr hKinds⟩
  | @keep c _ _ _ inside later _ _ ihChildren ihRest =>
      rw [cutKinds_kept, cutKinds_append]
      -- The component is kept the second time as well, or it is cut off then with what was left of it.
      cases hSecond with
      | cut _ hLater =>
          obtain ⟨both, hBoth, hKinds⟩ := ihRest hLater
          refine ⟨_, .cut c hBoth, ?_⟩
          rw [cutKinds_cut, cutKinds_cut, List.append_assoc]
          exact (((List.subperm_cons c.kind).mpr hKinds).trans
            List.perm_middle.symm.subperm).trans (List.sublist_append_right _ _).subperm
      | keep hInside hLater =>
          obtain ⟨below, hBelow, hBelowKinds⟩ := ihChildren hInside
          obtain ⟨both, hBoth, hKinds⟩ := ihRest hLater
          refine ⟨_, .keep hBelow hBoth, ?_⟩
          rw [cutKinds_kept, cutKinds_kept, cutKinds_append, cutKinds_append]
          refine (hBelowKinds.append hKinds).trans (List.Perm.subperm ?_)
          simp only [List.append_assoc]
          exact (List.perm_append_comm_assoc _ _ _).append_left _

end Pruned

/-- A visit cuts off one component, the first of a kind that it meets. -/
def CutsFirst (kind : Kind) (visits : List Visit) : Prop :=
  ∃ (before : List Component) (c : Component) (after : List Component),
    visits = before.map .kept ++ .cut c :: after.map .kept ∧ c.kind = kind ∧
      ∀ d ∈ before, d.kind ≠ kind

/-- A visit cuts off the components of a kind that it meets, and no others. -/
def CutsAll (kind : Kind) (visits : List Visit) : Prop :=
  ∀ visit ∈ visits, visit.isCut = true ↔ visit.component.kind = kind

/-- What cuts the first of a kind cuts one subtree, of that kind. -/
theorem CutsFirst.cutKinds_eq (h : CutsFirst kind visits) : cutKinds visits = [kind] := by
  obtain ⟨before, c, after, rfl, hKind, -⟩ := h
  rw [cutKinds_append, cutKinds_cut, cutKinds_map_kept, cutKinds_map_kept, hKind]
  rfl

namespace CutsAll

/-- Cutting a whole kind off two forests side by side is cutting it off each. -/
theorem append (hFirst : CutsAll kind first) (hSecond : CutsAll kind second) :
    CutsAll kind (first ++ second) := by
  intro visit hVisit
  rcases List.mem_append.mp hVisit with hVisit | hVisit
  · exact hFirst visit hVisit
  · exact hSecond visit hVisit

/-- Nothing of another kind is cut off by itself. It can only go with something above it. -/
theorem eq_of_mem_cutKinds (h : CutsAll kind visits) : ∀ other ∈ cutKinds visits, other = kind := by
  intro other hOther
  obtain ⟨visit, hVisit, rfl⟩ := List.mem_map.mp hOther
  obtain ⟨hMem, hCut⟩ := List.mem_filter.mp hVisit
  exact (h visit hMem).mp hCut

/-- No component of the kind is left. -/
theorem hasKind_eq_false (h : CutsAll kind visits) (hPruned : Pruned old new visits) :
    hasKind kind new = false := by
  refine Bool.eq_false_iff.mpr fun hHas => ?_
  obtain ⟨node, hNode, rfl⟩ := hasKind_iff.mp hHas
  rw [hPruned.nodes_eq] at hNode
  obtain ⟨visit, hVisit, rfl⟩ := List.mem_map.mp hNode
  obtain ⟨hMem, hKept⟩ := List.mem_filter.mp hVisit
  have hCut : visit.isCut = true := (h visit hMem).mpr rfl
  simp [hCut] at hKept

end CutsAll

/-- Removing the first component of a kind cuts off that component alone. -/
theorem exists_cutsFirst {forest : Forest} (h : hasKind kind forest = true) :
    ∃ rest visits, dropFirst? kind forest = some rest ∧ Pruned forest rest visits ∧
      CutsFirst kind visits := by
  induction forest, h using induction_first with
  | here c rest _ hHere =>
      refine ⟨rest, _, by rw [dropFirst?_cons, if_pos hHere], .cut c (.refl rest), ?_⟩
      exact ⟨[], c, walk rest, rfl, hHere, List.forall_mem_nil _⟩
  | below c rest _ hHere _ ih =>
      obtain ⟨children, inside, hDrop, hPruned, before, d, after, rfl, hKind, hBefore⟩ := ih
      refine ⟨c.withChildren children :: rest, _, ?_, .keep hPruned (.refl rest),
        c :: before, d, after ++ walk rest, ?_, hKind, List.forall_mem_cons.mpr ⟨hHere, hBefore⟩⟩
      · rw [dropFirst?_cons, if_neg hHere, hDrop]
      · simp
  | later c rest _ hHere hBelow _ ih =>
      obtain ⟨others, later, hDrop, hPruned, before, d, after, rfl, hKind, hBefore⟩ := ih
      refine ⟨c :: others, _, ?_, .keepAll c hPruned,
        c :: (walk c.children ++ before), d, after, ?_, hKind, ?_⟩
      · rw [dropFirst?_cons, if_neg hHere, (edits_of_not_hasKind id hBelow).1, hDrop]
        rfl
      · simp
      · exact List.forall_mem_cons.mpr
          ⟨hHere, List.forall_mem_append.mpr ⟨kind_ne_of_hasKind hBelow, hBefore⟩⟩

/-- Removing every component of a kind cuts off those that lie below no other of the kind, and counts
them. -/
theorem exists_cutsAll (kind : Kind) (forest : Forest) :
    ∃ visits, Pruned forest (dropAll kind forest).1 visits ∧ CutsAll kind visits ∧
      (dropAll kind forest).2 = (cutKinds visits).length := by
  induction forest using Forest.induction with
  | nil => exact ⟨[], .nil, List.forall_mem_nil _, rfl⟩
  | cons c rest hChildren hRest =>
      obtain ⟨inside, hInside, hCutsInside, hCountInside⟩ := hChildren
      obtain ⟨later, hLater, hCutsLater, hCountLater⟩ := hRest
      rw [dropAll_cons, hCountInside, hCountLater]
      by_cases hKind : c.kind = kind
      · rw [if_pos hKind]
        refine ⟨_, .cut c hLater, ?_, rfl⟩
        exact List.forall_mem_cons.mpr ⟨iff_of_true rfl hKind, hCutsLater⟩
      · rw [if_neg hKind]
        refine ⟨_, .keep hInside hLater, ?_, ?_⟩
        · exact List.forall_mem_cons.mpr
            ⟨iff_of_false Bool.false_ne_true hKind, hCutsInside.append hCutsLater⟩
        · rw [cutKinds_kept, cutKinds_append, List.length_append]

end Forest
end Wireframe
