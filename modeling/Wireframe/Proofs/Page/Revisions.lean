import Wireframe.Proofs.Page.Matching

/-! Comparing a page with a revision of its roots. If the roots of a plan are those of the page in
their order, some left out, with new roots around them, then the comparison adds, changes and
removes roots just as the revision says. -/
namespace Wireframe

/-- The roots of a page, each with the root of a plan that it becomes, if it stays. -/
abbrev Revision := List (Component × Option Component)

namespace Revision

def before (revision : Revision) : Forest :=
  revision.map Prod.fst

def after (revision : Revision) : Forest :=
  revision.filterMap Prod.snd

def updates (revision : Revision) : List Operation :=
  revision.flatMap fun entry => (entry.2.map (Diff.rootOperations entry.1)).getD []

def removals (revision : Revision) : List Operation :=
  (revision.filter fun entry => entry.2.isNone).map fun entry => .remove entry.1

def recorded (revision : Revision) : Revision :=
  revision.map fun entry => (entry.1.recorded Page.rootIndent, entry.2)

def Stays (revision : Revision) (place : Nat) : Prop :=
  ∃ entry ∈ revision[place]?, entry.2.isSome = true

theorem after_cons_some (old c : Component) (rest : Revision) :
    after ((old, some c) :: rest) = c :: after rest := rfl

theorem updates_cons_some (old c : Component) (rest : Revision) :
    updates ((old, some c) :: rest) = Diff.rootOperations old c ++ updates rest := rfl

theorem before_recorded (revision : Revision) :
    revision.recorded.before = Forest.recorded Page.rootIndent revision.before := by
  simp [recorded, before, Diff.recorded_map]

theorem after_recorded (revision : Revision) : revision.recorded.after = revision.after := by
  simp [recorded, after, List.filterMap_map]

/-- Whether a place stays, told apart by whether it lies before the entry being processed or is that
entry. -/
theorem stays_iff {done rest : Revision} {entry : Component × Option Component} {place : Nat} :
    place < done.length + 1 ∧ Stays (done ++ entry :: rest) place ↔
      (place < done.length ∧ Stays (done ++ entry :: rest) place) ∨
        place = done.length ∧ entry.2.isSome = true := by
  have hHere (hPlace : place = done.length) :
      Stays (done ++ entry :: rest) place ↔ entry.2.isSome = true := by
    subst hPlace
    simp [Stays]
  rw [Nat.lt_succ_iff_lt_or_eq, or_and_right]
  exact or_congr_right (and_congr_right hHere)

end Revision

namespace Diff

open Revision

section

variable {revision : Revision}
  (hMatch : ∀ entry ∈ revision, ∀ c ∈ entry.2, matchesRoot c entry.1 = true)
  (hOrder : revision.Pairwise fun entry later =>
    entry.2 = none → ∀ c ∈ later.2, matchesRoot c entry.1 = false)
include hMatch hOrder

/-- A root that stays is matched with the one that it comes from, as soon as all before it that stay
are taken. -/
theorem findMatch?_revision {done rest : Revision} {old c : Component}
    (hRevision : revision = done ++ (old, some c) :: rest) {taken : List Nat}
    (hTaken : ∀ place, place ∈ taken ↔ place < done.length ∧ Stays revision place) :
    findMatch? c revision.before taken = some (old, done.length) := by
  have hBefore : revision.before = done.before ++ old :: Revision.before rest := by
    simp [hRevision, Revision.before]
  have hLength : done.before.length = done.length := List.length_map _
  have hEarlier : ∀ entry ∈ done.before.zipIdx, entry.2 ∈ taken ∨ matchesRoot c entry.1 = false := by
    rintro ⟨root, place⟩ hEntry
    rw [List.mem_zipIdx_iff_getElem?, Revision.before, List.getElem?_map,
      Option.map_eq_some_iff] at hEntry
    obtain ⟨⟨earlier, kept⟩, hPlace, rfl⟩ := hEntry
    obtain ⟨hLess, -⟩ := List.getElem?_eq_some_iff.mp hPlace
    cases kept with
    | some new =>
        refine .inl ((hTaken place).mpr ⟨hLess, (earlier, some new), ?_, rfl⟩)
        rw [hRevision, List.getElem?_append_left hLess]
        exact hPlace
    | none =>
        rw [hRevision] at hOrder
        exact .inr ((List.pairwise_append.mp hOrder).2.2 _ (List.mem_of_getElem? hPlace)
          (old, some c) (by simp) rfl c rfl)
  have hFree : done.length ∉ taken := fun hMem =>
    Nat.lt_irrefl _ ((hTaken done.length).mp hMem).1
  rw [hBefore, findMatch?_eq_some hEarlier (hMatch (old, some c) (by simp [hRevision]) c rfl)
    (by rwa [hLength]), hLength]

/-- The roots are matched one by one, each that stays with the one that it comes from. -/
theorem matchRoots_revision (others : Forest) {todo : Revision} :
    ∀ {done : Revision} (taken : List Nat), revision = done ++ todo →
      (∀ place, place ∈ taken ↔ place < done.length ∧ Stays revision place) →
      ∃ matched, matchRoots revision.before taken (todo.after ++ others) =
          (todo.updates ++ (matchRoots revision.before matched others).1,
            (matchRoots revision.before matched others).2) ∧
        ∀ place, place ∈ matched ↔ Stays revision place := by
  induction todo with
  | nil =>
      intro done taken hRevision hTaken
      refine ⟨taken, rfl, fun place => ?_⟩
      rw [hTaken, and_iff_right_iff_imp]
      rintro ⟨entry, hEntry, -⟩
      obtain ⟨hPlace, -⟩ := List.getElem?_eq_some_iff.mp hEntry
      rwa [hRevision, List.append_nil] at hPlace
  | cons entry rest ih =>
      intro done taken hRevision hTaken
      obtain ⟨old, kept⟩ := entry
      have hMore : revision = (done ++ [(old, kept)]) ++ rest := by
        rw [hRevision, List.append_assoc, List.singleton_append]
      -- What is taken so far are the places of the entries done that stay.
      have hStep (place : Nat) : place < (done ++ [(old, kept)]).length ∧ Stays revision place ↔
          place ∈ taken ∨ place = done.length ∧ kept.isSome = true := by
        rw [List.length_append, List.length_singleton, hTaken, hRevision]
        exact stays_iff
      cases kept with
      | none =>
          obtain ⟨matched, hRoots, hMatched⟩ := ih taken hMore fun place => by
            rw [hStep]
            simp
          exact ⟨matched, hRoots, hMatched⟩
      | some c =>
          have hFind := findMatch?_revision hMatch hOrder hRevision hTaken
          obtain ⟨matched, hRoots, hMatched⟩ :=
            ih (done.length :: taken) hMore fun place => by
              rw [hStep]
              simp [or_comm]
          refine ⟨matched, ?_, hMatched⟩
          rw [after_cons_some, List.cons_append, matchRoots_cons_of_some hFind, hRoots,
            updates_cons_some, List.append_assoc]

end

/-- The roots that were not taken are those that go. -/
theorem removals_of_matched {revision : Revision} {matched : List Nat}
    (hMatched : ∀ place, place ∈ matched ↔ Stays revision place) :
    (revision.before.zipIdx.filter fun entry => !matched.contains entry.2).map
        (fun entry => .remove entry.1) = revision.removals := by
  have hPlaces : revision.zipIdx.filter (fun entry => !matched.contains entry.2) =
      revision.zipIdx.filter (fun entry => entry.1.2.isNone) := by
    apply List.filter_congr
    rintro ⟨entry, place⟩ hEntry
    have hPlace : revision[place]? = some entry := by
      simpa using List.mem_zipIdx_iff_getElem?.mp hEntry
    have hStays : Stays revision place ↔ entry.2.isSome = true := by simp [Stays, hPlace]
    rw [← hMatched] at hStays
    rw [Bool.eq_iff_iff]
    simp [hStays, Option.isSome_iff_ne_none]
  have hRoots : revision.filter (fun entry => entry.2.isNone) =
      (revision.zipIdx.filter fun entry => entry.1.2.isNone).map Prod.fst := by
    have hFilter := List.filter_map (f := Prod.fst) (p := fun entry => entry.2.isNone)
      (l := revision.zipIdx)
    rwa [List.zipIdx_map_fst] at hFilter
  have hBefore : revision.before.zipIdx = revision.zipIdx.map (Prod.map Prod.fst id) :=
    List.zipIdx_map ..
  rw [removals, hRoots, hBefore, List.filter_map, List.map_map, List.map_map, ← hPlaces]
  rfl

/-- The comparison of a page with a revision of its roots. New roots come first or last, and neither
a new root nor one that stays can be taken for a root that goes. -/
theorem compared_revision {revision : Revision} {first others : Forest}
    (hMatch : ∀ entry ∈ revision, ∀ c ∈ entry.2, matchesRoot c entry.1 = true)
    (hOrder : revision.Pairwise fun entry later =>
      entry.2 = none → ∀ c ∈ later.2, matchesRoot c entry.1 = false)
    (hFirst : ∀ c ∈ first, ∀ entry ∈ revision, matchesRoot c entry.1 = false)
    (hOthers : ∀ c ∈ others, ∀ entry ∈ revision, entry.2 = none → matchesRoot c entry.1 = false)
    {plan : Plan} (hPlan : plan.components = first ++ (revision.after ++ others)) :
    compared revision.before plan =
      first.map .addRoot ++ (revision.updates ++ (others.map .addRoot ++ revision.removals)) := by
  obtain ⟨matched, hRoots, hMatched⟩ :=
    matchRoots_revision hMatch hOrder others [] (List.nil_append revision).symm (by simp)
  have hFirstUnmatched : ∀ c ∈ first, findMatch? c revision.before [] = none := by
    refine fun c hc => findMatch?_eq_none fun entry hEntry => .inr ?_
    obtain ⟨root, hRoot, hEq⟩ := List.mem_map.mp (List.fst_mem_of_mem_zipIdx hEntry)
    rw [← hEq]
    exact hFirst c hc root hRoot
  have hOthersUnmatched : ∀ c ∈ others, findMatch? c revision.before matched = none := by
    refine fun c hc => findMatch?_eq_none fun entry hEntry => ?_
    rw [List.mem_zipIdx_iff_getElem?, Revision.before, List.getElem?_map,
      Option.map_eq_some_iff] at hEntry
    obtain ⟨root, hPlace, hEq⟩ := hEntry
    rw [← hEq]
    cases hKept : root.2 with
    | some new => exact .inl ((hMatched _).mpr ⟨root, hPlace, by rw [hKept]; rfl⟩)
    | none => exact .inr (hOthers c hc root (List.mem_of_getElem? hPlace) hKept)
  have hAdded := matchRoots_append_of_unmatched hOthersUnmatched []
  rw [List.append_nil] at hAdded
  rw [compared, hPlan, matchRoots_append_of_unmatched hFirstUnmatched, hRoots, hAdded,
    ← removals_of_matched hMatched]
  simp [matchRoots]

/-- Roots of a plan that can be taken for the first ones of a page are matched with these. -/
theorem compared_front {pairs : List (Component × Component)}
    (hMatch : ∀ pair ∈ pairs, matchesRoot pair.2 pair.1 = true) (others : Forest) {plan : Plan}
    {rest : Forest} (hPlan : plan.components = pairs.map Prod.snd ++ rest) :
    ∃ more, compared (pairs.map Prod.fst ++ others) plan =
        pairs.flatMap (fun pair => rootOperations pair.1 pair.2) ++ more ∧
      (others = [] → rest = [] → more = []) := by
  -- The pairs stay and the others go; matching goes through the roots in this order.
  let revision : Revision := pairs.map (Prod.map id some) ++ others.map fun c => (c, none)
  have hBefore : pairs.map Prod.fst ++ others = revision.before := by
    simp [revision, Revision.before, Function.comp_def]
  have hAfter : pairs.map Prod.snd = revision.after := by
    simp [revision, Revision.after, List.filterMap_map]
  have hUpdates : pairs.flatMap (fun pair => rootOperations pair.1 pair.2) = revision.updates := by
    simp [revision, Revision.updates, List.flatMap_map]
  have hStays : ∀ entry ∈ revision, ∀ c ∈ entry.2, matchesRoot c entry.1 = true := by
    intro entry hEntry c hc
    rcases List.mem_append.mp hEntry with hEntry | hEntry
    · obtain ⟨pair, hPair, rfl⟩ := List.mem_map.mp hEntry
      exact Option.some.inj hc ▸ hMatch pair hPair
    · obtain ⟨d, -, rfl⟩ := List.mem_map.mp hEntry
      cases hc
  have hOrder : revision.Pairwise fun entry later =>
      entry.2 = none → ∀ c ∈ later.2, matchesRoot c entry.1 = false := by
    refine List.pairwise_append.mpr ⟨?_, ?_, ?_⟩
    · rw [List.pairwise_map]
      exact List.pairwise_iff_forall_sublist.mpr fun _ hNone =>
        absurd hNone (Option.some_ne_none _)
    · rw [List.pairwise_map]
      exact List.pairwise_iff_forall_sublist.mpr fun _ _ c hc =>
        absurd hc (Option.not_mem_none c)
    · intro entry hEntry later _ hNone
      obtain ⟨pair, -, rfl⟩ := List.mem_map.mp hEntry
      cases hNone
  obtain ⟨matched, hRoots, hMatched⟩ :=
    matchRoots_revision hStays hOrder rest [] (List.nil_append revision).symm (by simp)
  rw [compared, hBefore, hPlan, hAfter, hRoots, hUpdates]
  refine ⟨_, List.append_assoc .., ?_⟩
  rintro rfl rfl
  have hRemovals := removals_of_matched hMatched
  simp only [matchRoots, List.nil_append]
  rw [hRemovals]
  simp [revision, Revision.removals, List.filter_map]

end Diff
end Wireframe
