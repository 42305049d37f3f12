import Wireframe.Proofs.Page.Matching

/-! The comparison of roots as an edit script. The operations come from one pairing of the roots of
the plan with roots of the page, and carrying them out on the roots of the page gives the roots of
the plan, up to their order. -/
namespace Wireframe

namespace Diff

open Page

/-- A root with the place at which it stood on the page. A root that was added has none. -/
abbrev Traced := Option Nat × Component

/-- An operation with the place of the root that it is about. -/
abbrev Aimed := Option Nat × Operation

def traced (forest : Forest) : List Traced :=
  forest.zipIdx.map fun entry => (some entry.2, entry.1)

/-- Puts a root at a position. Without a navbar among the roots, what should follow it comes
first. -/
def insertTraced (new : Traced) : Position → List Traced → List Traced
  | .start, roots => new :: roots
  | .afterNavbar, roots =>
    match roots.dropWhile fun root => root.2.kind ≠ .navbar with
    | [] => new :: roots
    | navbar :: rest => (roots.takeWhile fun root => root.2.kind ≠ .navbar) ++ navbar :: new :: rest
  | .finish, roots => roots ++ [new]

def changeAt (place : Option Nat) (change : Component → Component) (roots : List Traced) :
    List Traced :=
  roots.map fun root => if root.1 = place then (root.1, change root.2) else root

def dropAt (place : Option Nat) (roots : List Traced) : List Traced :=
  roots.filter fun root => root.1 ≠ place

/-- Carries an operation out on the root at its place. -/
def replayOne (roots : List Traced) : Aimed → List Traced
  | (_, .add new position) => insertTraced (none, new) position roots
  | (place, .remove _) => dropAt place roots
  | (place, .updateProps _ changes) => changeAt place (Component.changeProps changes) roots
  | (place, .updateChildren _ children) => changeAt place (Component.withChildren children) roots
  | (place, .replace _ replacement) => changeAt place (fun _ => replacement) roots
  | (place, .move _ position) =>
    match roots.find? fun root => root.1 = place with
    | some root => insertTraced root position (dropAt place roots)
    | none => roots

def replay (operations : List Aimed) (forest : Forest) : Forest :=
  (operations.foldl replayOne (traced forest)).map Prod.snd

/-- The roots of a plan, each with the place of the root of the page that it is paired with. -/
abbrev Pairing := List (Component × Option Nat)

namespace Pairing

def places (pairing : Pairing) : List Nat :=
  pairing.filterMap Prod.snd

/-- All roots of the plan take part in their order, those that are paired are paired with a root of
their kind, and no root of the page is paired twice. -/
structure Valid (pairing : Pairing) (forest roots : Forest) : Prop where
  whole : pairing.map Prod.fst = roots
  injective : pairing.places.Nodup
  kinds : ∀ c place, (c, some place) ∈ pairing → ∃ old ∈ forest[place]?, old.kind = c.kind

/-- Every root that is paired can be taken for the one that it is paired with. -/
def Matched (pairing : Pairing) (forest : Forest) : Prop :=
  ∀ c place, (c, some place) ∈ pairing → ∃ old ∈ forest[place]?, matchesRoot c old = true

@[simp] theorem places_nil : places [] = [] := rfl

@[simp] theorem places_cons_none (c : Component) (rest : Pairing) :
    places ((c, none) :: rest) = places rest := rfl

@[simp] theorem places_cons_some (c : Component) (place : Nat) (rest : Pairing) :
    places ((c, some place) :: rest) = place :: places rest := rfl

theorem places_cons (entry : Component × Option Nat) (rest : Pairing) :
    places (entry :: rest) = entry.2.toList ++ places rest := by
  obtain ⟨c, origin⟩ := entry
  cases origin <;> rfl

/-- The roots that are paired stand at different places, and none of these is taken. -/
def Free (pairing : Pairing) (taken : List Nat) : Prop :=
  pairing.places.Nodup ∧ ∀ place ∈ pairing.places, place ∉ taken

/-- The first pair takes a place that is free. -/
theorem Free.head {entry : Component × Option Nat} {rest : Pairing} {taken : List Nat}
    (h : Free (entry :: rest) taken) : ∀ place ∈ entry.2, place ∉ taken := by
  intro place hPlace
  refine h.2 place ?_
  rw [places_cons]
  exact List.mem_append_left _ (Option.mem_toList.mpr hPlace)

/-- The pairs behind the first one may not take its place either. -/
theorem Free.tail {entry : Component × Option Nat} {rest : Pairing} {taken : List Nat}
    (h : Free (entry :: rest) taken) : Free rest (entry.2.toList ++ taken) := by
  obtain ⟨hNodup, hFree⟩ := h
  rw [places_cons] at hNodup hFree
  obtain ⟨-, hRest, hApart⟩ := List.nodup_append.mp hNodup
  refine ⟨hRest, fun place hPlace hTaken => ?_⟩
  rcases List.mem_append.mp hTaken with hHere | hTaken
  · exact hApart place hHere place hPlace rfl
  · exact hFree place (List.mem_append_right _ hPlace) hTaken

theorem Free.cons {entry : Component × Option Nat} {rest : Pairing} {taken : List Nat}
    (hHere : ∀ place ∈ entry.2, place ∉ taken) (h : Free rest (entry.2.toList ++ taken)) :
    Free (entry :: rest) taken := by
  obtain ⟨hNodup, hFree⟩ := h
  simp only [List.mem_append, Option.mem_toList, not_or] at hFree
  rw [Free, places_cons]
  refine ⟨List.nodup_append.mpr ⟨Option.toList_nodup entry.2, hNodup, ?_⟩, fun place hPlace => ?_⟩
  · rintro place hMem _ hOther rfl
    exact (hFree place hOther).1 (Option.mem_toList.mp hMem)
  · rcases List.mem_append.mp hPlace with hMem | hMem
    · exact hHere place (Option.mem_toList.mp hMem)
    · exact (hFree place hMem).2

end Pairing

/-- The pairs that the search makes: each root of the plan in turn is paired with the first root of
the page that it can be taken for, if that is not taken yet. -/
def pairRoots (forest : Forest) : List Nat → Forest → Pairing
  | _, [] => []
  | taken, c :: rest =>
    let origin := (findMatch? c forest taken).map Prod.snd
    (c, origin) :: pairRoots forest (origin.toList ++ taken) rest

/-- The operations for a pair of roots. The children come first. Either is updated exactly if it
differs. -/
def pairScript (place : Nat) (old new : Component) : List Aimed :=
  (if sameShapes old.children new.children then []
    else [(some place, .updateChildren old new.children)])
    ++ if Value.same (.object (visible old.props)) (.object (visible new.props)) then []
      else [(some place, .updateProps old (propChanges old.props new.props))]

def rootScript (forest : Forest) : Component × Option Nat → List Aimed
  | (c, none) => [(none, .addRoot c)]
  | (c, some place) => (forest[place]?.map fun old => pairScript place old c).getD []

def unpaired (forest : Forest) (places : List Nat) : List Traced :=
  (traced forest).filter fun root => !(places.map some).contains root.1

def removalScript (forest : Forest) (pairing : Pairing) : List Aimed :=
  (unpaired forest pairing.places).map fun root => (root.1, .remove root.2)

/-- The operations that a pairing gives: those for the roots of the plan, then the removals. -/
def script (forest : Forest) (pairing : Pairing) : List Aimed :=
  pairing.flatMap (rootScript forest) ++ removalScript forest pairing

/-- A root is traced with the place at which it stands. -/
theorem mem_traced {forest : Forest} {root : Traced} :
    root ∈ traced forest ↔ ∃ place, root.1 = some place ∧ forest[place]? = some root.2 := by
  obtain ⟨origin, c⟩ := root
  simp only [traced, List.mem_map, Prod.exists, Prod.mk.injEq, List.mem_zipIdx_iff_getElem?]
  constructor
  · rintro ⟨d, place, hPlace, rfl, rfl⟩
    exact ⟨place, rfl, hPlace⟩
  · rintro ⟨place, rfl, hPlace⟩
    exact ⟨c, place, hPlace, rfl, rfl⟩

/-- No two roots of a page stand at one place. -/
theorem nodup_traced (forest : Forest) : ((traced forest).map Prod.fst).Nodup := by
  have hPlaces : (traced forest).map Prod.fst = (List.range' 0 forest.length).map some := by
    rw [traced, List.map_map, ← List.zipIdx_map_snd 0 forest, List.map_map]
    rfl
  rw [hPlaces]
  exact (List.nodup_range' (s := 0)).map (Option.some_injective _)

/-- Without the places, the operations for a pair are those that the comparison emits. -/
theorem map_pairScript {old new : Component} (hOld : old.props.Keyed) (hNew : new.props.Keyed)
    (place : Nat) : (pairScript place old new).map Prod.snd = rootOperations old new := by
  have hProps := propChanges_eq_nil_iff hOld hNew
  have hShapes : sameShapes old.children new.children = true ∨
      sameShapes old.children new.children = false := by
    cases sameShapes old.children new.children <;> simp
  cases hSame : Value.same (.object (visible old.props)) (.object (visible new.props)) with
  | true =>
      have hNil := hProps.mpr hSame
      rcases hShapes with h | h <;> simp [pairScript, rootOperations, h, hSame, hNil]
  | false =>
      have hNil : propChanges old.props new.props ≠ [] := fun hNil => by
        rw [hProps.mp hNil] at hSame
        cases hSame
      rcases hShapes with h | h <;> simp [pairScript, rootOperations, h, hSame, hNil]

section

variable {forest : Forest} (hForest : Forest.Keyed forest)
include hForest

theorem keyed_of_getElem? {place : Nat} {old : Component} (h : forest[place]? = some old) :
    old.props.Keyed :=
  (hForest.root (List.mem_of_getElem? h)) old (Forest.mem_walk_self old [])

omit hForest in
/-- Every root of the plan takes part in its turn, paired or not. -/
theorem map_fst_pairRoots {roots : Forest} :
    ∀ taken, (pairRoots forest taken roots).map Prod.fst = roots := by
  induction roots with
  | nil => exact fun _ => rfl
  | cons c rest ih => exact fun taken => congrArg (c :: ·) (ih _)

omit hForest in
/-- No root of the page is taken twice. -/
theorem free_pairRoots {roots : Forest} : ∀ taken, (pairRoots forest taken roots).Free taken := by
  induction roots with
  | nil => exact fun taken => ⟨List.nodup_nil, by simp [pairRoots]⟩
  | cons c rest ih =>
      intro taken
      refine Pairing.Free.cons (fun place hPlace => ?_) (ih _)
      obtain ⟨⟨old, _⟩, hFind, rfl⟩ := Option.map_eq_some_iff.mp (Option.mem_def.mp hPlace)
      exact (findMatch?_sound hFind).2.1

omit hForest in
/-- The search pairs a root only with one that it can be taken for. -/
theorem matched_pairRoots {roots : Forest} :
    ∀ taken, (pairRoots forest taken roots).Matched forest := by
  induction roots with
  | nil => exact fun _ _ _ h => absurd h List.not_mem_nil
  | cons c rest ih =>
      intro taken d place hMem
      rcases List.mem_cons.mp hMem with hHead | hMem
      · obtain ⟨rfl, hOrigin⟩ := Prod.mk.inj hHead
        obtain ⟨⟨old, _⟩, hFind, rfl⟩ := Option.map_eq_some_iff.mp hOrigin.symm
        obtain ⟨hPlace, -, hMatch⟩ := findMatch?_sound hFind
        exact ⟨old, hPlace, hMatch⟩
      · exact ih _ d place hMem

omit hForest in
/-- The search gives a valid pairing: in the order of the plan, within kinds, and no root of the
page twice. -/
theorem valid_pairRoots (roots : Forest) : (pairRoots forest [] roots).Valid forest roots where
  whole := map_fst_pairRoots []
  injective := (free_pairRoots []).1
  kinds c place hMem := by
    obtain ⟨old, hOld, hMatch⟩ := matched_pairRoots [] c place hMem
    exact ⟨old, hOld, kind_eq_of_matchesRoot hMatch⟩

omit hForest in
/-- The search looks at kinds and identities only, so that it pairs recovered roots as it pairs
those that were rendered. -/
theorem pairRoots_recorded (h : ∀ c ∈ forest, c.props.keysDistinct = true) (indent : Int)
    {roots : Forest} : ∀ taken,
      pairRoots (Forest.recorded indent forest) taken roots = pairRoots forest taken roots := by
  induction roots with
  | nil => exact fun _ => rfl
  | cons c rest ih =>
      intro taken
      simp only [pairRoots, findMatch?_recorded h, ih]

/-- The search gives the operations of the pairs that it makes, and takes the roots in them. -/
theorem matchRoots_eq {roots : Forest} (hRoots : Forest.Keyed roots) :
    ∀ taken : List Nat, (matchRoots forest taken roots).1 =
        ((pairRoots forest taken roots).flatMap (rootScript forest)).map Prod.snd ∧
      ∀ place, place ∈ (matchRoots forest taken roots).2 ↔
        place ∈ taken ∨ place ∈ (pairRoots forest taken roots).places := by
  induction roots with
  | nil => exact fun taken => ⟨rfl, by simp [matchRoots, pairRoots]⟩
  | cons c rest ih =>
      intro taken
      cases hFind : findMatch? c forest taken with
      | none =>
          obtain ⟨hOperations, hTaken⟩ := ih hRoots.tail taken
          have hPairs : pairRoots forest taken (c :: rest) =
              (c, none) :: pairRoots forest taken rest := by simp [pairRoots, hFind]
          rw [matchRoots_cons_of_none hFind, hPairs, hOperations]
          exact ⟨rfl, hTaken⟩
      | some found =>
          obtain ⟨old, place⟩ := found
          obtain ⟨hPlace, -, -⟩ := findMatch?_sound hFind
          obtain ⟨hOperations, hTaken⟩ := ih hRoots.tail (place :: taken)
          have hPairs : pairRoots forest taken (c :: rest) =
              (c, some place) :: pairRoots forest (place :: taken) rest := by
            simp [pairRoots, hFind]
          have hHere := map_pairScript (keyed_of_getElem? hForest hPlace)
            (hRoots c (Forest.mem_walk_self c rest)) place
          rw [matchRoots_cons_of_some hFind, hPairs]
          refine ⟨?_, fun other => ?_⟩
          · rw [hOperations, List.flatMap_cons, List.map_append, rootScript, hPlace,
              Option.map_some, Option.getD_some, hHere]
          · rw [hTaken, Pairing.places_cons_some]
            simp only [List.mem_cons]
            tauto

/-- The comparison is the script of the pairs that the search makes. -/
theorem compared_pairRoots {plan : Plan} (hPlan : Forest.Keyed plan.components) :
    compared forest plan =
      (script forest (pairRoots forest [] plan.components)).map Prod.snd := by
  obtain ⟨hOperations, hTaken⟩ := matchRoots_eq hForest hPlan []
  have hRemovals : ((forest.zipIdx.filter fun entry =>
      !(matchRoots forest [] plan.components).2.contains entry.2).map fun entry =>
        Operation.remove entry.1) =
      (removalScript forest (pairRoots forest [] plan.components)).map Prod.snd := by
    rw [removalScript, unpaired, traced, List.filter_map, List.map_map, List.map_map]
    congr 1
    apply List.filter_congr
    intro entry _
    have hIff := hTaken entry.2
    simp only [List.not_mem_nil, false_or] at hIff
    simp [← hIff]
  rw [script, List.map_append, ← hOperations, ← hRemovals, compared]

/-- The comparison is the script of a valid pairing. -/
theorem compared_eq_script {plan : Plan} (hPlan : Forest.Keyed plan.components) :
    ∃ pairing : Pairing, pairing.Valid forest plan.components ∧ pairing.Matched forest ∧
      compared forest plan = (script forest pairing).map Prod.snd :=
  ⟨_, valid_pairRoots plan.components, matched_pairRoots [], compared_pairRoots hForest hPlan⟩

end

/-! Carrying the script out. Only which root stands at which place counts, not the order. -/

/-- Wherever a new root goes, the other roots are still there. -/
theorem insertTraced_perm (new : Traced) (position : Position) (roots : List Traced) :
    (insertTraced new position roots).Perm (new :: roots) := by
  cases position with
  | start => exact .refl _
  | finish => exact List.perm_append_singleton new roots
  | afterNavbar =>
      simp only [insertTraced]
      split
      · exact .refl _
      · rename_i navbar rest hDrop
        have hWhole : roots.takeWhile (fun root => root.2.kind ≠ .navbar) ++ navbar :: rest =
            roots := by
          rw [← hDrop, List.takeWhile_append_dropWhile]
        conv_rhs => rw [← hWhole]
        rw [List.append_cons, ← List.singleton_append]
        refine (List.perm_append_comm_assoc _ [new] rest).trans ?_
        simp

/-- Changing a root that is not there changes nothing. -/
theorem changeAt_of_not_mem {place : Option Nat} (change : Component → Component)
    {roots : List Traced} (h : place ∉ roots.map Prod.fst) : changeAt place change roots = roots := by
  rw [changeAt, List.map_congr_left (g := id), List.map_id]
  intro root hRoot
  rw [if_neg]
  · rfl
  · rintro rfl
    exact h (List.mem_map_of_mem hRoot)

theorem dropAt_of_not_mem {place : Option Nat} {roots : List Traced}
    (h : place ∉ roots.map Prod.fst) : dropAt place roots = roots := by
  rw [dropAt, List.filter_eq_self]
  rintro root hRoot
  rw [decide_eq_true_eq]
  rintro rfl
  exact h (List.mem_map_of_mem hRoot)

/-- Among roots at different places, one can be brought to the front. -/
theorem perm_cons_dropAt {roots : List Traced} (hPlaces : (roots.map Prod.fst).Nodup)
    {root : Traced} (hRoot : root ∈ roots) : roots.Perm (root :: dropAt root.1 roots) := by
  obtain ⟨first, last, rfl⟩ := List.append_of_mem hRoot
  rw [List.map_append, List.map_cons, List.nodup_append] at hPlaces
  obtain ⟨-, hLast, hApart⟩ := hPlaces
  have hNotFirst : root.1 ∉ first.map Prod.fst := fun hMem =>
    hApart _ hMem _ List.mem_cons_self rfl
  have hDrop : dropAt root.1 (first ++ root :: last) = first ++ last := by
    have hFirst := dropAt_of_not_mem hNotFirst
    have hRest := dropAt_of_not_mem (List.nodup_cons.mp hLast).1
    rw [dropAt] at hFirst hRest ⊢
    rw [List.filter_append, List.filter_cons_of_neg (by simp), hFirst, hRest]
  rw [hDrop]
  exact List.perm_middle

/-- Changing the root at a place changes that root and no other one. -/
theorem changeAt_perm {place : Option Nat} {change : Component → Component} {c : Component}
    {roots others : List Traced} (hRoots : roots.Perm ((place, c) :: others))
    (hPlace : place ∉ others.map Prod.fst) :
    (changeAt place change roots).Perm ((place, change c) :: others) := by
  have hOthers := changeAt_of_not_mem change hPlace
  refine (hRoots.map _).trans ?_
  rw [changeAt] at hOthers
  rw [List.map_cons, hOthers, if_pos rfl]

/-- What a root becomes that is paired with a root of the plan: what is the same already stays as
it was. -/
def renewed (old new : Component) : Component :=
  let c := if sameShapes old.children new.children then old else old.withChildren new.children
  if Value.same (.object (visible old.props)) (.object (visible new.props)) then c
  else c.changeProps (propChanges old.props new.props)

/-- The step lemma of the replay: the operations for a pair make of the old root the new one, and
leave the others alone. -/
theorem replay_pairScript {place : Nat} {old new : Component} {roots others : List Traced}
    (hRoots : roots.Perm ((some place, old) :: others))
    (hPlace : some place ∉ others.map Prod.fst) :
    ((pairScript place old new).foldl replayOne roots).Perm
      ((some place, renewed old new) :: others) := by
  have hShapes : sameShapes old.children new.children = true ∨
      sameShapes old.children new.children = false := by
    cases sameShapes old.children new.children <;> simp
  have hChildren : ∀ children, (changeAt (some place) (Component.withChildren children) roots).Perm
      ((some place, old.withChildren children) :: others) :=
    fun children => changeAt_perm hRoots hPlace
  cases hSame : Value.same (.object (visible old.props)) (.object (visible new.props)) with
  | true =>
      rcases hShapes with h | h
      · simpa [pairScript, renewed, h, hSame] using hRoots
      · simpa [pairScript, renewed, h, hSame, replayOne] using hChildren new.children
  | false =>
      rcases hShapes with h | h
      · simpa [pairScript, renewed, h, hSame, replayOne] using changeAt_perm hRoots hPlace
      · simpa [pairScript, renewed, h, hSame, replayOne] using
          changeAt_perm (hChildren new.children) hPlace

/-- The root that stands for a root of the plan in the end. -/
def settled (forest : Forest) : Component × Option Nat → Traced
  | (c, none) => (none, c)
  | (c, some place) => (some place, (forest[place]?.map fun old => renewed old c).getD c)

theorem origin_settled (forest : Forest) (entry : Component × Option Nat) :
    (settled forest entry).1 = entry.2 := by
  obtain ⟨c, origin⟩ := entry
  cases origin <;> rfl

/-- A root that is not paired is among those that are left. -/
theorem unpaired_perm {forest : Forest} {taken : List Nat} {place : Nat} {old : Component}
    (hOld : forest[place]? = some old) (hPlace : place ∉ taken) :
    (unpaired forest taken).Perm ((some place, old) :: unpaired forest (place :: taken)) := by
  have hMem : (some place, old) ∈ unpaired forest taken := by
    rw [unpaired, List.mem_filter, mem_traced]
    exact ⟨⟨place, rfl, hOld⟩, by simpa using hPlace⟩
  have hNodup : ((unpaired forest taken).map Prod.fst).Nodup :=
    (nodup_traced forest).sublist (List.filter_sublist.map _)
  have hRest : dropAt (some place) (unpaired forest taken) = unpaired forest (place :: taken) := by
    rw [dropAt, unpaired, unpaired, List.filter_filter]
    apply List.filter_congr
    intro root _
    simp [eq_comm]
  rw [← hRest]
  exact perm_cons_dropAt hNodup hMem

theorem not_mem_unpaired {forest : Forest} {taken : List Nat} {place : Nat} (h : place ∈ taken) :
    some place ∉ (unpaired forest taken).map Prod.fst := by
  intro hMem
  obtain ⟨root, hRoot, hPlace⟩ := List.mem_map.mp hMem
  have hFree := (List.mem_filter.mp hRoot).2
  rw [hPlace] at hFree
  simp [h] at hFree

/-- Which roots are left depends on the set of the places, not on their order. -/
theorem unpaired_congr {forest : Forest} {places others : List Nat}
    (h : ∀ place, place ∈ places ↔ place ∈ others) :
    unpaired forest places = unpaired forest others := by
  apply List.filter_congr
  intro root _
  simp [h]

/-- The roots that are left once the first pair has taken its place. -/
theorem unpaired_append (forest : Forest) (entry : Component × Option Nat) (rest : Pairing)
    (taken : List Nat) :
    unpaired forest (Pairing.places (entry :: rest) ++ taken) =
      unpaired forest (rest.places ++ (entry.2.toList ++ taken)) := by
  apply unpaired_congr
  intro place
  simp only [Pairing.places_cons, List.mem_append]
  tauto

/-- The operations for one root of the plan settle it, and leave the roots at all other places as
they are. -/
theorem replay_rootScript {forest : Forest} {entry : Component × Option Nat}
    {done roots : List Traced} {taken : List Nat} (hFree : ∀ place ∈ entry.2, place ∉ taken)
    (hFound : ∀ place ∈ entry.2, ∃ old, forest[place]? = some old)
    (hDone : ∀ root ∈ done, ∀ place ∈ root.1, place ∈ taken)
    (hRoots : roots.Perm (done ++ unpaired forest taken)) :
    ((rootScript forest entry).foldl replayOne roots).Perm
      (settled forest entry :: (done ++ unpaired forest (entry.2.toList ++ taken))) := by
  obtain ⟨c, origin⟩ := entry
  cases origin with
  | none => exact (insertTraced_perm _ _ _).trans (hRoots.cons _)
  | some place =>
      have hNew := hFree place rfl
      obtain ⟨old, hOld⟩ := hFound place rfl
      have hFront : roots.Perm
          ((some place, old) :: (done ++ unpaired forest (place :: taken))) :=
        hRoots.trans (((unpaired_perm hOld hNew).append_left done).trans List.perm_middle)
      have hOthers : some place ∉ (done ++ unpaired forest (place :: taken)).map Prod.fst := by
        rw [List.map_append, List.mem_append, not_or]
        refine ⟨fun hMem => ?_, not_mem_unpaired List.mem_cons_self⟩
        obtain ⟨root, hRoot, hPlace⟩ := List.mem_map.mp hMem
        exact hNew (hDone root hRoot place hPlace)
      have hPair := @replay_pairScript place old c _ _ hFront hOthers
      simpa [rootScript, settled, hOld] using hPair

/-- The operations for the roots of the plan settle these one by one, and leave the roots at all
other places as they are. -/
theorem replay_rootScripts {forest : Forest} {todo : Pairing} :
    ∀ (done roots : List Traced) (taken : List Nat), todo.Free taken →
      (∀ entry ∈ todo, ∀ place ∈ entry.2, ∃ old, forest[place]? = some old) →
      (∀ root ∈ done, ∀ place ∈ root.1, place ∈ taken) →
      roots.Perm (done ++ unpaired forest taken) →
      ((todo.flatMap (rootScript forest)).foldl replayOne roots).Perm
        (done ++ todo.map (settled forest) ++ unpaired forest (todo.places ++ taken)) := by
  induction todo with
  | nil =>
      intro done roots taken _ _ _ hRoots
      simpa using hRoots
  | cons entry rest ih =>
      intro done roots taken hFree hFound hDone hRoots
      obtain ⟨hHere, hLater⟩ := List.forall_mem_cons.mp hFound
      have hStep := replay_rootScript hFree.head hHere hDone hRoots
      have hNext : ∀ root ∈ done ++ [settled forest entry], ∀ place ∈ root.1,
          place ∈ entry.2.toList ++ taken := by
        intro root hRoot place hPlace
        rcases List.mem_append.mp hRoot with hRoot | hRoot
        · exact List.mem_append_right _ (hDone root hRoot place hPlace)
        · rw [List.mem_singleton.mp hRoot, origin_settled] at hPlace
          exact List.mem_append_left _ (Option.mem_toList.mpr hPlace)
      have hRoots : ((rootScript forest entry).foldl replayOne roots).Perm
          ((done ++ [settled forest entry]) ++ unpaired forest (entry.2.toList ++ taken)) := by
        rw [List.append_assoc]
        exact hStep.trans List.perm_middle.symm
      have hRest := ih _ _ _ hFree.tail hLater hNext hRoots
      rw [List.flatMap_cons, List.foldl_append, unpaired_append]
      simpa using hRest

/-- Removals take out the roots at their places, and leave all others. -/
theorem replay_removals {gone : List Traced} {kept : List Traced} :
    ∀ roots : List Traced, (gone.map Prod.fst).Nodup →
      (∀ root ∈ gone, root.1 ∉ kept.map Prod.fst) → roots.Perm (kept ++ gone) →
      ((gone.map fun root => (root.1, Operation.remove root.2)).foldl replayOne roots).Perm kept := by
  induction gone with
  | nil =>
      intro roots _ _ hRoots
      simpa using hRoots
  | cons root rest ih =>
      intro roots hNodup hApart hRoots
      obtain ⟨hOnce, hNodup⟩ := List.nodup_cons.mp hNodup
      have hKept := dropAt_of_not_mem (hApart root List.mem_cons_self)
      have hRest := dropAt_of_not_mem hOnce
      rw [List.map_cons, List.foldl_cons]
      refine ih _ hNodup (fun other hOther => hApart other (List.mem_cons_of_mem _ hOther)) ?_
      refine (hRoots.filter _).trans ?_
      rw [dropAt] at hKept hRest
      rw [List.filter_append, List.filter_cons_of_neg (by simp), hKept, hRest]

/-- The run lemma of the replay: in some order, the roots of the page have become what stands for
the roots of the plan. -/
theorem replay_script {forest roots : Forest} {pairing : Pairing}
    (h : pairing.Valid forest roots) :
    (replay (script forest pairing) forest).Perm
      (pairing.map fun entry => (settled forest entry).2) := by
  have hStart : (traced forest).Perm ([] ++ unpaired forest []) := by
    rw [List.nil_append, unpaired, List.filter_eq_self.mpr]
    simp
  have hFound : ∀ entry ∈ pairing, ∀ place ∈ entry.2, ∃ old, forest[place]? = some old := by
    intro entry hEntry place hPlace
    obtain ⟨c, origin⟩ := entry
    obtain ⟨old, hOld, -⟩ := h.kinds c place (Option.mem_def.mp hPlace ▸ hEntry)
    exact ⟨old, hOld⟩
  have hSettled :=
    replay_rootScripts [] _ [] ⟨h.injective, fun _ _ => List.not_mem_nil⟩ hFound (by simp) hStart
  rw [List.nil_append, List.append_nil] at hSettled
  -- The roots to remove are at places that no entry has taken.
  have hApart : ∀ root ∈ unpaired forest pairing.places,
      root.1 ∉ (pairing.map (settled forest)).map Prod.fst := by
    intro root hRoot hMem
    obtain ⟨hTraced, hFree⟩ := List.mem_filter.mp hRoot
    obtain ⟨place, hPlace, -⟩ := mem_traced.mp hTraced
    rw [List.map_map, hPlace] at hMem
    obtain ⟨entry, hEntry, hOrigin⟩ := List.mem_map.mp hMem
    have hPaired : place ∈ pairing.places :=
      List.mem_filterMap.mpr ⟨entry, hEntry, by rw [← hOrigin, Function.comp_apply, origin_settled]⟩
    simp [hPlace, hPaired] at hFree
  have hNodup : ((unpaired forest pairing.places).map Prod.fst).Nodup :=
    (nodup_traced forest).sublist (List.filter_sublist.map _)
  have hAll := replay_removals _ hNodup hApart hSettled
  rw [replay, script, List.foldl_append]
  have hRoots := hAll.map Prod.snd
  rwa [List.map_map] at hRoots

/-- A paired root ends with the shape that the plan wants. -/
theorem sameShape_renewed {old new : Component} (hOld : old.props.Keyed)
    (hNew : Forest.Keyed [new]) (hKind : old.kind = new.kind) :
    sameShape (renewed old new) new = true := by
  have hProps := hNew new (Forest.mem_walk_self new [])
  have hChanged := same_propChanges hOld hProps
  have hSelf := sameShapes_self hNew.children
  obtain ⟨kind, props, children, source⟩ := old
  dsimp only at hKind hOld hChanged
  cases hShapes : sameShapes children new.children <;>
    cases hSame : Value.same (.object (visible props)) (.object (visible new.props)) <;>
      simp [renewed, hShapes, hSame, hKind, hSelf, hChanged, sameShape, Component.withChildren,
        Component.changeProps]

/-- Whatever stands for a root of the plan in the end has its shape, whether it was paired or added. -/
theorem sameShape_settled {forest roots : Forest} (hForest : Forest.Keyed forest)
    (hRoots : Forest.Keyed roots) {pairing : Pairing} (h : pairing.Valid forest roots)
    {entry : Component × Option Nat} (hEntry : entry ∈ pairing) :
    sameShape (settled forest entry).2 entry.1 = true := by
  obtain ⟨c, origin⟩ := entry
  have hMem : c ∈ roots := h.whole ▸ List.mem_map_of_mem hEntry
  have hRoot := hRoots.root hMem
  cases origin with
  | none =>
      have hSelf := sameShapes_self hRoot
      rwa [sameShapes, sameShapes, Bool.and_true] at hSelf
  | some place =>
      obtain ⟨old, hOld, hKind⟩ := h.kinds c place hEntry
      have hPlace := Option.mem_def.mp hOld
      rw [settled, hPlace]
      exact sameShape_renewed (keyed_of_getElem? hForest hPlace) hRoot hKind

/-- Shapes are compared place by place. -/
theorem sameShapes_of_forall₂ {forest other : Forest}
    (h : List.Forall₂ (fun c d => sameShape c d = true) forest other) :
    sameShapes forest other = true := by
  induction h with
  | nil => rfl
  | cons hHere _ ih => rw [sameShapes, hHere, ih, Bool.and_self]

/-- Settled roots have the shapes of the roots of the plan, up to their order. -/
theorem sameShapes_settled {forest roots edited : Forest} (hForest : Forest.Keyed forest)
    (hRoots : Forest.Keyed roots) {pairing : Pairing} (h : pairing.Valid forest roots)
    (hPerm : edited.Perm (pairing.map fun entry => (settled forest entry).2)) :
    ∃ order : Forest, order.Perm roots ∧ sameShapes edited order = true := by
  have hShapes : List.Forall₂ (fun c d => sameShape c d = true)
      (pairing.map fun entry => (settled forest entry).2) roots := by
    rw [← h.whole, List.forall₂_map_left_iff, List.forall₂_map_right_iff, List.forall₂_same]
    exact fun entry hEntry => sameShape_settled hForest hRoots h hEntry
  obtain ⟨order, hOrder, hRest⟩ := List.perm_comp_forall₂ hPerm hShapes
  exact ⟨order, hRest, sameShapes_of_forall₂ hOrder⟩

/-- Replaying the script gives roots of the same shapes as those of the plan, up to their order. -/
theorem sameShapes_replay {forest roots : Forest} (hForest : Forest.Keyed forest)
    (hRoots : Forest.Keyed roots) {pairing : Pairing} (h : pairing.Valid forest roots) :
    ∃ order : Forest, order.Perm roots ∧
      sameShapes (replay (script forest pairing) forest) order = true :=
  sameShapes_settled hForest hRoots h (replay_script h)

/-- Every operation of the script carries the place of its target. -/
theorem target_of_mem_script {forest : Forest} {pairing : Pairing} {aimed : Aimed}
    (h : aimed ∈ script forest pairing) :
    aimed.2.target? = aimed.1.bind fun place => forest[place]? := by
  rcases List.mem_append.mp h with h | h
  · obtain ⟨⟨c, origin⟩, -, hScript⟩ := List.mem_flatMap.mp h
    cases origin with
    | none =>
        rw [List.mem_singleton.mp hScript]
        rfl
    | some place =>
        cases hPlace : forest[place]? with
        | none => simp [rootScript, hPlace] at hScript
        | some old =>
            rw [rootScript, hPlace, Option.map_some, Option.getD_some, pairScript,
              List.mem_append] at hScript
            rcases hScript with hScript | hScript
            · split at hScript
              · cases hScript
              · rw [List.mem_singleton.mp hScript]
                exact hPlace.symm
            · split at hScript
              · cases hScript
              · rw [List.mem_singleton.mp hScript]
                exact hPlace.symm
  -- Removals at the end aim at the places that nothing was paired with.
  · obtain ⟨root, hRoot, rfl⟩ := List.mem_map.mp h
    obtain ⟨place, hPlace, hOld⟩ := mem_traced.mp (List.mem_of_mem_filter hRoot)
    rw [hPlace]
    exact hOld.symm

/-- The comparison is a correct edit script. Its operations are those of one pairing of the roots of
the plan with roots of the page, root by root and then the removals, and carrying them out on the
roots of the page gives roots of the same shapes as those of the plan, up to their order. -/
theorem compared_recover (code : Text) {plan : Plan} (hPlan : Forest.Keyed plan.components) :
    ∃ pairing : Pairing, pairing.Valid (recover code) plan.components ∧
      compared (recover code) plan = (script (recover code) pairing).map Prod.snd ∧
      (∀ aimed ∈ script (recover code) pairing,
        aimed.2.target? = aimed.1.bind fun place => (recover code)[place]?) ∧
      ∃ order : Forest, order.Perm plan.components ∧
        sameShapes (replay (script (recover code) pairing) (recover code)) order = true := by
  obtain ⟨pairing, hValid, -, hScript⟩ := compared_eq_script (keyed_recover code) hPlan
  exact ⟨pairing, hValid, hScript, fun _ => target_of_mem_script,
    sameShapes_replay (keyed_recover code) hPlan hValid⟩

/-- Two cards that share their title with two roots of the page, one of which holds other children
and lacks a prop, a root that is new, and a button that goes. -/
def sampleRevision : Plan :=
  ⟨"default", [⟨.card, [("title", .text "Users"), ("wide", .boolean true)],
      [.leaf .table [("columns", .list [.text "Name"])]], none⟩,
    .leaf .card [("title", .text "Users"), ("hidden", .boolean false)], .leaf .chart []], []⟩

def samplePage : Text :=
  "<Card title=\"Users\" size=\x7b2\x7d>\n</Card>\n".toList ++
    "<Button>\n</Button>\n<Card title=\"Users\">\n</Card>".toList

theorem compared_recover_sampleRevision :
    Forest.Keyed sampleRevision.components ∧
      ∃ pairing : Pairing, pairing.Valid (recover samplePage) sampleRevision.components ∧
        compared (recover samplePage) sampleRevision =
          (script (recover samplePage) pairing).map Prod.snd ∧
        ∃ order : Forest, order.Perm sampleRevision.components ∧
          sameShapes (replay (script (recover samplePage) pairing) (recover samplePage)) order =
            true := by
  have hPlan : Forest.Keyed sampleRevision.components := by decide +kernel
  obtain ⟨pairing, hValid, hScript, -, hReplay⟩ := compared_recover samplePage hPlan
  exact ⟨hPlan, pairing, hValid, hScript, hReplay⟩

end Diff
end Wireframe
