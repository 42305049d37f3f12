import Wireframe.Proofs.Page.EditScript

/-! Which roots the comparison pairs. Roots without a text that identifies them are paired in the
order in which they stand, kind by kind, and no root is added where a root that is removed could
have been kept. -/
namespace Wireframe

namespace Diff

/-- A root of a kind that no text identifies. -/
def isNameless (kind : Kind) (c : Component) : Bool :=
  c.kind == kind && (identity c).isEmpty

def namelessPlaces (kind : Kind) (forest : Forest) : List Nat :=
  (forest.zipIdx.filter fun entry => isNameless kind entry.1).map Prod.snd

def openPlaces (kind : Kind) (forest : Forest) (taken : List Nat) : List Nat :=
  (namelessPlaces kind forest).filter fun place => !taken.contains place

def Pairing.nameless (kind : Kind) (pairing : Pairing) : Pairing :=
  pairing.filter fun entry => isNameless kind entry.1

/-- The rule of the search written out: within a kind, and by a shared text or by both having none. -/
theorem matchesRoot_iff {c d : Component} :
    matchesRoot c d = true ↔ d.kind = c.kind ∧
      (identity c = [] ∧ identity d = [] ∨ ∃ entry ∈ identity c, entry ∈ identity d) := by
  unfold matchesRoot
  cases hWanted : identity c with
  | nil => simp
  | cons entry more => simp [sharesText]

/-- What can be taken for a component has a name exactly if the component has one. -/
theorem isNameless_of_matchesRoot {c d : Component} (h : matchesRoot c d = true) (kind : Kind) :
    isNameless kind d = isNameless kind c := by
  obtain ⟨hKind, ⟨hc, hd⟩ | ⟨entry, hc, hd⟩⟩ := matchesRoot_iff.mp h
  · simp [isNameless, hKind, hc, hd]
  · have hNamed := List.isEmpty_eq_false_iff.mpr (List.ne_nil_of_mem hc)
    have hKnown := List.isEmpty_eq_false_iff.mpr (List.ne_nil_of_mem hd)
    rw [isNameless, isNameless, hKind, hNamed, hKnown]

/-- A nameless component can be taken for exactly the nameless ones of its kind. -/
theorem matchesRoot_of_nameless {kind : Kind} {c : Component} (h : isNameless kind c = true)
    (d : Component) : matchesRoot c d = isNameless kind d := by
  simp only [isNameless, Bool.and_eq_true, beq_iff_eq, List.isEmpty_iff] at h
  obtain ⟨rfl, hNil⟩ := h
  simp [matchesRoot, isNameless, hNil]

theorem nodup_namelessPlaces (kind : Kind) (forest : Forest) :
    (namelessPlaces kind forest).Nodup := by
  have hPlaces : (forest.zipIdx.map Prod.snd).Nodup := by
    rw [List.zipIdx_map_snd]
    exact List.nodup_range'
  exact hPlaces.sublist (List.filter_sublist.map _)

/-- The places listed are those of the nameless roots of the kind. -/
theorem mem_namelessPlaces {kind : Kind} {forest : Forest} {place : Nat} :
    place ∈ namelessPlaces kind forest ↔
      ∃ c, forest[place]? = some c ∧ isNameless kind c = true := by
  simp only [namelessPlaces, List.mem_map, List.mem_filter, Prod.exists,
    List.mem_zipIdx_iff_getElem?, exists_eq_right]

theorem openPlaces_nil (kind : Kind) (forest : Forest) :
    openPlaces kind forest [] = namelessPlaces kind forest := by
  simp [openPlaces]

/-- A place that is taken is open no more. -/
theorem openPlaces_cons (kind : Kind) (forest : Forest) (place : Nat) (taken : List Nat) :
    openPlaces kind forest (place :: taken) =
      (openPlaces kind forest taken).filter fun other => other ≠ place := by
  rw [openPlaces, openPlaces, List.filter_filter]
  apply List.filter_congr
  intro other _
  simp [eq_comm]

/-- A nameless root takes the first place that is open to it. -/
theorem origin_of_nameless {kind : Kind} {c : Component} (h : isNameless kind c = true)
    (forest : Forest) (taken : List Nat) :
    (findMatch? c forest taken).map Prod.snd = (openPlaces kind forest taken).head? := by
  have hOpen : openPlaces kind forest taken =
      (forest.zipIdx.filter fun entry => !taken.contains entry.2 && matchesRoot c entry.1).map
        Prod.snd := by
    rw [openPlaces, namelessPlaces, List.filter_map, List.filter_filter]
    congr 1
    apply List.filter_congr
    intro entry _
    rw [matchesRoot_of_nameless h, Function.comp_apply]
  rw [hOpen, List.head?_map, List.head?_filter, findMatch?]

/-- The place that a nameless root takes is open no longer. -/
theorem openPlaces_of_nameless {kind : Kind} {c : Component} (h : isNameless kind c = true)
    (forest : Forest) (taken : List Nat) :
    openPlaces kind forest (((findMatch? c forest taken).map Prod.snd).toList ++ taken) =
      (openPlaces kind forest taken).tail := by
  have hNodup : (openPlaces kind forest taken).Nodup :=
    (nodup_namelessPlaces kind forest).filter _
  rw [origin_of_nameless h]
  cases hOpen : openPlaces kind forest taken with
  | nil => exact hOpen
  | cons place rest =>
      rw [hOpen, List.nodup_cons] at hNodup
      rw [List.head?_cons, Option.toList_some, List.singleton_append, openPlaces_cons, hOpen,
        List.filter_cons_of_neg (by simp), List.tail_cons, List.filter_eq_self]
      rintro other hOther
      rw [decide_eq_true_eq]
      rintro rfl
      exact hNodup.1 hOther

/-- All other roots leave the places of the nameless ones open. -/
theorem openPlaces_of_named {kind : Kind} {c : Component} (h : isNameless kind c = false)
    (forest : Forest) (taken : List Nat) :
    openPlaces kind forest (((findMatch? c forest taken).map Prod.snd).toList ++ taken) =
      openPlaces kind forest taken := by
  cases hFind : findMatch? c forest taken with
  | none => rfl
  | some found =>
      obtain ⟨old, place⟩ := found
      obtain ⟨hOld, -, hMatch⟩ := findMatch?_sound hFind
      have hOther : place ∉ namelessPlaces kind forest := by
        rw [mem_namelessPlaces]
        rintro ⟨d, hd, hNameless⟩
        rw [hOld, Option.some.injEq] at hd
        rw [← hd, isNameless_of_matchesRoot hMatch, h] at hNameless
        cases hNameless
      rw [Option.map_some, Option.toList_some, List.singleton_append, openPlaces_cons,
        List.filter_eq_self]
      intro other hMem
      rw [decide_eq_true_eq]
      rintro rfl
      exact hOther (List.mem_of_mem_filter hMem)

section

variable {forest roots : Forest}

/-- All nameless roots of a kind take part, in the order of the plan. -/
theorem map_fst_nameless (kind : Kind) :
    ((pairRoots forest [] roots).nameless kind).map Prod.fst = roots.filter (isNameless kind) := by
  have hRoots : (pairRoots forest [] roots).map Prod.fst = roots := map_fst_pairRoots []
  conv_rhs => rw [← hRoots, List.filter_map]
  rfl

/-- The nameless roots of a kind take the open places in order, until there are no more. -/
theorem nameless_pairRoots (kind : Kind) :
    ∀ (taken : List Nat) (k : Nat) (entry : Component × Option Nat),
      ((pairRoots forest taken roots).nameless kind)[k]? = some entry →
        entry.2 = (openPlaces kind forest taken)[k]? := by
  induction roots with
  | nil =>
      intro taken k entry h
      simp [pairRoots, Pairing.nameless] at h
  | cons c rest ih =>
      intro taken k entry h
      simp only [pairRoots, Pairing.nameless] at h ih
      cases hNameless : isNameless kind c with
      | false =>
          rw [List.filter_cons_of_neg (by simp [hNameless])] at h
          rw [ih _ _ _ h, openPlaces_of_named hNameless]
      | true =>
          rw [List.filter_cons_of_pos (by simpa using hNameless)] at h
          cases k with
          | zero =>
              rw [List.getElem?_cons_zero, Option.some.injEq] at h
              rw [← h, origin_of_nameless hNameless, List.head?_eq_getElem?]
          | succ k =>
              rw [List.getElem?_cons_succ] at h
              rw [ih _ _ _ h, openPlaces_of_nameless hNameless, List.getElem?_tail]

/-- What the search may not pair is apart, which is the converse of `matchesRoot_of_apart`. -/
theorem apart_of_matchesRoot {c d : Component} (h : matchesRoot c d = false) : Apart c d := by
  intro hKind
  have hNot : ¬matchesRoot c d = true := by simp [h]
  rw [matchesRoot_iff] at hNot
  refine ⟨sharesText_eq_false.mpr fun entry hc hd => ?_, fun hNil => ?_⟩
  · exact hNot ⟨hKind.symm, .inr ⟨entry, hc, hd⟩⟩
  · exact hNot ⟨hKind.symm, .inl hNil⟩

/-- What finds no partner can be taken for none of the roots that are left over in the end. -/
theorem apart_of_unpaired {c old : Component} {place : Nat} (hOld : forest[place]? = some old) :
    ∀ taken : List Nat, (c, none) ∈ pairRoots forest taken roots → place ∉ taken →
      place ∉ (pairRoots forest taken roots).places → Apart c old := by
  induction roots with
  | nil => exact fun _ h => absurd h List.not_mem_nil
  | cons d rest ih =>
      intro taken hAdded hTaken hPlaces
      simp only [pairRoots, Pairing.places_cons, List.mem_append, not_or] at hAdded hPlaces
      rcases List.mem_cons.mp hAdded with hHere | hLater
      · obtain ⟨rfl, hNone⟩ := Prod.mk.inj hHere
        rw [eq_comm, Option.map_eq_none_iff, findMatch?, List.find?_eq_none] at hNone
        have hRefused := hNone (old, place) (List.mem_zipIdx_iff_getElem?.mpr hOld)
        exact apart_of_matchesRoot (by simpa [hTaken] using hRefused)
      · refine ih _ hLater (fun hMem => ?_) hPlaces.2
        exact (List.mem_append.mp hMem).elim hPlaces.1 hTaken

end

/-- A pair of roots is only ever updated, at the place of the old one. -/
theorem operation_of_mem_pairScript {place : Nat} {old new : Component} {aimed : Aimed}
    (h : aimed ∈ pairScript place old new) :
    aimed.2 = .updateChildren old new.children ∨
      aimed.2 = .updateProps old (propChanges old.props new.props) := by
  rcases List.mem_append.mp h with h | h
  · split at h
    · cases h
    · exact .inl (congrArg Prod.snd (List.mem_singleton.mp h))
  · split at h
    · cases h
    · exact .inr (congrArg Prod.snd (List.mem_singleton.mp h))

/-- An operation of the script adds a root that is not paired, updates one that is, or removes a
root of the page that is left over. -/
theorem operation_of_mem_script {forest : Forest} {pairing : Pairing} {aimed : Aimed}
    (h : aimed ∈ script forest pairing) :
    (∃ c, (c, none) ∈ pairing ∧ aimed.2 = .addRoot c) ∨
      (∃ c place old, (c, some place) ∈ pairing ∧ forest[place]? = some old ∧
        (aimed.2 = .updateChildren old c.children ∨
          aimed.2 = .updateProps old (propChanges old.props c.props))) ∨
      ∃ place old, forest[place]? = some old ∧ place ∉ pairing.places ∧ aimed.2 = .remove old := by
  rcases List.mem_append.mp h with h | h
  · obtain ⟨⟨c, origin⟩, hPair, hScript⟩ := List.mem_flatMap.mp h
    cases origin with
    | none => exact .inl ⟨c, hPair, congrArg Prod.snd (List.mem_singleton.mp hScript)⟩
    | some place =>
        cases hOld : forest[place]? with
        | none => simp [rootScript, hOld] at hScript
        | some old =>
            rw [rootScript, hOld, Option.map_some, Option.getD_some] at hScript
            exact .inr (.inl ⟨c, place, old, hPair, hOld, operation_of_mem_pairScript hScript⟩)
  · obtain ⟨root, hRoot, rfl⟩ := List.mem_map.mp h
    obtain ⟨hTraced, hFree⟩ := List.mem_filter.mp hRoot
    obtain ⟨place, hPlace, hOld⟩ := mem_traced.mp hTraced
    refine .inr (.inr ⟨place, root.2, hOld, fun hPaired => ?_, rfl⟩)
    simp [hPlace, hPaired] at hFree

/-- A root that the script adds was not paired with any root of the page. -/
theorem unpaired_of_add {forest : Forest} {pairing : Pairing} {c : Component} {position : Position}
    (h : .add c position ∈ (script forest pairing).map Prod.snd) : (c, none) ∈ pairing := by
  obtain ⟨aimed, hAimed, hAdd⟩ := List.mem_map.mp h
  have hCases := operation_of_mem_script hAimed
  simp only [hAdd, Operation.addRoot, Operation.add.injEq, reduceCtorEq, or_self, and_false,
    exists_false, or_false] at hCases
  obtain ⟨d, hd, rfl, -⟩ := hCases
  exact hd

/-- A root that the script removes was not paired with any root of the plan. -/
theorem left_of_remove {forest : Forest} {pairing : Pairing} {old : Component}
    (h : .remove old ∈ (script forest pairing).map Prod.snd) :
    ∃ place, forest[place]? = some old ∧ place ∉ pairing.places := by
  obtain ⟨aimed, hAimed, hRemove⟩ := List.mem_map.mp h
  have hCases := operation_of_mem_script hAimed
  simp only [hRemove, Operation.addRoot, Operation.remove.injEq, reduceCtorEq, or_self, and_false,
    exists_false, false_or] at hCases
  obtain ⟨place, other, hOther, hPlace, rfl⟩ := hCases
  exact ⟨place, hOther, hPlace⟩

/-- The pairing of the comparison. Of the nameless roots of a kind, the first of the plan is paired
with the first of the page, the second with the second, and so on, and those are added for which the
page has no more. A root with a name is paired only with a root of its kind that has one of its
texts. No root is added that could be taken for a root that is removed. -/
theorem compared_ordinal {forest : Forest} (hForest : Forest.Keyed forest) {plan : Plan}
    (hPlan : Forest.Keyed plan.components) :
    let pairing := pairRoots forest [] plan.components
    pairing.Valid forest plan.components ∧
      compared forest plan = (script forest pairing).map Prod.snd ∧
      (∀ kind, (pairing.nameless kind).map Prod.fst = plan.components.filter (isNameless kind) ∧
        ∀ (k : Nat) (entry : Component × Option Nat), (pairing.nameless kind)[k]? = some entry →
          entry.2 = (namelessPlaces kind forest)[k]?) ∧
      (∀ c place, (c, some place) ∈ pairing → identity c ≠ [] →
        ∃ old ∈ forest[place]?, old.kind = c.kind ∧ ∃ text ∈ identity c, text ∈ identity old) ∧
      ∀ c position old, .add c position ∈ compared forest plan →
        .remove old ∈ compared forest plan → Apart c old := by
  have hScript := compared_pairRoots hForest hPlan
  refine ⟨valid_pairRoots plan.components, hScript, ?nameless, ?named, ?maximal⟩
  case nameless =>
    intro kind
    refine ⟨map_fst_nameless kind, fun k entry hEntry => ?_⟩
    rw [nameless_pairRoots kind [] k entry hEntry, openPlaces_nil]
  case named =>
    intro c place hMem hNamed
    obtain ⟨old, hOld, hMatch⟩ := matched_pairRoots [] c place hMem
    obtain ⟨hKind, hNil | hShared⟩ := matchesRoot_iff.mp hMatch
    · exact absurd hNil.1 hNamed
    · exact ⟨old, hOld, hKind, hShared⟩
  case maximal =>
    intro c position old hAdd hRemove
    rw [hScript] at hAdd hRemove
    obtain ⟨place, hOld, hPlace⟩ := left_of_remove hRemove
    exact apart_of_unpaired hOld [] (unpaired_of_add hAdd) List.not_mem_nil hPlace

/-- A page with charts, two of them nameless, and a button that goes. -/
def chartPage : Text :=
  "<Chart type=\"bar\">\n</Chart>\n<Chart title=\"Sales\">\n</Chart>\n".toList ++
    "<Button children=\"Save\">\n</Button>\n<Chart>\n</Chart>".toList

/-- Three nameless charts, the last of them new, and a chart that shares its title with one of the
page. -/
def chartPlan : Plan :=
  ⟨"default", [.leaf .chart [("type", .text "pie")], .leaf .chart [("title", .text "Sales")],
    .leaf .chart [], .leaf .chart [("wide", .boolean true)],
    .leaf .button [("children", .text "Send")]], []⟩

theorem compared_ordinal_chartPlan :
    Forest.Keyed (Page.recover chartPage) ∧ Forest.Keyed chartPlan.components ∧
      (∀ (k : Nat) (entry : Component × Option Nat),
        ((pairRoots (Page.recover chartPage) [] chartPlan.components).nameless .chart)[k]? =
          some entry → entry.2 = [0, 3][k]?) ∧
      ∀ c position old, .add c position ∈ compared (Page.recover chartPage) chartPlan →
        .remove old ∈ compared (Page.recover chartPage) chartPlan → Apart c old := by
  have hForest : Forest.Keyed (Page.recover chartPage) := Page.keyed_recover chartPage
  have hPlan : Forest.Keyed chartPlan.components := by decide +kernel
  have hPlaces : namelessPlaces .chart (Page.recover chartPage) = [0, 3] := by decide +kernel
  obtain ⟨-, -, hNameless, -, hMaximal⟩ := compared_ordinal hForest hPlan
  refine ⟨hForest, hPlan, fun k entry hEntry => ?_, hMaximal⟩
  rw [(hNameless .chart).2 k entry hEntry, hPlaces]

end Diff
end Wireframe
