import Wireframe.Proofs.Page.AttributeReading

/-! The changes that lead from some props to others. There are none exactly if the props that show
are the same mapping, and carrying them out gives the same mapping. -/
namespace Wireframe

namespace Props

/-- In a mapping the entry that a filter keeps under a key is the one that was there. -/
theorem get?_filter {props : Props} (h : props.keysDistinct = true) (keep : String × Value → Bool)
    (key : String) :
    get? key (props.filter keep) = (get? key props).filter fun v => keep (key, v) := by
  apply Option.ext
  intro v
  rw [get?_eq_some_iff (keysDistinct_filter h keep), List.mem_filter, Option.filter_eq_some_iff,
    get?_eq_some_iff h]

/-- Changes keep a mapping a mapping. -/
theorem Keyed.foldl_applyTo {changes : List Change}
    (hValues : ∀ key value, .set key value ∈ changes → value.keyed = true) :
    ∀ {props : Props}, props.Keyed → Keyed (changes.foldl Change.applyTo props) := by
  induction changes with
  | nil => exact id
  | cons change rest ih =>
      intro props h
      refine ih (fun key value hMem => hValues key value (List.mem_cons_of_mem _ hMem)) ?_
      cases change with
      | remove key => exact h.filter _
      | set key value =>
          rw [Change.applyTo]
          split
          · exact h.filter _
          · exact h.set key (hValues key value List.mem_cons_self)

/-- Setting some props in turn. -/
theorem get?_foldl_set {entries : Props} (hDistinct : entries.keysDistinct = true)
    (hShows : ∀ entry ∈ entries, entry.2.isFalse = false) (key : String) :
    ∀ props : Props,
      get? key ((entries.map fun entry => Change.set entry.1 entry.2).foldl Change.applyTo props) =
        (get? key entries).or (get? key props) := by
  induction entries with
  | nil => exact fun _ => rfl
  | cons entry rest ih =>
      obtain ⟨k, v⟩ := entry
      intro props
      obtain ⟨hNew, hDistinct⟩ := keysDistinct_cons.mp hDistinct
      have hSet : Change.applyTo props (.set k v) = props.set k v := by
        simp [Change.applyTo, hShows (k, v) List.mem_cons_self]
      rw [List.map_cons, List.foldl_cons, hSet,
        ih hDistinct (fun entry hEntry => hShows entry (List.mem_cons_of_mem _ hEntry)), get?_set,
        get?]
      by_cases hKey : k = key
      · subst hKey
        simp [get?_eq_none hNew]
      · simp [hKey, Ne.symm hKey]

/-- Removing some props in turn. -/
theorem get?_foldl_remove (key : String) {entries : Props} :
    ∀ props : Props,
      get? key ((entries.map fun entry => Change.remove entry.1).foldl Change.applyTo props) =
        if key ∈ entries.map Prod.fst then none else get? key props := by
  induction entries with
  | nil => simp
  | cons entry rest ih =>
      intro props
      rw [List.map_cons, List.foldl_cons, ih, Change.applyTo, get?_erase]
      by_cases hKey : key = entry.1
      · simp [hKey]
      · simp only [List.map_cons, List.mem_cons, hKey, false_or, if_false]

end Props

namespace Diff

theorem keyed_visible {props : Props} (h : props.Keyed) : (visible props).Keyed :=
  h.filter _

/-- A mapping shows the same as itself. Without distinct keys the comparison need not say so. -/
theorem same_visible {props : Props} (h : props.Keyed) :
    Value.same (.object (visible props)) (.object (visible props)) = true :=
  Value.same_self (Value.keyed_object_iff.mpr (keyed_visible h))

/-- Props change exactly if the props that show are not the same mapping. -/
theorem propChanges_eq_nil_iff {old new : Props} (hOld : old.Keyed) (hNew : new.Keyed) :
    propChanges old new = [] ↔
      Value.same (.object (visible old)) (.object (visible new)) = true := by
  have hOldKeys := (keyed_visible hOld).distinct
  have hNewKeys := (keyed_visible hNew).distinct
  rw [Value.same_object_iff hOldKeys hNewKeys]
  simp only [propChanges, List.append_eq_nil_iff, List.map_eq_nil_iff, List.filter_eq_nil_iff]
  constructor
  · rintro ⟨hSet, hRemove⟩
    -- Nothing to set: every new entry was there. Nothing to remove: every old key still is.
    have hBack : ∀ entry ∈ visible new, ∃ v, (visible old).get? entry.1 = some v ∧
        Value.same v entry.2 = true := by
      intro entry hEntry
      have hSame := hSet entry hEntry
      cases hGet : (visible old).get? entry.1 with
      | none => simp [hGet] at hSame
      | some v => exact ⟨v, rfl, by simpa [hGet] using hSame⟩
    refine ⟨fun entry hEntry => ?_, fun key hKey => ?_⟩
    · have hSome := hRemove entry hEntry
      rw [Option.isNone_iff_eq_none, ← ne_eq, Option.ne_none_iff_exists'] at hSome
      obtain ⟨w, hGet⟩ := hSome
      obtain ⟨v, hOldGet, hSame⟩ := hBack _ ((Props.get?_eq_some_iff hNewKeys).mp hGet)
      rw [Props.get?_of_mem hOldKeys hEntry] at hOldGet
      cases hOldGet
      exact ⟨w, hGet, hSame⟩
    · obtain ⟨entry, hEntry, rfl⟩ := List.mem_map.mp hKey
      obtain ⟨v, hGet, -⟩ := hBack entry hEntry
      exact Props.get?_isSome_iff.mp (by rw [hGet]; rfl)
  · rintro ⟨hSame, hKeys⟩
    refine ⟨fun entry hEntry => ?_, fun entry hEntry => ?_⟩
    · obtain ⟨v, hGet⟩ := Option.isSome_iff_exists.mp
        (Props.get?_isSome_iff.mpr (hKeys (List.mem_map_of_mem hEntry)))
      obtain ⟨w, hNewGet, hValue⟩ := hSame _ ((Props.get?_eq_some_iff hOldKeys).mp hGet)
      rw [Props.get?_of_mem hNewKeys hEntry] at hNewGet
      cases hNewGet
      simp [hGet, hValue]
    · obtain ⟨w, hGet, -⟩ := hSame entry hEntry
      simp [hGet]

/-- No changes lead from props to themselves. -/
theorem propChanges_self {props : Props} (h : props.Keyed) : propChanges props props = [] :=
  (propChanges_eq_nil_iff h h).mpr (same_visible h)

/-- After the changes, each prop is as wanted, except that a value that is the same already stays. -/
theorem get?_propChanges {old new : Props} (hOld : old.Keyed) (hNew : new.Keyed) (key : String) :
    ((propChanges old new).foldl Change.applyTo (visible old)).get? key =
      ((visible new).get? key).map fun w =>
        (((visible old).get? key).filter fun v => Value.same v w).getD w := by
  have hOldKeys := (keyed_visible hOld).distinct
  have hNewKeys := (keyed_visible hNew).distinct
  have hShows : ∀ entry ∈ visible new, entry.2.isFalse = false := Page.shows_visible new
  have hRemoved : key ∈ ((visible old).filter fun entry =>
      ((visible new).get? entry.1).isNone).map Prod.fst ↔
        ((visible old).get? key).isSome = true ∧ (visible new).get? key = none := by
    rw [← Props.get?_isSome_iff, Props.get?_filter hOldKeys]
    cases hGet : (visible old).get? key <;> simp [Option.isSome_filter]
  rw [propChanges, List.foldl_append, Props.get?_foldl_remove, Props.get?_foldl_set
    (Props.keysDistinct_filter hNewKeys _)
    (fun entry hEntry => hShows entry (List.mem_of_mem_filter hEntry)), Props.get?_filter hNewKeys]
  cases hWanted : (visible new).get? key with
  | none =>
      cases hHad : (visible old).get? key with
      | none => simp
      | some v => rw [if_pos (hRemoved.mpr ⟨by rw [hHad]; rfl, hWanted⟩)]; rfl
  | some w =>
      rw [if_neg fun hMem => by simp [hRemoved, hWanted] at hMem]
      cases hHad : (visible old).get? key with
      | none => simp [hHad]
      | some v => cases hSame : Value.same v w <;> simp [hHad, hSame, Option.filter]

/-- Carrying the changes out gives the wanted props. -/
theorem same_propChanges {old new : Props} (hOld : old.Keyed) (hNew : new.Keyed) :
    Value.same (.object (visible ((propChanges old new).foldl Change.applyTo (visible old))))
      (.object (visible new)) = true := by
  have hValues : ∀ key value, .set key value ∈ propChanges old new → value.keyed = true := by
    intro key value hSet
    rcases List.mem_append.mp hSet with hSet | hRemove
    · obtain ⟨entry, hEntry, hEq⟩ := List.mem_map.mp hSet
      cases hEq
      exact (keyed_visible hNew).values _ (List.mem_of_mem_filter hEntry)
    · obtain ⟨_, _, hEq⟩ := List.mem_map.mp hRemove
      cases hEq
  have hKeyed : Props.Keyed ((propChanges old new).foldl Change.applyTo (visible old)) :=
    (keyed_visible hOld).foldl_applyTo hValues
  have hNewKeys := keyed_visible hNew
  rw [Page.visible_of_shows (Page.shows_foldl_applyTo _ (Page.shows_visible old)),
    Value.same_object_iff hKeyed.distinct hNewKeys.distinct]
  refine ⟨fun entry hEntry => ?_, fun key hKey => ?_⟩
  · have hGet := (Props.get?_of_mem hKeyed.distinct hEntry).symm
    rw [get?_propChanges hOld hNew, eq_comm, Option.map_eq_some_iff] at hGet
    obtain ⟨w, hWanted, hValue⟩ := hGet
    refine ⟨w, hWanted, ?_⟩
    have hSelf : Value.same w w = true := Value.same_self
      (hNewKeys.values _ ((Props.get?_eq_some_iff hNewKeys.distinct).mp hWanted))
    -- The value is the old one where that compares equal, and the new one elsewhere.
    cases hKept : ((visible old).get? entry.1).filter fun v => Value.same v w with
    | none =>
        rw [hKept, Option.getD_none] at hValue
        exact hValue ▸ hSelf
    | some v =>
        rw [hKept, Option.getD_some] at hValue
        exact hValue ▸ (Option.filter_eq_some_iff.mp hKept).2
  · rw [← Props.get?_isSome_iff] at hKey ⊢
    rw [get?_propChanges hOld hNew, Option.isSome_map]
    exact hKey

end Diff
end Wireframe
