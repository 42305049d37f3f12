import Mathlib.Data.List.Nodup
import Wireframe.History

/-! What each call does to a history: what it answers, what it stores, and when it is refused. A
call is refused only for a number that is stored already or that is not stored, and it is refused
before anything changes. -/
namespace Wireframe

variable {σ : Type}

def Version.record (version : Version σ) : Version σ := { version with active := false }

namespace History

def numbers (history : History σ) : List Int := history.versions.map Version.number

/-- The versions apart from their active flags, in the order of storing. -/
def records (history : History σ) : List (Version σ) := history.versions.map Version.record

variable {history after : History σ} {number : Int} {version stored : Version σ}
  {error : HistoryError}

theorem numbers_eq_map_records : history.numbers = history.records.map Version.number := by
  rw [numbers, records, List.map_map]
  rfl

theorem mem_numbers : number ∈ history.numbers ↔ ∃ v ∈ history.versions, v.number = number :=
  List.mem_map

/-- Marking another version active changes no record, since only the flags differ. -/
@[simp] theorem records_markActive (number : Int) :
    (history.markActive number).records = history.records := by
  rw [records, markActive, List.map_map]
  rfl

@[simp] theorem numbers_markActive (number : Int) :
    (history.markActive number).numbers = history.numbers := by
  rw [numbers_eq_map_records, records_markActive, ← numbers_eq_map_records]

/-- A version that is found is a stored one and has the number asked for. -/
theorem get_eq_ok (h : history.get number = .ok version) :
    version ∈ history.versions ∧ version.number = number := by
  rw [get] at h
  split at h
  · rename_i found hFound
    cases h
    exact ⟨List.mem_of_find?_eq_some hFound, by simpa using List.find?_some hFound⟩
  · cases h

/-- Looking a number up fails only where no version has it, and the error names the number. -/
theorem get_eq_error_iff :
    history.get number = .error error ↔ error = .notFound number ∧ number ∉ history.numbers := by
  have hNone : number ∉ history.numbers ↔
      history.versions.find? (fun v => v.number = number) = none := by
    simp [mem_numbers]
  rw [hNone, get]
  cases history.versions.find? (fun v => v.number = number) with
  | some found => simp
  | none => simp [eq_comm]

/-- What activation does where it succeeds: the flags change, and nothing else. -/
theorem activate_eq_ok (h : history.activate number = .ok (version, after)) :
    number ∈ history.numbers ∧ version.number = number ∧ after = history.markActive number ∧
      version ∈ after.versions ∧ version.active = true := by
  rw [activate] at h
  split at h
  · rename_i found hFound
    obtain ⟨hMem, rfl⟩ := get_eq_ok hFound
    cases h
    refine ⟨mem_numbers.mpr ⟨found, hMem, rfl⟩, rfl, rfl,
      List.mem_map.mpr ⟨found, hMem, ?_⟩, rfl⟩
    rw [decide_eq_true rfl]
  · cases h

/-- Activation fails exactly where the number is unknown. -/
theorem activate_eq_error_iff :
    history.activate number = .error error ↔
      error = .notFound number ∧ number ∉ history.numbers := by
  rw [← get_eq_error_iff, activate]
  cases history.get number with
  | ok found => simp
  | error cause => simp

theorem taken_iff :
    (history.versions.any fun known => known.number = number) = true ↔
      number ∈ history.numbers := by
  simp [mem_numbers]

/-- A version as it is stored: stamped, if it was not, and active. -/
def entered (history : History σ) (version : Version σ) : Version σ :=
  { version with
    created := some (version.created.getD (history.clock history.readings))
    active := true }

/-- A stamp that is there is kept. The clock is read for a version without one, which the number of
readings shows. -/
theorem stamp_eq (history : History σ) (version : Version σ) : ∃ readings, history.stamp version =
    ({ version with created := some (version.created.getD (history.clock history.readings)) },
      { history with readings := readings }) := by
  obtain ⟨number, intent, plan, code, explanation, created, active⟩ := version
  cases created with
  | none => exact ⟨_, rfl⟩
  | some stamp => exact ⟨_, rfl⟩

/-- A version with a new number is found behind the others. -/
theorem get_last (h : version.number ∉ history.numbers)
    (hLast : after.versions = history.versions ++ [version]) :
    after.get version.number = .ok version := by
  have hNone : history.versions.find? (fun v => v.number = version.number) = none := by
    rw [List.find?_eq_none]
    exact fun v hv hSame => h (mem_numbers.mpr ⟨v, hv, by simpa using hSame⟩)
  rw [get, hLast, List.find?_append, hNone, Option.none_or]
  simp

/-- A version with a new number is stored behind the others, is stamped, and is the active one. -/
theorem append_of_fresh (h : version.number ∉ history.numbers) :
    ∃ after, history.append version = .ok (history.entered version, after) ∧
      after.versions = history.records ++ [history.entered version] := by
  obtain ⟨readings, hStamp⟩ := stamp_eq history version
  have hOthers : ∀ v ∈ history.versions,
      { v with active := v.number = version.number } = v.record := by
    intro v hv
    have hNumber : v.number ≠ version.number := fun hSame => h (mem_numbers.mpr ⟨v, hv, hSame⟩)
    rw [decide_eq_false hNumber, Version.record]
  let placed : Version σ :=
    { version with created := some (version.created.getD (history.clock history.readings)) }
  let stocked : History σ :=
    { history with readings := readings, versions := history.versions ++ [placed] }
  have hFresh : placed.number ∉ history.numbers := h
  have hGet : stocked.get placed.number = .ok placed := get_last hFresh rfl
  have hAppend : history.append version = stocked.activate version.number := by
    rw [append, if_neg (fun hTaken => h (taken_iff.mp hTaken)), hStamp]
  refine ⟨stocked.markActive version.number, ?_, ?_⟩
  · rw [hAppend, activate, hGet]
    rfl
  · rw [markActive]
    dsimp only [stocked]
    rw [List.map_append, List.map_congr_left hOthers, List.map_singleton, decide_eq_true rfl]
    rfl

/-- What storing does where it succeeds: the number is new, and the records before stay in front. -/
theorem append_eq_ok (h : history.append version = .ok (stored, after)) :
    version.number ∉ history.numbers ∧ stored = history.entered version ∧
      after.versions = history.records ++ [stored] := by
  have hFresh : version.number ∉ history.numbers := by
    intro hTaken
    rw [append, if_pos (taken_iff.mpr hTaken)] at h
    cases h
  obtain ⟨next, hAppend, hVersions⟩ := append_of_fresh hFresh
  cases hAppend.symm.trans h
  exact ⟨hFresh, rfl, hVersions⟩

/-- Only a stored number keeps a version out. Once it is stored, making it active cannot fail. -/
theorem append_eq_error_iff :
    history.append version = .error error ↔
      error = .taken version.number ∧ version.number ∈ history.numbers := by
  constructor
  · intro h
    by_cases hTaken : version.number ∈ history.numbers
    · rw [append, if_pos (taken_iff.mpr hTaken)] at h
      cases h
      exact ⟨rfl, hTaken⟩
    · obtain ⟨after, hAppend, -⟩ := append_of_fresh hTaken
      cases hAppend.symm.trans h
  · rintro ⟨rfl, hTaken⟩
    rw [append, if_pos (taken_iff.mpr hTaken)]

theorem records_append (h : history.append version = .ok (stored, after)) :
    after.records = history.records ++ [stored.record] := by
  obtain ⟨-, -, hVersions⟩ := append_eq_ok h
  rw [records, hVersions, List.map_append, records, List.map_map]
  rfl

/-- A stored number goes behind those that are there, so that the order of storing can be read off
the numbers. -/
theorem numbers_append (h : history.append version = .ok (stored, after)) :
    after.numbers = history.numbers ++ [version.number] := by
  obtain ⟨-, rfl, -⟩ := append_eq_ok h
  rw [numbers_eq_map_records, records_append h, List.map_append, ← numbers_eq_map_records]
  rfl

/-- The greatest number so far is not under any number. -/
theorem le_foldl_max (versions : List (Version σ)) (start : Int) :
    start ≤ versions.foldl (fun greatest v => max greatest v.number) start ∧
      ∀ v ∈ versions, v.number ≤ versions.foldl (fun greatest v => max greatest v.number) start := by
  induction versions generalizing start with
  | nil => simp
  | cons first rest ih =>
      obtain ⟨hStart, hRest⟩ := ih (max start first.number)
      refine ⟨Int.le_trans (Int.le_max_left _ _) hStart, fun v hv => ?_⟩
      rcases List.mem_cons.mp hv with rfl | hv
      · exact Int.le_trans (Int.le_max_right _ _) hStart
      · exact hRest v hv

/-- The next number is greater than every number stored, whatever numbers these are. -/
theorem lt_nextNumber (h : version ∈ history.versions) : version.number < history.nextNumber :=
  Int.lt_add_one_of_le ((le_foldl_max history.versions 0).2 version h)

/-- A version stored under the next number is never refused as a duplicate. -/
theorem nextNumber_not_mem : history.nextNumber ∉ history.numbers := by
  intro hMem
  obtain ⟨v, hv, hSame⟩ := mem_numbers.mp hMem
  exact Int.ne_of_lt (lt_nextNumber hv) hSame

/-- Without a limit every version is listed, each once. -/
theorem newest_perm : (history.newest none).Perm history.versions :=
  List.mergeSort_perm _ _

/-- Versions with different numbers are listed by number, the greatest first. -/
theorem newest_descending (h : history.numbers.Nodup) :
    (history.newest none).Pairwise fun v w => w.number < v.number := by
  have hSorted : (history.newest none).Pairwise fun v w => decide (w.number ≤ v.number) = true := by
    apply @List.pairwise_mergeSort _ fun v w : Version σ => decide (w.number ≤ v.number)
    · intro a b c hab hbc
      exact decide_eq_true (Int.le_trans (of_decide_eq_true hbc) (of_decide_eq_true hab))
    · intro a b
      simp only [Bool.or_eq_true, decide_eq_true_eq]
      exact Int.le_total b.number a.number
  have hDistinct : (history.newest none).Pairwise fun v w => v.number ≠ w.number :=
    List.pairwise_map.mp ((newest_perm.map Version.number).nodup_iff.mpr h)
  exact (hSorted.and hDistinct).imp fun ⟨hLe, hNe⟩ =>
    Int.lt_iff_le_and_ne.mpr ⟨of_decide_eq_true hLe, Ne.symm hNe⟩

theorem newest_limited {limit : Int} (h : 0 ≤ limit) :
    history.newest (some limit) = (history.newest none).take limit.toNat := by
  rw [newest, page, if_pos h]
  rfl

/-- The history keeps its records in order: the numbers are distinct, every version is stamped, and
the active versions are those with the number that was made active last, which is stored. -/
structure Coherent (history : History σ) (last : Option Int) : Prop where
  distinct : history.numbers.Nodup
  stamped : ∀ v ∈ history.versions, v.created.isSome
  active_iff : ∀ v ∈ history.versions, v.active = true ↔ last = some v.number
  last_stored : history.versions ≠ [] → ∃ n ∈ history.numbers, last = some n

theorem coherent_empty (clock : Nat → σ) : Coherent (empty clock) none where
  distinct := List.nodup_nil
  stamped := List.forall_mem_nil _
  active_iff := List.forall_mem_nil _
  last_stored := fun h => absurd rfl h

namespace Coherent

variable {last : Option Int}

theorem append (h : Coherent history last) (hAppend : history.append version = .ok (stored, after)) :
    Coherent after (some version.number) := by
  obtain ⟨hFresh, rfl, hVersions⟩ := append_eq_ok hAppend
  have hNumbers := numbers_append hAppend
  have hRecord : ∀ v ∈ history.records, v.created.isSome = true ∧ v.active = false ∧
      version.number ≠ v.number := by
    intro v hv
    obtain ⟨w, hw, rfl⟩ := List.mem_map.mp hv
    exact ⟨h.stamped w hw, rfl, fun hSame => hFresh (mem_numbers.mpr ⟨w, hw, hSame.symm⟩)⟩
  refine ⟨?_, ?_, ?_, fun _ => ⟨version.number, by simp [hNumbers], rfl⟩⟩
  · rw [hNumbers, List.nodup_append]
    exact ⟨h.distinct, List.nodup_singleton _, fun n hn m hm => by
      rw [List.mem_singleton.mp hm]
      exact fun hSame => hFresh (hSame ▸ hn)⟩
  · rw [hVersions, List.forall_mem_append, List.forall_mem_singleton]
    exact ⟨fun v hv => (hRecord v hv).1, rfl⟩
  · rw [hVersions, List.forall_mem_append, List.forall_mem_singleton]
    refine ⟨fun v hv => ?_, by simp [entered]⟩
    obtain ⟨-, hActive, hOther⟩ := hRecord v hv
    simp [hActive, hOther]

theorem activate {number : Int} (h : Coherent history last)
    (hActivate : history.activate number = .ok (version, after)) :
    Coherent after (some number) := by
  obtain ⟨hStored, -, rfl, -⟩ := activate_eq_ok hActivate
  refine ⟨?_, ?_, ?_, fun _ => ⟨number, by simpa using hStored, rfl⟩⟩
  · rw [numbers_markActive]
    exact h.distinct
  · rw [markActive, List.forall_mem_map]
    exact h.stamped
  · rw [markActive, List.forall_mem_map]
    intro v _
    simp [eq_comm]

/-- Exactly one version is active, unless there is none. -/
theorem exists_active (h : Coherent history last) (hFilled : history.versions ≠ []) :
    ∃ v, history.versions.filter Version.active = [v] ∧ history.active? = some v ∧
      last = some v.number := by
  obtain ⟨n, hStored, hLast⟩ := h.last_stored hFilled
  obtain ⟨v, hv, rfl⟩ := mem_numbers.mp hStored
  have hActive : ∀ w, w ∈ history.versions.filter Version.active ↔ w ∈ [v] := by
    intro w
    rw [List.mem_filter, List.mem_singleton]
    constructor
    · rintro ⟨hw, hOn⟩
      have hSame := Option.some.inj (hLast.symm.trans ((h.active_iff w hw).mp hOn))
      exact (List.inj_on_of_nodup_map h.distinct hv hw hSame).symm
    · rintro rfl
      exact ⟨hv, (h.active_iff w hv).mpr hLast⟩
  have hOne : history.versions.filter Version.active = [v] :=
    List.perm_singleton.mp <| (List.perm_ext_iff_of_nodup (h.distinct.of_map.filter _)
      (List.nodup_singleton v)).mpr hActive
  refine ⟨v, hOne, ?_, hLast⟩
  rw [active?, ← List.head?_filter, hOne]
  rfl

theorem only_active (h : Coherent history last) (hStored : stored ∈ history.versions)
    (hActive : stored.active = true) : history.versions.filter Version.active = [stored] := by
  obtain ⟨v, hOne, -⟩ := h.exists_active (List.ne_nil_of_mem hStored)
  have hMem : stored ∈ [v] := hOne ▸ List.mem_filter.mpr ⟨hStored, hActive⟩
  rw [hOne, List.mem_singleton.mp hMem]

end Coherent

end History
end Wireframe
