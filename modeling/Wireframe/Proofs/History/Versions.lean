import Wireframe.Proofs.History.Records

/-! The history through a row of calls. Whatever is asked for, in whatever order and with whatever
outcome, no record is lost or rewritten, numbers stay distinct, and the active version is the one
that was stored or activated last. -/
namespace Wireframe
namespace History

variable {σ : Type} {history after : History σ} {error : HistoryError}

inductive Call (σ : Type) where
  | append (version : Version σ)
  | activate (number : Int)
  | get (number : Int)
  | active
  | newest (limit : Option Int)
  | nextNumber

namespace Call

/-- The version that a call makes active where it succeeds. -/
def target? : Call σ → Option Int
  | .append version => some version.number
  | .activate number => some number
  | _ => none

/-- The history after a call, or why the call is refused. -/
def perform (history : History σ) : Call σ → Except HistoryError (History σ)
  | .append version => (history.append version).map Prod.snd
  | .activate number => (history.activate number).map Prod.snd
  | .get number => (history.get number).map fun _ => history
  | .active | .newest _ | .nextNumber => .ok history

/-- Why a call is refused, which the numbers tell before anything changes. -/
def refusal? (history : History σ) : Call σ → Option HistoryError
  | .append version =>
    if version.number ∈ history.numbers then some (.taken version.number) else none
  | .activate number | .get number =>
    if number ∈ history.numbers then none else some (.notFound number)
  | .active | .newest _ | .nextNumber => none

end Call

theorem map_eq_error_iff {α β : Type} {result : Except HistoryError α} {f : α → β} :
    result.map f = .error error ↔ result = .error error := by
  cases result <;> simp [Except.map]

theorem map_eq_ok_iff {α β : Type} {result : Except HistoryError α} {f : α → β} {b : β} :
    result.map f = .ok b ↔ ∃ a, result = .ok a ∧ f a = b := by
  cases result <;> simp [Except.map]

/-- Whether a call fails, and how, can be told from the numbers alone. -/
theorem perform_eq_error_iff {call : Call σ} :
    call.perform history = .error error ↔ call.refusal? history = some error := by
  cases call with
  | append version =>
      rw [Call.perform, Call.refusal?, map_eq_error_iff, append_eq_error_iff]
      split <;> simp_all [eq_comm]
  | activate number =>
      rw [Call.perform, Call.refusal?, map_eq_error_iff, activate_eq_error_iff]
      split <;> simp_all [eq_comm]
  | get number =>
      rw [Call.perform, Call.refusal?, map_eq_error_iff, get_eq_error_iff]
      split <;> simp_all [eq_comm]
  | active => simp [Call.perform, Call.refusal?]
  | newest limit => simp [Call.perform, Call.refusal?]
  | nextNumber => simp [Call.perform, Call.refusal?]

/-- A call that succeeds keeps the history coherent. -/
theorem Coherent.perform {last : Option Int} {call : Call σ} (h : Coherent history last)
    (hCall : call.perform history = .ok after) : Coherent after (call.target?.or last) := by
  cases call with
  | append version =>
      obtain ⟨⟨stored, after⟩, hAppend, rfl⟩ := map_eq_ok_iff.mp hCall
      exact h.append hAppend
  | activate number =>
      obtain ⟨⟨version, after⟩, hActivate, rfl⟩ := map_eq_ok_iff.mp hCall
      exact h.activate hActivate
  | get number =>
      obtain ⟨version, -, rfl⟩ := map_eq_ok_iff.mp hCall
      exact h
  | active | newest | nextNumber =>
      cases hCall
      exact h

/-- A call that succeeds keeps all records, in their order. -/
theorem records_perform {call : Call σ} (hCall : call.perform history = .ok after) :
    history.records <+: after.records := by
  cases call with
  | append version =>
      obtain ⟨⟨stored, after⟩, hAppend, rfl⟩ := map_eq_ok_iff.mp hCall
      exact ⟨_, (records_append hAppend).symm⟩
  | activate number =>
      obtain ⟨⟨version, after⟩, hActivate, rfl⟩ := map_eq_ok_iff.mp hCall
      obtain ⟨-, -, rfl, -⟩ := activate_eq_ok hActivate
      exact (records_markActive number).symm ▸ List.prefix_rfl
  | get number =>
      obtain ⟨version, -, rfl⟩ := map_eq_ok_iff.mp hCall
      exact List.prefix_rfl
  | active | newest | nextNumber =>
      cases hCall
      exact List.prefix_rfl

/-- A history and the number that a call made active last. -/
structure Tracked (σ : Type) where
  history : History σ
  last : Option Int

namespace Tracked

/-- The state after a call. A refused call changes nothing. -/
def step (state : Tracked σ) (call : Call σ) : Tracked σ :=
  match call.perform state.history with
  | .ok after => ⟨after, call.target?.or state.last⟩
  | .error _ => state

def run (state : Tracked σ) (calls : List (Call σ)) : Tracked σ := calls.foldl step state

/-- The step lemma: no call breaks the order of the records, a refused one included. -/
theorem coherent_step {state : Tracked σ} (h : Coherent state.history state.last) (call : Call σ) :
    Coherent (state.step call).history (state.step call).last := by
  rw [step]
  split
  · rename_i hCall
    exact h.perform hCall
  · exact h

/-- The run lemma, from the step lemma by induction over the calls. -/
theorem coherent_run {calls : List (Call σ)} : ∀ {state : Tracked σ},
    Coherent state.history state.last →
      Coherent (state.run calls).history (state.run calls).last := by
  induction calls with
  | nil => exact id
  | cons call rest ih => exact fun h => ih (coherent_step h call)

/-- A call only adds records at the end. -/
theorem records_step (state : Tracked σ) (call : Call σ) :
    state.history.records <+: (state.step call).history.records := by
  rw [step]
  split
  · rename_i hCall
    exact records_perform hCall
  · exact List.prefix_rfl

/-- Records are never changed or removed later on. -/
theorem records_run {calls : List (Call σ)} : ∀ {state : Tracked σ},
    state.history.records <+: (state.run calls).history.records := by
  induction calls with
  | nil => exact List.prefix_rfl
  | cons call rest ih => exact (records_step _ call).trans ih

/-- What is seen of a history in good order. -/
structure Orderly (state : Tracked σ) : Prop where
  distinct : state.history.numbers.Nodup
  one_active : state.history.versions ≠ [] → ∃ v, state.history.versions.filter Version.active = [v] ∧
    state.history.active? = some v ∧ state.last = some v.number
  stamped : ∀ v ∈ state.history.versions, v.created.isSome
  listed : (state.history.newest none).Perm state.history.versions
  descending : (state.history.newest none).Pairwise fun v w => w.number < v.number
  limited : ∀ limit, 0 ≤ limit →
    state.history.newest (some limit) = (state.history.newest none).take limit.toNat
  ahead : ∀ v ∈ state.history.versions, v.number < state.history.nextNumber

/-- What is seen of a history follows from the order of its records. -/
theorem orderly_of_coherent {state : Tracked σ} (h : Coherent state.history state.last) :
    Orderly state where
  distinct := h.distinct
  one_active := h.exists_active
  stamped := h.stamped
  listed := newest_perm
  descending := newest_descending h.distinct
  limited := fun _ => newest_limited
  ahead := fun _ => lt_nextNumber

/-- The history keeps its promises through any row of calls. It is in good order, it stores what it
is given with a stamp and keeps it from then on, and a call is refused exactly for a number that is
taken or unknown, which leaves everything, the clock included, as it was. -/
theorem orderly_run (clock : Nat → σ) (calls : List (Call σ)) :
    let state := run ⟨empty clock, none⟩ calls
    Orderly state ∧
      (∀ more, state.history.records <+: (state.run more).history.records) ∧
      (∀ version stored after, state.history.append version = .ok (stored, after) →
        stored = state.history.entered version ∧
          (state.step (.append version)).history.records =
            state.history.records ++ [stored.record]) ∧
      ∀ call error, (call.perform state.history = .error error ↔
          call.refusal? state.history = some error) ∧
        (call.perform state.history = .error error → state.step call = state) := by
  intro state
  refine ⟨orderly_of_coherent (coherent_run (coherent_empty clock)), fun _ => records_run,
    fun version stored after hAppend => ?_, fun call error => ⟨perform_eq_error_iff, fun hCall => ?_⟩⟩
  · have hCall : (Call.append version).perform state.history = .ok after := by
      rw [Call.perform, hAppend]
      rfl
    obtain ⟨-, hStored, -⟩ := append_eq_ok hAppend
    refine ⟨hStored, ?_⟩
    rw [step, hCall]
    exact records_append hAppend
  · rw [step, hCall]

def sampleVersion (number : Int) (created : Option Nat) : Version Nat :=
  ⟨number, "Create a page", ⟨"default", [], []⟩, "page".toList, "A page", created, false⟩

/-- Numbers out of order, a number that is taken, an unknown number, and a way back. -/
def sampleCalls : List (Call Nat) :=
  [.append (sampleVersion 7 none), .append (sampleVersion 2 (some 40)), .nextNumber,
    .append (sampleVersion 7 none), .activate 9, .activate 7, .get 2, .append (sampleVersion 4 none),
    .activate 2, .get 5, .newest (some 2), .active]

theorem orderly_run_sampleCalls :
    let state := run ⟨empty Nat.succ, none⟩ sampleCalls
    state.history.numbers = [7, 2, 4] ∧
      state.history.versions.map Version.created = [some 1, some 40, some 2] ∧
      state.last = some 2 ∧ Orderly state ∧
      state.history.newest (some 2) = (state.history.newest none).take 2 ∧
      (Call.append (sampleVersion 4 none)).perform state.history = .error (.taken 4) ∧
      state.step (.append (sampleVersion 4 none)) = state := by
  intro state
  obtain ⟨hOrderly, -, -, hRefused⟩ := orderly_run Nat.succ sampleCalls
  obtain ⟨hIff, hSame⟩ := hRefused (.append (sampleVersion 4 none)) (.taken 4)
  have hTaken := hIff.mpr rfl
  exact ⟨rfl, rfl, rfl, hOrderly, hOrderly.limited 2 (by decide), hTaken, hSame hTaken⟩

end Tracked

end History
end Wireframe
