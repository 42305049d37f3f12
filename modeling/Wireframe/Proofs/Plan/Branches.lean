import Wireframe.Plan.Planner

/-! What a row of branches does and writes. The forests and the logs of rows compose, each entry of
the log of a plan was written by one of the branches that the instruction takes, and a branch always
writes in the same words. -/
namespace Wireframe

namespace Branch

open Step

@[simp] theorem steps_nil : steps [] = Step.none := rfl

@[simp] theorem steps_singleton (branch : Branch) : steps [branch] = branch.step := by
  funext forest
  simp [steps, Step.sequence, Step.none]

theorem steps_cons (branch : Branch) (rest : List Branch) (forest : Forest) :
    steps (branch :: rest) forest =
      ((steps rest (branch.step forest).1).1,
        (branch.step forest).2 ++ (steps rest (branch.step forest).1).2) := rfl

/-- Rows in sequence are one row; this lets each condition of an instruction be treated on its own. -/
theorem steps_append (first last : List Branch) :
    steps (first ++ last) = Step.sequence [steps first, steps last] := by
  induction first with
  | nil =>
      funext forest
      simp [Step.sequence, Step.none]
  | cons branch first ih =>
      funext forest
      have hForest := congrFun ih (branch.step forest).1
      simp only [steps, Step.sequence, List.cons_append, List.map_cons, Step.none,
        List.append_nil] at hForest ⊢
      rw [hForest]
      simp

section

variable {p : Branch → Prop}

/-- What holds of the branches of a row has to hold of one that is taken under a condition only if the
condition is true. -/
theorem forall_mem_given {condition : Bool} {branches : List Branch} :
    (∀ branch ∈ given condition branches, p branch) ↔
      (condition = true → ∀ branch ∈ branches, p branch) := by
  cases condition <;> simp [given]

/-- A branch that needs a value is taken for the value that was read, if any. -/
theorem forall_mem_forValue {value : Option String} {branches : String → List Branch} :
    (∀ branch ∈ forValue value branches, p branch) ↔
      ∀ s ∈ value, ∀ branch ∈ branches s, p branch := by
  cases value <;> simp [forValue]

/-- A move takes at most one branch, for the first target the instruction mentions. -/
theorem forall_mem_move {i : Instruction}
    (h : ∀ target ∈ moveTargets, p (.moveButton target.2.1 target.2.2)) :
    ∀ branch ∈ move i, p branch := by
  rw [move]
  split
  · rename_i hTarget
    exact List.forall_mem_singleton.mpr (h _ (List.mem_of_find?_eq_some hTarget))
  · exact List.forall_mem_nil _

/-- A replacement takes at most one branch, for one of two kinds. -/
theorem forall_mem_replace {i : Instruction} (hTable : p .replaceTable)
    (hChart : p .replaceChart) : ∀ branch ∈ replace i, p branch := by
  rw [replace]
  split
  · split
    · exact List.forall_mem_singleton.mpr hTable
    · exact List.forall_mem_singleton.mpr hChart
  · exact List.forall_mem_nil _

end

/-- The branches with the entries that each of them writes, in the order of the log. -/
def writings : List Branch → Forest → List (Branch × String)
  | [], _ => []
  | branch :: rest, forest =>
    (branch.step forest).2.map (fun written => (branch, written))
      ++ writings rest (branch.step forest).1

/-- The log of branches is what they write. -/
theorem map_snd_writings (branches : List Branch) (forest : Forest) :
    (writings branches forest).map Prod.snd = (steps branches forest).2 := by
  induction branches generalizing forest with
  | nil => rfl
  | cons branch rest ih =>
      have hRest := ih (branch.step forest).1
      rw [writings, List.map_append, hRest]
      simp [steps, Step.sequence, Function.comp_def]

/-- A step that logs nothing but one entry, as often as it may. -/
def Logs (entry : String) (step : Step) : Prop :=
  ∀ forest, ∀ written ∈ (step forest).2, written = entry

/-- An edit that may be impossible logs its entry or nothing. -/
theorem logs_whenPossible (change : Forest → Option Forest) (entry : String) :
    Logs entry (whenPossible change entry) := by
  intro forest written hWritten
  rw [whenPossible] at hWritten
  split at hWritten
  · exact List.mem_singleton.mp hWritten
  · cases hWritten

theorem logs_of_if {entry : String} {step : Step} {condition : Forest → Prop}
    [DecidablePred condition]
    (h : ∀ forest, (step forest).2 = if condition forest then [entry] else []) :
    Logs entry step := by
  intro forest written hWritten
  rw [h] at hWritten
  split at hWritten
  · exact List.mem_singleton.mp hWritten
  · cases hWritten

theorem logs_setProp (kind : Kind) (key : String) (value : Value) (entry : String) :
    Logs entry (setProp kind key value entry) :=
  logs_of_if fun _ => rfl

/-- Setting a prop everywhere logs the same words for each component it sets. -/
theorem logs_setEachProp (kind : Kind) (key : String) (value : Value) (entry : String) :
    Logs entry (setEachProp kind key value entry) := by
  intro forest written hWritten
  obtain ⟨-, -, hEntry⟩ := List.mem_map.mp hWritten
  exact hEntry.symm

theorem logs_always {entry : String} {step : Step} (h : ∀ forest, (step forest).2 = [entry]) :
    Logs entry step := by
  intro forest written hWritten
  rw [h] at hWritten
  exact List.mem_singleton.mp hWritten

/-- A branch writes its own entry only. -/
theorem logs_step (branch : Branch) : Logs branch.entry branch.step := by
  cases branch with
  | addTable | addChart | addModal | clear => exact logs_always fun _ => rfl
  | removeInputs =>
      intro forest written hWritten
      simp only [step, Step.removeInputs] at hWritten
      split at hWritten
      · cases hWritten
      · exact List.mem_singleton.mp hWritten
  | labelButtons | setVariant | renameButtons | renameFields => exact logs_setProp _ _ _ _
  | titleCards | titleNavbars | setColumns | setChartType | setPlaceholders =>
      exact logs_setEachProp _ _ _ _
  | renameTitles => exact logs_of_if fun _ => rfl
  | _ => exact logs_whenPossible _ _

/-- An entry of the log is in the words of a branch that was taken. -/
theorem mem_writings {branches : List Branch} {forest : Forest} {writing : Branch × String}
    (h : writing ∈ writings branches forest) :
    writing.1 ∈ branches ∧ writing.2 = writing.1.entry := by
  induction branches generalizing forest with
  | nil => cases h
  | cons branch rest ih =>
      rw [writings, List.mem_append] at h
      rcases h with hHere | hLater
      · obtain ⟨written, hWritten, rfl⟩ := List.mem_map.mp hHere
        exact ⟨List.mem_cons_self, logs_step branch forest written hWritten⟩
      · obtain ⟨hMem, hEntry⟩ := ih hLater
        exact ⟨List.mem_cons_of_mem _ hMem, hEntry⟩

end Branch

namespace Plan

/-- An instruction on a previous plan takes the branches of its verb. -/
theorem branches_of_verb {instruction : Instruction} {verb : Verb}
    (h : Verb.of? instruction = some verb) (previous : Plan) :
    branches instruction previous = Branch.ofVerb previous.layout instruction verb := by
  rw [branches, h]

/-- A branch is taken for the verb of the instruction and for no other reason. -/
theorem exists_verb_of_mem_branches {instruction : Instruction} {previous : Plan} {branch : Branch}
    (h : branch ∈ branches instruction previous) :
    ∃ verb, Verb.of? instruction = some verb ∧
      branch ∈ Branch.ofVerb previous.layout instruction verb := by
  rw [branches] at h
  split at h
  · rename_i verb hVerb
    exact ⟨verb, hVerb, h⟩
  · cases h

/-- What the branches of an instruction write on top of a plan, if there is one. -/
def writings (instruction : Instruction) : Option Plan → List (Branch × String)
  | some previous => Branch.writings (branches instruction previous) previous.components
  | none => []

/-- The plan for an instruction is what its branches make of the plan before. -/
theorem next_some (instruction : Instruction) (previous : Plan) :
    next instruction (some previous) =
      let done := Branch.steps (branches instruction previous) previous.components
      ⟨previous.layout, done.1, done.2⟩ := rfl

/-- The log of a new plan is what the branches have written. -/
theorem modifications_next (instruction : Instruction) (previous : Option Plan) :
    (next instruction previous).modifications =
      (writings instruction previous).map Prod.snd := by
  cases previous with
  | none =>
      rw [next, create]
      split <;> rfl
  | some previous => rw [next_some, writings, Branch.map_snd_writings]

end Plan
end Wireframe
