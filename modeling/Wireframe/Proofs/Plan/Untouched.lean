import Wireframe.Proofs.Page.TreeEdits
import Wireframe.Proofs.Plan.Branches

/-! What an empty log says. A branch of the planner that changes a forest writes an entry, so that a
plan without entries has the components of the plan before it. -/
namespace Wireframe

namespace Forest

variable {kind : Kind} {forest : Forest}

/-- Where nothing is counted, nothing was removed. -/
theorem dropAll_of_count_eq_zero (h : (dropAll kind forest).2 = 0) :
    (dropAll kind forest).1 = forest := by
  induction forest using Forest.induction with
  | nil => rfl
  | cons c rest hChildren hRest =>
      obtain ⟨k, props, children, source⟩ := c
      rw [dropAll_cons] at h ⊢
      by_cases hKind : k = kind
      · simp [hKind] at h
      · simp only [hKind, if_false, Nat.add_eq_zero_iff] at h
        simp [hKind, hChildren h.1, hRest h.2, Component.withChildren]

/-- Setting a prop of a kind that the forest does not have sets nothing. -/
theorem setAll_of_not_hasKind (key : String) (value : Value) (h : hasKind kind forest = false) :
    setAll kind key value forest = forest := by
  induction forest using Forest.induction with
  | nil => rfl
  | cons c rest hChildren hRest =>
      simp only [hasKind_cons, Bool.or_eq_false_iff, beq_eq_false_iff_ne] at h
      obtain ⟨hKind, hBelow, hLater⟩ := h
      obtain ⟨k, props, children, source⟩ := c
      rw [setAll_cons, if_neg hKind, hChildren hBelow, hRest hLater]

theorem not_hasKind_of_ofKind_eq_nil (h : ofKind kind forest = []) : hasKind kind forest = false := by
  rw [hasKind, List.any_eq_false]
  exact List.filter_eq_nil_iff.mp h

end Forest

namespace Step

/-- The step does not change a forest without saying so. -/
def Candid (step : Step) : Prop :=
  ∀ forest, (step forest).2 = [] → (step forest).1 = forest

theorem candid_none : Candid none :=
  fun _ _ => rfl

theorem candid_of_logs {step : Step} (h : ∀ forest, (step forest).2 ≠ []) : Candid step :=
  fun forest hNil => absurd hNil (h forest)

/-- An edit that may be impossible logs itself when it is not. -/
theorem candid_whenPossible (change : Forest → Option Forest) (entry : String) :
    Candid (whenPossible change entry) := by
  intro forest hNil
  rw [whenPossible] at hNil ⊢
  cases hChange : change forest with
  | none => rfl
  | some edited => simp [hChange] at hNil

/-- Props are set exactly when there is a component of the kind, and that is logged. -/
theorem candid_setProp (kind : Kind) (key : String) (value : Value) (entry : String) :
    Candid (setProp kind key value entry) := by
  intro forest hNil
  cases hKind : Forest.hasKind kind forest with
  | true => simp [setProp, hKind] at hNil
  | false => exact Forest.setAll_of_not_hasKind key value hKind

/-- One entry is logged for each component that is set. -/
theorem candid_setEachProp (kind : Kind) (key : String) (value : Value) (entry : String) :
    Candid (setEachProp kind key value entry) := by
  intro forest hNil
  have hNone := Forest.not_hasKind_of_ofKind_eq_nil (List.map_eq_nil_iff.mp hNil)
  exact Forest.setAll_of_not_hasKind key value hNone

/-- The count that decides about the entry is the number of inputs cut off. -/
theorem candid_removeInputs (entry : String) : Candid (removeInputs entry) := by
  intro forest hNil
  apply Forest.dropAll_of_count_eq_zero
  by_contra hCount
  simp [removeInputs, hCount] at hNil

/-- Two kinds are renamed at once, and either of them is reason to log. -/
theorem candid_renameTitles (name entry : String) : Candid (renameTitles name entry) := by
  intro forest hNil
  have hKinds : Forest.hasKind .card forest = false ∧ Forest.hasKind .navbar forest = false := by
    rw [← Bool.or_eq_false_iff, ← Bool.not_eq_true]
    intro hSome
    simp [renameTitles, hSome] at hNil
  rw [renameTitles, Forest.setAll_of_not_hasKind _ _ hKinds.1,
    Forest.setAll_of_not_hasKind _ _ hKinds.2]

end Step

namespace Branch

open Step

/-- No branch changes a forest without an entry. -/
theorem candid_step (branch : Branch) : Candid branch.step := by
  cases branch with
  | addTable | addChart | addModal | clear => exact candid_of_logs fun _ => List.cons_ne_nil _ _
  | removeInputs => exact candid_removeInputs _
  | labelButtons | setVariant | renameButtons | renameFields => exact candid_setProp _ _ _ _
  | titleCards | titleNavbars | setColumns | setChartType | setPlaceholders =>
      exact candid_setEachProp _ _ _ _
  | renameTitles name => exact candid_renameTitles name _
  | _ => exact candid_whenPossible _ _

/-- A row of branches that leaves the log empty leaves the forest as it is. -/
theorem candid_steps (branches : List Branch) : Candid (steps branches) := by
  induction branches with
  | nil => exact candid_none
  | cons branch rest ih =>
      intro forest hNil
      rw [steps_cons] at hNil ⊢
      obtain ⟨hHere, hLater⟩ := List.append_eq_nil_iff.mp hNil
      rw [candid_step branch forest hHere] at hLater ⊢
      exact ih forest hLater

/-- A branch that changes the forest which the ones before it left has its entry in the log. -/
theorem entry_mem_of_changes {first last : List Branch} {branch : Branch} {forest : Forest}
    (h : (branch.step (steps first forest).1).1 ≠ (steps first forest).1) :
    branch.entry ∈ (steps (first ++ branch :: last) forest).2 := by
  have hLogs : (branch.step (steps first forest).1).2 ≠ [] :=
    fun hNil => h (candid_step branch _ hNil)
  obtain ⟨written, rest, hWritten⟩ := List.exists_cons_of_ne_nil hLogs
  have hEntry : branch.entry ∈ (branch.step (steps first forest).1).2 := by
    have hHead : written ∈ (branch.step (steps first forest).1).2 := by simp [hWritten]
    exact logs_step branch _ written hHead ▸ hHead
  rw [steps_append]
  simp only [Step.sequence, steps_cons, List.mem_append]
  exact .inr (.inl (.inl hEntry))

end Branch

namespace Plan

/-- An empty log means an untouched plan. An instruction keeps the layout of a plan; if the new log
is empty, it keeps the components as well. Each of its branches either leaves the forest that it
meets as it is or has its entry in the log. The log of the plan before makes no difference. -/
theorem components_of_modifications_nil (instruction : Instruction) (previous : Plan) :
    (modify instruction previous).layout = previous.layout ∧
      ((modify instruction previous).modifications = [] →
        (modify instruction previous).components = previous.components) ∧
      ((modify instruction previous).components =
          (Branch.steps (branches instruction previous) previous.components).1 ∧
        ∀ first branch last, branches instruction previous = first ++ branch :: last →
          let met := (Branch.steps first previous.components).1
          (branch.step met).1 = met ∨ branch.entry ∈ (modify instruction previous).modifications) ∧
      ∀ log, modify instruction { previous with modifications := log } =
        modify instruction previous := by
  have hModify : modify instruction previous = ⟨previous.layout,
      (Branch.steps (branches instruction previous) previous.components).1,
      (Branch.steps (branches instruction previous) previous.components).2⟩ :=
    next_some instruction previous
  rw [hModify]
  refine ⟨rfl, Branch.candid_steps _ _, ⟨rfl, ?_⟩, fun log => ?_⟩
  · intro first branch last hBranches met
    refine or_iff_not_imp_left.mpr fun hChanges => ?_
    rw [hBranches]
    exact Branch.entry_mem_of_changes hChanges
  · rw [← hModify]
    rfl

/-- A card without a button, in a plan whose log names one. -/
def loggedPlan : Plan :=
  ⟨"single", [⟨.card, [("title", .text "Users")], [], none⟩], ["Added button \"Save\""]⟩

theorem components_of_modifications_nil_loggedPlan :
    let moving := "Move the button to the card".toList
    let clearing := "Remove the button and all other inputs".toList
    (modify moving loggedPlan).modifications = [] ∧
      (modify moving loggedPlan).components = loggedPlan.components ∧
      "Reset to empty state" ∈ (modify clearing loggedPlan).modifications := by
  intro moving clearing
  have hLog : (modify moving loggedPlan).modifications = [] := by decide +kernel
  have hBranches : branches clearing loggedPlan =
      [.removeButton, .removeInputs] ++ .clear :: [] := by decide +kernel
  obtain ⟨-, hKept, -, -⟩ := components_of_modifications_nil moving loggedPlan
  obtain ⟨-, -, ⟨-, hEntries⟩, -⟩ := components_of_modifications_nil clearing loggedPlan
  refine ⟨hLog, hKept hLog, (hEntries _ _ _ hBranches).resolve_left fun hSame => ?_⟩
  have hButton := congrArg (Forest.hasKind .button) hSame
  exact absurd hButton (by decide)

end Plan
end Wireframe
