import Wireframe.Plan.Branch

/-! Steps that preserve a form of forests. A row of branches preserves it if each branch does. The steps
that put a component somewhere preserve a form as soon as the edits that they are made of do. -/
namespace Wireframe
namespace Step

/-- A forest of the form has it after the step as well. -/
def Preserves (form : Forest → Prop) (step : Step) : Prop :=
  ∀ forest, form forest → form (step forest).1

variable {form : Forest → Prop}

theorem preserves_none : Preserves form none :=
  fun _ h => h

/-- What every branch of a row preserves, the row preserves. -/
theorem preserves_steps {branches : List Branch}
    (h : ∀ branch ∈ branches, Preserves form branch.step) :
    Preserves form (Branch.steps branches) := by
  induction branches with
  | nil => exact preserves_none
  | cons branch rest ih =>
      obtain ⟨hHere, hRest⟩ := List.forall_mem_cons.mp h
      exact fun forest hForest => ih hRest _ (hHere forest hForest)

/-- An edit that may be impossible leaves the forest alone when it is. -/
theorem preserves_whenPossible {change : Forest → Option Forest} {entry : String}
    (h : ∀ forest, form forest → ∀ edited ∈ change forest, form edited) :
    Preserves form (whenPossible change entry) := by
  intro forest hForest
  rw [whenPossible]
  split
  · rename_i edited hEdited
    exact h forest hForest edited hEdited
  · exact hForest

/-- A button goes into the first card, or else into the first navbar, so only these two edits have
to keep the form. -/
theorem preserves_addButton {label entry : String}
    (hAdd : ∀ kind ∈ [Kind.card, .navbar], ∀ forest, form forest →
      ∀ edited ∈ addTo kind (Template.button label) forest, form edited) :
    Preserves form (addButton label entry) := by
  apply preserves_whenPossible
  intro forest hForest edited hEdited
  rcases Option.or_eq_some_iff.mp hEdited with hCard | ⟨-, hNavbar⟩
  · exact hAdd .card (by decide) forest hForest edited hCard
  · exact hAdd .navbar (by decide) forest hForest edited hNavbar

/-- In a dashboard a table becomes a root, and elsewhere it goes into the first card, if there is
one. -/
theorem preserves_addTable {layout entry : String}
    (hRoot : ∀ forest, form forest → form (addRoot newTable forest))
    (hAdd : ∀ forest, form forest → ∀ edited ∈ addTo .card newTable forest, form edited) :
    Preserves form (addTable layout entry) := by
  intro forest hForest
  rw [addTable]
  dsimp only
  split
  · exact hRoot forest hForest
  · cases hCard : addTo .card newTable forest with
    | none => exact hRoot forest hForest
    | some edited => exact hAdd forest hForest edited hCard

/-- A moved button is taken out first. It may then be lost, or put into another component. -/
theorem preserves_moveButton {kind : Kind} {entry : String}
    (hDrop : ∀ forest, form forest → ∀ rest ∈ Forest.dropFirst? .button forest, form rest)
    (hAdd : ∀ forest, form forest → ∀ button ∈ Forest.first? .button forest,
      ∀ rest, form rest → ∀ edited ∈ addTo kind button rest, form edited) :
    Preserves form (whenPossible (moveButton? kind) entry) := by
  apply preserves_whenPossible
  intro forest hForest edited hEdited
  rw [Option.mem_def, moveButton?] at hEdited
  split at hEdited
  · rename_i button hButton _
    obtain ⟨rest, hRest, rfl⟩ := Option.map_eq_some_iff.mp hEdited
    have hLeft := hDrop forest hForest rest hRest
    split
    · exact hLeft
    · cases hAdded : addTo kind button rest with
      | none => exact hLeft
      | some added => exact hAdd forest hForest button hButton rest hLeft added hAdded
  · cases hEdited

/-- A root that is replaced leaves the other roots of the forest. -/
theorem preserves_replaceRoot {kind : Kind} {replacement : Component} {entry : String}
    (hSet : ∀ forest, form forest → ∀ edited : Forest,
      (∀ c ∈ edited, c ∈ forest ∨ c = replacement) → form edited) :
    Preserves form (replaceRoot kind replacement entry) := by
  apply preserves_whenPossible
  intro forest hForest edited hEdited
  obtain ⟨index, -, rfl⟩ := Option.map_eq_some_iff.mp hEdited
  exact hSet forest hForest _ fun c hc => List.mem_or_eq_of_mem_set hc

end Step
end Wireframe
