import Wireframe.Proofs.Pipeline.Runs
import Wireframe.Proofs.Plan.Admission
import Wireframe.Proofs.Plan.Drafts
import Wireframe.Proofs.Plan.Preserving

/-! Planning keeps plans valid. Fresh plans pass the check, and a branch only adds components from
templates, takes components out, moves them and sets props to texts or lists of texts, so that a
plan that passes is followed by plans that pass. -/
namespace Wireframe

open Forest

/-- Texts have no depth, so a text passes under any key that is no style key. -/
theorem isAdmitted_text {key : String} (hKey : key ∉ Plan.styleKeys) (s : String) :
    IsAdmitted (key, .text s) :=
  ⟨hKey, rfl⟩

/-- Column names are set as a list of texts, which is one level deep. -/
theorem isAdmitted_texts {key : String} (hKey : key ∉ Plan.styleKeys) (texts : List String) :
    IsAdmitted (key, .list (texts.map .text)) := by
  refine ⟨hKey, Value.itemTooDeep?_eq_none.mpr fun v hv => ?_⟩
  obtain ⟨s, -, rfl⟩ := List.mem_map.mp hv
  rfl

namespace Forest

variable {forest : Forest}

/-- A component taken out of an admitted forest is admitted with all that is below it. -/
theorem Admitted.of_mem_walk {c : Component} (h : Admitted forest) (hc : c ∈ walk forest) :
    Admitted [c] := by
  induction forest using Forest.induction with
  | nil => cases hc
  | cons d rest hChildren hRest =>
      obtain ⟨hProps, hBelow, hLater⟩ := admitted_cons.mp h
      rw [walk_cons, List.mem_cons, List.mem_append] at hc
      rcases hc with rfl | hc | hc
      · exact admitted_cons.mpr ⟨hProps, hBelow, by simp [Admitted]⟩
      · exact hChildren hBelow hc
      · exact hRest hLater hc

/-- Whether a forest is admitted depends on its roots one by one. -/
theorem admitted_iff : Admitted forest ↔ ∀ c ∈ forest, Admitted [c] := by
  induction forest with
  | nil => simp [Admitted]
  | cons c rest ih =>
      rw [← List.singleton_append, admitted_append, ih, List.singleton_append,
        List.forall_mem_cons]

/-- Removing a component leaves the props of the others. -/
theorem Admitted.dropFirst? {kind : Kind} {edited : Forest} (h : Admitted forest)
    (hDrop : Forest.dropFirst? kind forest = some edited) : Admitted edited := by
  intro c hc
  obtain ⟨d, hd, -, hProps, -⟩ := walk_of_dropFirst? hDrop c hc
  exact hProps ▸ h d hd

/-- Giving a child to a component does not touch props. -/
theorem Admitted.addTo {kind : Kind} {child : Component} {edited : Forest} (h : Admitted forest)
    (hChild : Admitted [child]) (hAdd : Step.addTo kind child forest = some edited) :
    Admitted edited := by
  induction forest using Forest.induction generalizing edited with
  | nil => cases hAdd
  | cons c rest hBelow hLater =>
      obtain ⟨hProps, hChildren, hRest⟩ := admitted_cons.mp h
      rw [Step.addTo, updateFirst?_cons] at hAdd
      split at hAdd
      · cases hAdd
        exact admitted_cons.mpr ⟨hProps, admitted_append.mpr ⟨hChildren, hChild⟩, hRest⟩
      · split at hAdd
        · rename_i children hFound
          cases hAdd
          exact admitted_cons.mpr ⟨hProps, hBelow hChildren hFound, hRest⟩
        · obtain ⟨others, hFound, rfl⟩ := Option.map_eq_some_iff.mp hAdd
          exact admitted_cons.mpr ⟨hProps, hChildren, hLater hRest hFound⟩

/-- Removing all components of a kind leaves the props of the others. -/
theorem Admitted.dropAll (kind : Kind) (h : Admitted forest) :
    Admitted (Forest.dropAll kind forest).1 := by
  induction forest using Forest.induction with
  | nil => exact h
  | cons c rest hBelow hLater =>
      obtain ⟨hProps, hChildren, hRest⟩ := admitted_cons.mp h
      rw [dropAll_cons]
      split
      · exact hLater hRest
      · exact admitted_cons.mpr ⟨hProps, hBelow hChildren, hLater hRest⟩

/-- A prop that passes the check can be set on every component of a kind. -/
theorem Admitted.setAll {key : String} {value : Value} (hEntry : IsAdmitted (key, value))
    (kind : Kind) (h : Admitted forest) : Admitted (Forest.setAll kind key value forest) := by
  induction forest using Forest.induction with
  | nil => exact h
  | cons c rest hBelow hLater =>
      obtain ⟨hProps, hChildren, hRest⟩ := admitted_cons.mp h
      rw [setAll_cons]
      refine admitted_cons.mpr ⟨fun entry hMem => ?_, hBelow hChildren, hLater hRest⟩
      dsimp only at hMem
      split at hMem
      · rcases Props.mem_set hMem with rfl | hMem
        · exact hEntry
        · exact hProps entry hMem
      · exact hProps entry hMem

end Forest

namespace Template

/-- A component without children is judged by its own props. -/
theorem admitted_leaf {kind : Kind} {props : Props} (h : ∀ entry ∈ props, IsAdmitted entry) :
    Admitted [Component.leaf kind props] :=
  admitted_cons.mpr ⟨h, by simp [Component.leaf, Admitted], by simp [Admitted]⟩

theorem admitted_button (text : String) : Admitted [button text] :=
  admitted_leaf <| List.forall_mem_cons.mpr
    ⟨isAdmitted_text (by decide) _, List.forall_mem_singleton.mpr (isAdmitted_text (by decide) text)⟩

/-- Captions of the templates pass under their keys whatever they say. -/
theorem admitted_labeledInput (placeholder label : String) :
    Admitted [labeledInput placeholder label] :=
  admitted_leaf <| List.forall_mem_cons.mpr ⟨isAdmitted_text (by decide) placeholder,
    List.forall_mem_singleton.mpr (isAdmitted_text (by decide) label)⟩

theorem admitted_chart (type : String) (title : Option String) :
    Admitted [chart type title [("data", .list [])]] := by
  have hTitle : ∀ entry ∈ (title.map fun title => ("title", Value.text title)).toList,
      IsAdmitted entry := by
    intro entry hEntry
    obtain ⟨s, -, rfl⟩ := Option.map_eq_some_iff.mp (Option.mem_toList.mp hEntry)
    exact isAdmitted_text (by decide) s
  exact admitted_leaf <| List.forall_mem_cons.mpr ⟨isAdmitted_text (by decide) type,
    List.forall_mem_append.mpr ⟨hTitle, by decide⟩⟩

/-- The title is the only text of the dialog that is read off an instruction. -/
theorem admitted_modalDialog (title : String) : Admitted (modalDialog title) := by
  have hProps : ∀ entry ∈ (modal title []).props, IsAdmitted entry :=
    List.forall_mem_cons.mpr ⟨by decide, List.forall_mem_singleton.mpr
      (isAdmitted_text (by decide) title)⟩
  have hForm : Admitted [card none [labeledInput "Enter details" "Details", button "Submit"]] := by
    decide
  exact @admitted_append [button "Open Modal"] _ |>.mpr ⟨admitted_button "Open Modal",
    admitted_cons.mpr ⟨hProps, hForm, by simp [Admitted]⟩⟩

end Template

namespace Step

open Template

/-- The button comes from a template, and the card or navbar that takes it keeps its props. -/
theorem admitted_addButton (label entry : String) : Preserves Admitted (addButton label entry) :=
  preserves_addButton fun _ _ _ hForest _ hAdd => hForest.addTo (admitted_button label) hAdd

/-- The input comes from a template, and its card keeps its props. -/
theorem admitted_addInput (placeholder label entry : String) :
    Preserves Admitted (addInput placeholder label entry) :=
  preserves_whenPossible fun _ hForest _ hEdited =>
    hForest.addTo (admitted_labeledInput placeholder label) hEdited

/-- The table has fixed columns, whether it goes into a card or to the roots. -/
theorem admitted_addTable (layout entry : String) : Preserves Admitted (addTable layout entry) := by
  have hTable : Admitted [newTable] := by decide
  apply preserves_addTable
  · exact fun _ hForest => admitted_append.mpr ⟨hForest, hTable⟩
  · exact fun _ hForest _ hAdd => hForest.addTo hTable hAdd

theorem admitted_removeFirst (kind : Kind) (entry : String) :
    Preserves Admitted (removeFirst kind entry) :=
  preserves_whenPossible fun _ hForest _ hEdited => hForest.dropFirst? hEdited

/-- No branch sets a style key, and what it sets is a text or a list of texts. -/
theorem admitted_setProp {key : String} {value : Value} (h : IsAdmitted (key, value)) (kind : Kind)
    (entry : String) : Preserves Admitted (setProp kind key value entry) :=
  fun _ hForest => hForest.setAll h kind

theorem admitted_setEachProp {key : String} {value : Value} (h : IsAdmitted (key, value))
    (kind : Kind) (entry : String) : Preserves Admitted (setEachProp kind key value entry) :=
  fun _ hForest => hForest.setAll h kind

/-- The button passed the check where it stood, and passes it where it goes. -/
theorem admitted_moveButton (kind : Kind) (entry : String) :
    Preserves Admitted (whenPossible (moveButton? kind) entry) := by
  apply preserves_moveButton
  · exact fun _ hForest _ hDrop => hForest.dropFirst? hDrop
  · intro forest hForest button hButton rest hRest edited hAdd
    exact hRest.addTo (hForest.of_mem_walk (List.mem_of_find?_eq_some hButton)) hAdd

theorem admitted_replaceRoot {replacement : Component} (h : Admitted [replacement]) (kind : Kind)
    (entry : String) : Preserves Admitted (replaceRoot kind replacement entry) := by
  apply preserves_replaceRoot
  intro forest hForest edited hRoots
  refine admitted_iff.mpr fun c hc => ?_
  rcases hRoots c hc with hOld | rfl
  · exact admitted_iff.mp hForest c hOld
  · exact h

end Step

namespace Branch

open Step

/-- No branch can make a plan that the check refuses, whatever texts it takes from an instruction: a
text is neither a prop for styling nor too deep. -/
theorem admitted_step (branch : Branch) : Preserves Admitted branch.step := by
  have hEmpty : Admitted Template.emptyState := by decide
  cases branch with
  | addButton label => exact admitted_addButton label _
  | addInput placeholder label => exact admitted_addInput placeholder label _
  | addTable layout => exact admitted_addTable layout _
  | addChart type title =>
      exact fun _ hForest => admitted_append.mpr ⟨hForest, Template.admitted_chart type title⟩
  | addModal title =>
      exact fun _ hForest => admitted_append.mpr ⟨hForest, Template.admitted_modalDialog title⟩
  | removeButton | removeTable | removeChart | removeModal => exact admitted_removeFirst _ _
  | removeInputs => exact fun _ hForest => hForest.dropAll .input
  | clear => exact fun _ _ => hEmpty
  | labelButtons text | setVariant text | renameButtons text | renameFields text =>
      exact admitted_setProp (isAdmitted_text (by decide) text) _ _
  | titleCards text | titleNavbars text | setChartType text | setPlaceholders text =>
      exact admitted_setEachProp (isAdmitted_text (by decide) text) _ _
  | setColumns columns => exact admitted_setEachProp (isAdmitted_texts (by decide) columns) _ _
  | moveButton kind name => exact admitted_moveButton kind _
  | replaceTable | replaceChart => exact admitted_replaceRoot (by decide) _ _
  | renameTitles name =>
      have hTitle := isAdmitted_text (by decide : "title" ∉ Plan.styleKeys) name
      exact fun _ hForest => (hForest.setAll hTitle .card).setAll hTitle .navbar

end Branch

namespace Plan

/-- Fresh plans come from templates that pass as they are. -/
theorem admitted_create (i : Instruction) : (create i).Admitted := by
  have hFresh : ∀ entry ∈ freshPlans,
      Text.allBlank entry.2.1.toList = false ∧ entry.2.2.Admitted := by decide +kernel
  rw [create]
  split
  · rename_i hFind
    exact ⟨(hFresh _ (List.mem_of_find?_eq_some hFind)).1,
      (hFresh _ (List.mem_of_find?_eq_some hFind)).2⟩
  · exact ⟨by decide +kernel, by decide +kernel⟩

/-- An instruction on an admitted plan: each of its branches keeps the components admitted, and the
layout stays. -/
theorem Admitted.modify {previous : Plan} (h : previous.Admitted) (i : Instruction) :
    (modify i previous).Admitted :=
  ⟨h.layout, Step.preserves_steps (fun branch _ => branch.admitted_step) _ h.components⟩

theorem admitted_next {previous : Option Plan} (h : ∀ plan ∈ previous, plan.Admitted)
    (i : Instruction) : (next i previous).Admitted := by
  cases previous with
  | none => exact admitted_create i
  | some previous => exact (h previous rfl).modify i

/-- By induction over the instructions, every plan of the chain is admitted. -/
theorem admitted_of_mem_chain {instructions : List Instruction} :
    ∀ {previous : Option Plan}, (∀ plan ∈ previous, plan.Admitted) →
      ∀ plan ∈ chain instructions previous, plan.Admitted := by
  induction instructions with
  | nil => exact fun _ _ hMem => absurd hMem List.not_mem_nil
  | cons i rest ih =>
      intro previous hPrevious plan hPlan
      have hNext := admitted_next hPrevious i
      rcases List.mem_cons.mp hPlan with rfl | hPlan
      · exact hNext
      · exact ih (fun other hOther => Option.mem_some.mp hOther ▸ hNext) plan hPlan

/-- Planning keeps plans valid. Whatever the instructions are, a chain that starts from nothing or
from a plan that passes the check goes only through plans that pass it, and a run is refused for its
plan only if the check refuses the plan it started from. -/
theorem validate_of_mem_chain :
    (∀ (instructions : List Instruction) (previous : Option Plan),
        (∀ plan ∈ previous, validate plan = .ok plan) →
        ∀ plan ∈ chain instructions previous, validate plan = .ok plan) ∧
      ∀ (settings : Settings) (intent : Value) (previous : Option Plan) (code : Option Text)
        (error : PlanError),
        (Pipeline.run settings intent previous code).1 = .error (.plan error) →
        ∃ plan ∈ previous, ∃ cause, validate plan = .error cause := by
  simp only [validate_eq_ok_iff]
  refine ⟨fun _ _ hPrevious => admitted_of_mem_chain hPrevious,
    fun settings intent previous code error hRun => ?_⟩
  obtain ⟨request, -, hRefused⟩ := Pipeline.refused_of_run hRun
  by_contra hNone
  -- Otherwise the previous plan is admitted, and so is the plan made of it, which was refused.
  have hPrevious : ∀ plan ∈ previous, plan.Admitted := fun plan hPlan => by_contra fun hBad =>
    hNone ⟨plan, hPlan, exists_error_of_not_admitted hBad⟩
  rw [validate_eq_ok_iff.mpr (admitted_next hPrevious request.toList)] at hRefused
  cases hRefused

/-- A value with lists around it. -/
def boxed (v : Value) : Nat → Value
  | 0 => v
  | n + 1 => .list [boxed v n]

/-- A plan whose table holds data as deep as the check allows. -/
def deepPlan : Plan :=
  ⟨"dashboard", [⟨.card, [("title", .text "Users")],
    [.leaf .table [("columns", .list [.text "Name"]), ("data", boxed (.text "") 19)]], none⟩], []⟩

def styledPlan : Plan :=
  ⟨"dashboard", [.leaf .button [("children", .text "Save"), ("style", .text "red")]], []⟩

def sampleChain : List Instruction :=
  ["Add a button and an input".toList, "Change the columns to Name, Age".toList,
    "Replace the card with a chart".toList]

/-- A chain from a plan whose props are as deep as the check allows. Beside it stands a plan that
does not pass. -/
theorem validate_of_mem_chain_deepPlan :
    (∀ plan ∈ chain sampleChain (some deepPlan), validate plan = .ok plan) ∧
      ∃ cause, validate styledPlan = .error cause := by
  obtain ⟨hChain, hRun⟩ := validate_of_mem_chain
  have hDeep : ∀ plan ∈ some deepPlan, validate plan = .ok plan := by
    rintro _ ⟨⟩
    exact validate_eq_ok_iff.mpr (by decide +kernel)
  refine ⟨hChain _ _ hDeep, ?_⟩
  obtain ⟨plan, hPlan, hCause⟩ :=
    hRun Pipeline.sampleSettings (.text "Add a table") (some styledPlan) none _ rfl
  cases hPlan
  exact hCause

end Plan
end Wireframe
