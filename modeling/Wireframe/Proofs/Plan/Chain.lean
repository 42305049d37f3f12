import Wireframe.Proofs.Plan.Branches
import Wireframe.Proofs.Plan.Drafts
import Wireframe.Proofs.Plan.Preserving

/-! What every plan of a chain of instructions is like. A branch keeps the form of drafted forests if
its texts are captions, and the branches of an instruction without `<` have such texts, so that every
plan that is reached from nothing has the form. -/
namespace Wireframe

open Forest

namespace Template

/-- A component without children is drafted as soon as its props have the form of its kind. -/
theorem drafted_leaf {kind : Kind} {props : Props} (h : DraftProps kind props) :
    (Component.leaf kind props).Drafted :=
  ⟨h, .nil⟩

theorem drafted_button {text : String} (h : IsCaption text) : (button text).Drafted :=
  drafted_leaf (.button (by decide) h)

/-- An input has a placeholder, and a type and a label only if they are given. -/
theorem drafted_input {placeholder : String} {type label : Option String}
    (hPlaceholder : IsCaption placeholder) (hType : ∀ s ∈ type, IsCaption s)
    (hLabel : ∀ s ∈ label, IsCaption s) :
    (input placeholder (captionProp "type" type) label).Drafted :=
  drafted_leaf (.input hPlaceholder hType hLabel)

theorem drafted_labeledInput {placeholder label : String} (hPlaceholder : IsCaption placeholder)
    (hLabel : IsCaption label) : (labeledInput placeholder label).Drafted :=
  @drafted_input placeholder none (some label) hPlaceholder (by simp) (by simpa using hLabel)

/-- Column names hold no `<`, and no more is asked of them. -/
theorem drafted_table {columns : List String}
    (h : ∀ column ∈ columns, Text.angleFree column.toList = true) : (table columns).Drafted :=
  drafted_leaf (.table h (.inr rfl))

/-- A chart of a fresh dashboard names the key of its data, and any other chart has an empty list. -/
theorem drafted_chart {type : String} {title : Option String} {points : Props}
    (hType : IsCaption type) (hTitle : ∀ s ∈ title, IsCaption s)
    (hPoints : points = [("data", .list [])] ∨ points = [("dataKey", .text "revenue")]) :
    (chart type title points).Drafted :=
  drafted_leaf (.chart hType hTitle hPoints)

/-- A card holds buttons, inputs and tables. -/
theorem drafted_card {title : Option String} {children : Forest} (hTitle : ∀ s ∈ title, IsCaption s)
    (hChildren : Drafted (some .card) children) : (card title children).Drafted :=
  ⟨.card hTitle, hChildren⟩

/-- A modal holds cards, so that there are three levels at most. -/
theorem drafted_modal {title : String} {children : Forest} (hTitle : IsCaption title)
    (hChildren : Drafted (some .modal) children) : (modal title children).Drafted :=
  ⟨.modal hTitle, hChildren⟩

/-- The views that fresh plans start from hold fixed texts only. -/
theorem drafted_dashboard : Drafted none dashboard :=
  .before (drafted_leaf (.navbar (by decide))) rfl <| .before (drafted_leaf .sidebar) rfl <|
    .before (drafted_card (by decide) .nil) rfl <|
    .before (drafted_chart (by decide) (by simp) (.inr rfl)) rfl <|
    .root (drafted_leaf (.table (by decide) (.inl rfl))) rfl

theorem drafted_form : Drafted none form := by
  have hName : (labeledInput "Enter name" "Name").Drafted :=
    drafted_labeledInput (by decide) (by decide)
  have hEmail : (input "Enter email" (captionProp "type" (some "email")) (some "Email")).Drafted :=
    drafted_input (by decide) (by decide) (by decide)
  have hChildren : Drafted (some .card) [labeledInput "Enter name" "Name",
      input "Enter email" (captionProp "type" (some "email")) (some "Email"), button "Submit"] :=
    .before hName rfl <| .before hEmail rfl <| .root (drafted_button (by decide)) rfl
  exact .root (drafted_card (by decide) hChildren) rfl

theorem drafted_modalView : Drafted none modalView := by
  have hInput : (input "Enter details" [] none).Drafted :=
    @drafted_input _ none none (by decide) (by simp) (by simp)
  have hCard : (card none [input "Enter details" [] none]).Drafted :=
    drafted_card (by simp) (.root hInput rfl)
  exact .before (drafted_button (by decide)) rfl <|
    .root (drafted_modal (by decide) (.root hCard rfl)) rfl

theorem drafted_application : Drafted none application :=
  .before (drafted_leaf (.navbar (by decide))) rfl <|
    .root (drafted_card (by decide) (.root (drafted_button (by decide)) rfl)) rfl

theorem drafted_emptyState : Drafted none emptyState :=
  .root (drafted_card (by decide) (.root (drafted_button (by decide)) rfl)) rfl

/-- Of an added modal only the title is read off the instruction. -/
theorem drafted_modalDialog {title : String} (h : IsCaption title) :
    Drafted none (modalDialog title) := by
  have hDetails : (labeledInput "Enter details" "Details").Drafted :=
    drafted_labeledInput (by decide) (by decide)
  have hCard : (card none [labeledInput "Enter details" "Details", button "Submit"]).Drafted :=
    drafted_card (by simp) (.before hDetails rfl (.root (drafted_button (by decide)) rfl))
  exact .before (drafted_button (by decide)) rfl <| .root (drafted_modal h (.root hCard rfl)) rfl

end Template

namespace Step

open Template

/-- A component put under the first of a kind that may hold it keeps the forest drafted, since a
change of children leaves kind and props of the holder alone. -/
theorem drafted_addTo {parent : Option Kind} {forest : Forest} {kind : Kind} {child : Component}
    (hChild : child.Drafted) (hKind : mayHold (some kind) child.kind = true) {edited : Forest}
    (h : Drafted parent forest) (hAdd : addTo kind child forest = some edited) :
    Drafted parent edited := by
  have hChange (c : Component) (hc : c.kind = kind) (hDrafted : c.Drafted) :
      (Component.addChild child c).kind = kind ∧ (Component.addChild child c).Drafted := by
    have hChildren : Drafted (some c.kind) (c.children ++ [child]) :=
      drafted_append.mpr ⟨hDrafted.children, .root hChild (hc.symm ▸ hKind)⟩
    exact ⟨hc, hDrafted.props, hChildren⟩
  exact h.updateFirst? hChange hAdd

/-- A button goes into the first card, or else into the first navbar, and both may hold one. -/
theorem keeps_addButton {label : String} (h : IsCaption label) (entry : String) :
    Preserves (Drafted Option.none) (addButton label entry) := by
  have hHolds : ∀ kind ∈ [Kind.card, .navbar], mayHold (some kind) .button = true := by decide
  exact preserves_addButton fun kind hKind _ hForest _ hAdd =>
    drafted_addTo (drafted_button h) (hHolds kind hKind) hForest hAdd

/-- An input goes into a card, where it may stand. -/
theorem keeps_addInput {placeholder label : String} (hPlaceholder : IsCaption placeholder)
    (hLabel : IsCaption label) (entry : String) :
    Preserves (Drafted Option.none) (addInput placeholder label entry) :=
  preserves_whenPossible fun _ hForest _ hEdited =>
    drafted_addTo (drafted_labeledInput hPlaceholder hLabel) rfl hForest hEdited

/-- A table goes into a card or behind the roots, and may stand in both places. -/
theorem keeps_addTable (layout entry : String) :
    Preserves (Drafted Option.none) (addTable layout entry) := by
  have hTable : newTable.Drafted := drafted_table (by decide)
  apply preserves_addTable
  · exact fun _ hForest => drafted_append.mpr ⟨hForest, .root hTable rfl⟩
  · exact fun _ hForest _ hAdd => drafted_addTo hTable rfl hForest hAdd

/-- Taking a component out takes out everything below it and disturbs no other. -/
theorem keeps_removeFirst (kind : Kind) (entry : String) :
    Preserves (Drafted Option.none) (removeFirst kind entry) :=
  preserves_whenPossible fun _ hForest _ hEdited => hForest.dropFirst? hEdited

/-- A root is replaced by a drafted component of a kind that may be a root. -/
theorem keeps_replaceRoot {kind : Kind} {replacement : Component} (h : replacement.Drafted)
    (hKind : mayHold Option.none replacement.kind = true) (entry : String) :
    Preserves (Drafted Option.none) (replaceRoot kind replacement entry) := by
  apply preserves_replaceRoot
  intro forest hForest edited hRoots
  apply drafted_of_forall
  intro c hc
  rcases hRoots c hc with hOld | rfl
  · exact hForest.of_mem c hOld
  · exact ⟨hKind, h⟩

/-- What is moved was drafted where it stood, and the target may hold buttons. -/
theorem keeps_moveButton {kind : Kind} (hKind : mayHold (some kind) .button = true)
    (entry : String) : Preserves (Drafted Option.none) (whenPossible (moveButton? kind) entry) := by
  apply preserves_moveButton
  · exact fun _ hForest _ hDrop => hForest.dropFirst? hDrop
  · intro forest hForest button hButton rest hRest edited hAdd
    have hMoved := hForest.of_mem_walk button (List.mem_of_find?_eq_some hButton)
    have hIsButton : button.kind = .button := by simpa using List.find?_some hButton
    exact drafted_addTo hMoved (hIsButton.symm ▸ hKind) hRest hAdd

end Step

namespace Branch

open Step

/-- What a branch takes from an instruction fits into a drafted forest: its texts are captions, and a
button is only moved to where it may be. -/
def Captioned : Branch → Prop
  | .addInput placeholder label => IsCaption placeholder ∧ IsCaption label
  | .addChart type title => IsCaption type ∧ ∀ s ∈ title, IsCaption s
  | .addButton text | .addModal text | .labelButtons text | .setVariant text | .titleCards text
  | .titleNavbars text | .setChartType text | .setPlaceholders text | .renameButtons text
  | .renameTitles text | .renameFields text => IsCaption text
  | .setColumns columns => ∀ column ∈ columns, Text.angleFree column.toList = true
  | .moveButton kind _ => mayHold (some kind) .button = true
  | .addTable _ | .removeButton | .removeTable | .removeChart | .removeInputs | .removeModal
  | .clear | .replaceTable | .replaceChart => True

/-- The step lemma of chains: a branch with captions keeps the form of drafted forests. -/
theorem keeps_step {branch : Branch} (h : branch.Captioned) :
    Preserves (Drafted none) branch.step := by
  cases branch with
  | addButton label => exact keeps_addButton h _
  | addInput placeholder label => exact keeps_addInput h.1 h.2 _
  | addTable layout => exact keeps_addTable layout _
  | addChart type title =>
      exact fun _ hForest => drafted_append.mpr
        ⟨hForest, .root (Template.drafted_chart h.1 h.2 (.inl rfl)) rfl⟩
  | addModal title =>
      exact fun _ hForest => drafted_append.mpr ⟨hForest, Template.drafted_modalDialog h⟩
  | removeButton | removeTable | removeChart | removeModal => exact keeps_removeFirst _ _
  | removeInputs => exact fun _ hForest => hForest.dropAll .input
  | clear => exact fun _ _ => Template.drafted_emptyState
  | labelButtons | renameButtons => exact fun _ hForest => hForest.setAll (.buttonLabel h)
  | setVariant => exact fun _ hForest => hForest.setAll (.variant h)
  | titleCards => exact fun _ hForest => hForest.setAll (.cardTitle h)
  | titleNavbars => exact fun _ hForest => hForest.setAll (.navbarTitle h)
  | setColumns => exact fun _ hForest => hForest.setAll (.columns h)
  | setChartType => exact fun _ hForest => hForest.setAll (.chartType h)
  | setPlaceholders => exact fun _ hForest => hForest.setAll (.placeholder h)
  | moveButton kind name => exact keeps_moveButton h _
  | replaceTable =>
      have hChart : Template.replacementChart.Drafted :=
        Template.drafted_chart (by decide) (by decide) (.inl rfl)
      exact keeps_replaceRoot hChart rfl _
  | replaceChart =>
      have hTable : Template.replacementTable.Drafted := Template.drafted_table (by decide)
      exact keeps_replaceRoot hTable rfl _
  | renameTitles =>
      exact fun _ hForest => (hForest.setAll (.cardTitle h)).setAll (.navbarTitle h)
  | renameFields => exact fun _ hForest => hForest.setAll (.inputLabel h)

section

variable {i : Instruction} (h : Text.angleFree i = true)
include h

open Instruction

/-- Every text an addition writes is read off the instruction or fixed, and a text read off an
instruction without `<` is a caption. -/
theorem captioned_add (layout : String) : ∀ branch ∈ add layout i, branch.Captioned := by
  have hLabel : IsCaption (i.buttonLabel?.getD "New Button") := isCaption_getD h (by decide)
  have hInput : IsCaption (i.placeholder?.getD "Enter value") ∧ IsCaption (i.label?.getD "New Field") :=
    ⟨isCaption_getD h (by decide), isCaption_getD h (by decide)⟩
  have hChart : IsCaption i.chartType ∧ ∀ title ∈ i.chartTitle?, IsCaption title :=
    ⟨isCaption_chartType, fun _ hTitle => Phrase.isCaption_firstValue? h hTitle⟩
  have hModal : IsCaption (i.modalTitle?.getD "Modal Dialog") := isCaption_getD h (by decide)
  simp only [add, List.flatten_cons, List.flatten_nil, List.append_nil, List.forall_mem_append,
    forall_mem_given, List.forall_mem_singleton]
  exact ⟨fun _ => hLabel, fun _ => hInput, fun _ => trivial, fun _ => hChart, fun _ => hModal⟩

omit h in
theorem captioned_remove : ∀ branch ∈ remove i, branch.Captioned := by
  simp only [remove, List.flatten_cons, List.flatten_nil, List.append_nil, List.forall_mem_append,
    forall_mem_given, List.forall_mem_singleton, Captioned, implies_true, and_self]

/-- A modification also writes variants out of a fixed list, and column names, which need not be
captions. -/
theorem captioned_modify : ∀ branch ∈ modify i, branch.Captioned := by
  have hVariants : ∀ name ∈ buttonVariants, IsCaption name := by decide
  have hVariant : ∀ variant ∈ buttonVariants.find? fun variant => i.mentions variant,
      IsCaption variant := fun variant hVariant =>
    hVariants variant (List.mem_of_find?_eq_some hVariant)
  have hValue {phrases : List Phrase} : ∀ text ∈ Phrase.firstValue? phrases i, IsCaption text :=
    fun _ hText => Phrase.isCaption_firstValue? h hText
  simp only [modify, modifyButtons, List.flatten_cons, List.flatten_nil, List.append_nil,
    List.forall_mem_append, forall_mem_given, forall_mem_forValue, List.forall_mem_cons,
    List.not_mem_nil, false_imp_iff, implies_true, and_true]
  exact ⟨fun _ => ⟨hValue, hVariant⟩, fun _ title hTitle => ⟨hValue title hTitle, hValue title hTitle⟩,
    fun _ => angleFree_tableColumns h, fun _ => isCaption_chartType, fun _ => hValue⟩

omit h in
/-- All move targets are kinds that may hold a button. -/
theorem captioned_move : ∀ branch ∈ move i, branch.Captioned := by
  have hTargets : ∀ target ∈ moveTargets, mayHold (some target.2.1) .button = true := by decide
  exact forall_mem_move hTargets

/-- A renaming writes the one new name in all its branches. -/
theorem captioned_rename : ∀ branch ∈ rename i, branch.Captioned := by
  refine forall_mem_forValue.mpr fun name hName => ?_
  have hCaption : IsCaption name := Phrase.isCaption_firstValue? h hName
  simp only [List.flatten_cons, List.flatten_nil, List.append_nil, List.forall_mem_append,
    forall_mem_given, List.forall_mem_singleton]
  exact ⟨fun _ => hCaption, fun _ => hCaption, fun _ => hCaption⟩

/-- An instruction without `<` only has branches that keep the form of drafted forests. -/
theorem captioned_ofVerb (layout : String) (verb : Verb) :
    ∀ branch ∈ ofVerb layout i verb, branch.Captioned := by
  cases verb with
  | add => exact captioned_add h layout
  | remove => exact captioned_remove
  | modify => exact captioned_modify h
  | move => exact captioned_move
  | replace => exact forall_mem_replace trivial trivial
  | rename => exact captioned_rename h

end

end Branch

namespace Plan

/-- A first plan is drafted whatever the instruction says, as no text of it goes into the
components. -/
theorem drafted_create (i : Instruction) : Drafted none (create i).components := by
  have hFresh : ∀ entry ∈ freshPlans, Drafted none entry.2.2 :=
    List.forall_mem_cons.mpr ⟨Template.drafted_dashboard, List.forall_mem_cons.mpr
      ⟨Template.drafted_form, List.forall_mem_singleton.mpr Template.drafted_modalView⟩⟩
  rw [create]
  split
  · rename_i hFind
    exact hFresh _ (List.mem_of_find?_eq_some hFind)
  · exact Template.drafted_application

/-- One instruction on a drafted plan: the branches that it takes keep the forest drafted one after
another. -/
theorem drafted_modify {i : Instruction} (h : Text.angleFree i = true) {previous : Plan}
    (hPrevious : Drafted none previous.components) :
    Drafted none (modify i previous).components := by
  refine Step.preserves_steps (fun branch hBranch => Branch.keeps_step ?_) _ hPrevious
  obtain ⟨verb, -, hRow⟩ := exists_verb_of_mem_branches hBranch
  exact Branch.captioned_ofVerb h _ verb branch hRow

/-- The step of the chain: from no plan or a drafted one to a drafted one. -/
theorem drafted_next {i : Instruction} (h : Text.angleFree i = true) {previous : Option Plan}
    (hPrevious : ∀ plan ∈ previous, Drafted none plan.components) :
    Drafted none (next i previous).components := by
  cases previous with
  | none => exact drafted_create i
  | some previous => exact drafted_modify h (hPrevious previous rfl)

/-- Every plan of a chain is drafted if the plan that it starts from is, if there is one. -/
theorem drafted_of_mem_chain {instructions : List Instruction}
    (h : ∀ i ∈ instructions, Text.angleFree i = true) :
    ∀ {previous : Option Plan}, (∀ plan ∈ previous, Drafted none plan.components) →
      ∀ plan ∈ chain instructions previous, Drafted none plan.components := by
  induction instructions with
  | nil => exact fun _ _ hMem => absurd hMem List.not_mem_nil
  | cons i rest ih =>
      intro previous hPrevious plan hPlan
      obtain ⟨hHere, hRest⟩ := List.forall_mem_cons.mp h
      have hNext := drafted_next hHere hPrevious
      rcases List.mem_cons.mp hPlan with rfl | hPlan
      · exact hNext
      · refine ih hRest (fun other hOther => ?_) plan hPlan
        exact Option.mem_some.mp hOther ▸ hNext

/-- Every plan that instructions without `<` reach from nothing can be read back from its page. No
component lies below one of its own kind, buttons, inputs, tables and charts are empty, there are at
most three levels, and every prop has an attribute name and a value without `<` and objects. -/
theorem readable_of_mem_chain {instructions : List Instruction}
    (h : ∀ i ∈ instructions, Text.angleFree i = true) {plan : Plan}
    (hPlan : plan ∈ chain instructions none) :
    (∀ c ∈ walk plan.components, ∀ d ∈ walk c.children, d.kind ≠ c.kind) ∧
      (∀ c ∈ walk plan.components,
        c.kind = .button ∨ c.kind = .input ∨ c.kind = .table ∨ c.kind = .chart → c.children = []) ∧
      height plan.components ≤ 3 ∧
      ∀ c ∈ walk plan.components, ∀ entry ∈ c.props,
        Attribute.isName entry.1.toList = true ∧ entry.2.angleFree = true ∧ entry.2.braces = 0 := by
  have hDrafted := drafted_of_mem_chain h (by simp) plan hPlan
  refine ⟨hDrafted.unnested, fun c hc hKind => (hDrafted.of_mem_walk c hc).childless ?_,
    Nat.le_of_lt_succ hDrafted.height_lt, fun c hc entry hEntry => ?_⟩
  · rcases hKind with hKind | hKind | hKind | hKind <;> rw [hKind] <;> rfl
  · have hForm := (hDrafted.of_mem_walk c hc).props.isDraftEntry entry hEntry
    exact ⟨hForm.named, hForm.angleFree, hForm.flat⟩

/-- A button goes from a card into the sidebar while a modal with a form appears and titles
change. -/
def sampleInstructions : List Instruction :=
  ["Create an analytics dashboard".toList, "Add a modal called \"Settings\" and a button".toList,
    "Move the button to the sidebar".toList, "Change the title to 'Sales > 2'".toList]

/-- A chain of instructions without `<`, from no plan. -/
theorem readable_of_mem_chain_sampleInstructions :
    (∀ i ∈ sampleInstructions, Text.angleFree i = true) ∧
      ∀ plan ∈ chain sampleInstructions none,
        (∀ c ∈ walk plan.components, ∀ d ∈ walk c.children, d.kind ≠ c.kind) ∧
          (∀ c ∈ walk plan.components,
            c.kind = .button ∨ c.kind = .input ∨ c.kind = .table ∨ c.kind = .chart →
              c.children = []) ∧
          height plan.components ≤ 3 ∧
          ∀ c ∈ walk plan.components, ∀ entry ∈ c.props,
            Attribute.isName entry.1.toList = true ∧ entry.2.angleFree = true ∧
              entry.2.braces = 0 := by
  have hFree : ∀ i ∈ sampleInstructions, Text.angleFree i = true := by decide +kernel
  exact ⟨hFree, fun plan hPlan => readable_of_mem_chain hFree hPlan⟩

end Plan
end Wireframe
