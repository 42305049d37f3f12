import Wireframe.Proofs.Component.Retouching
import Wireframe.Proofs.Plan.Additions
import Wireframe.Proofs.Plan.Replacing

/-! Instructions that change a plan in place. One that modifies or renames gives values to keys of
whole kinds of components, and nothing else in the forest changes. One that replaces puts a component
in the place of one root. -/
namespace Wireframe

namespace Branch

open Forest

/-- The values that a branch gives to keys of components. -/
def settings : Branch → List Setting
  | .labelButtons label => [⟨.button, "children", .text label⟩]
  | .setVariant variant => [⟨.button, "variant", .text variant⟩]
  | .titleCards title => [⟨.card, "title", .text title⟩]
  | .titleNavbars title => [⟨.navbar, "title", .text title⟩]
  | .setColumns columns => [⟨.table, "columns", .list (columns.map .text)⟩]
  | .setChartType type => [⟨.chart, "type", .text type⟩]
  | .setPlaceholders placeholder => [⟨.input, "placeholder", .text placeholder⟩]
  | .renameButtons name => [⟨.button, "children", .text name⟩]
  | .renameTitles name => [⟨.card, "title", .text name⟩, ⟨.navbar, "title", .text name⟩]
  | .renameFields name => [⟨.input, "label", .text name⟩]
  | _ => []

/-- The keys of a kind of components that can get another value. -/
def settableKeys : Kind → List String
  | .button => ["children", "variant"]
  | .card | .navbar => ["title"]
  | .table => ["columns"]
  | .chart => ["type"]
  | .input => ["placeholder", "label"]
  | .modal | .sidebar => []

/-- Each branch sets keys of the kind it is about. -/
theorem key_mem_settableKeys (branch : Branch) :
    ∀ setting ∈ branch.settings, setting.key ∈ settableKeys setting.kind := by
  cases branch <;> simp [settings, settableKeys]

/-- A branch that sets props does nothing else to the forest. -/
theorem components_step {branch : Branch} (h : branch.settings ≠ []) (forest : Forest) :
    (branch.step forest).1 = retouch branch.settings forest := by
  cases branch with
  | labelButtons | setVariant | titleCards | titleNavbars | setColumns | setChartType
    | setPlaceholders | renameButtons | renameTitles | renameFields => rfl
  | _ => exact absurd rfl h

/-- Settings of several branches act on the forest one after another, as one list of settings. -/
theorem components_steps {branches : List Branch} (h : ∀ branch ∈ branches, branch.settings ≠ [])
    (forest : Forest) : (steps branches forest).1 = retouch (branches.flatMap settings) forest := by
  induction branches generalizing forest with
  | nil => rfl
  | cons branch rest ih =>
      obtain ⟨hHere, hLater⟩ := List.forall_mem_cons.mp h
      rw [steps_cons, List.flatMap_cons, retouch_append, ← components_step hHere]
      exact ih hLater _

/-- All branches that an instruction can take to modify something. -/
def modifications (i : Instruction) : List Branch :=
  [.labelButtons (i.newLabel?.getD ""),
   .setVariant ((Step.buttonVariants.find? fun variant => i.mentions variant).getD ""),
   .titleCards (i.newTitle?.getD ""), .titleNavbars (i.newTitle?.getD ""),
   .setColumns i.tableColumns, .setChartType i.chartType,
   .setPlaceholders (i.newPlaceholder?.getD "")]

/-- All branches that an instruction can take to rename something. -/
def renamings (i : Instruction) : List Branch :=
  [.renameButtons (i.newName?.getD ""), .renameTitles (i.newName?.getD ""),
   .renameFields (i.newName?.getD "")]

theorem forValue_sublist (value : Option String) (branches : String → List Branch) :
    (forValue value branches).Sublist (branches (value.getD "")) := by
  cases value with
  | none => exact List.nil_sublist _
  | some s => simp [forValue]

/-- What an instruction asks for is a part of all that a modification can do, in the same order. -/
theorem modify_sublist_modifications (i : Instruction) : (modify i).Sublist (modifications i) := by
  have hButtons : (modifyButtons i).Sublist
      [.labelButtons (i.newLabel?.getD ""),
        .setVariant ((Step.buttonVariants.find? fun variant => i.mentions variant).getD "")] := by
    simp only [modifyButtons, List.flatten_cons, List.flatten_nil]
    exact (forValue_sublist _ _).append ((forValue_sublist _ _).append (.refl _))
  simp only [modify, List.flatten_cons, List.flatten_nil]
  exact ((given_sublist _ _).trans hButtons).append
    (((given_sublist _ _).trans (forValue_sublist _ _)).append ((given_sublist _ _).append
      ((given_sublist _ _).append
        (((given_sublist _ _).trans (forValue_sublist _ _)).append (.refl _)))))

/-- The same for a renaming. -/
theorem rename_sublist_renamings (i : Instruction) : (rename i).Sublist (renamings i) := by
  refine (forValue_sublist _ _).trans ?_
  simp only [List.flatten_cons, List.flatten_nil]
  exact (given_sublist _ _).append ((given_sublist _ _).append ((given_sublist _ _).append (.refl _)))

/-- What a row of branches sets: every branch sets something, and no two set the same key of the same
kind. -/
structure Sets (branches : List Branch) : Prop where
  sets : ∀ branch ∈ branches, branch.settings ≠ []
  apart : (branches.flatMap settings).Pairwise Setting.Apart

/-- A part of the branches sets no more than all of them do. -/
theorem Sets.sublist {branches all : List Branch} (h : Sets all) (hSub : branches.Sublist all) :
    Sets branches where
  sets branch hBranch := h.sets branch (hSub.subset hBranch)
  apart := h.apart.sublist (hSub.flatMap settings)

/-- No two branches of a modification set the same prop of the same kind, so their order does not
matter. -/
theorem sets_modifications (i : Instruction) : Sets (modifications i) where
  sets := by simp [modifications, settings]
  apart := by simp [modifications, settings, Setting.Apart]

/-- Nor do two branches of a renaming. -/
theorem sets_renamings (i : Instruction) : Sets (renamings i) where
  sets := by simp [renamings, settings]
  apart := by simp [renamings, settings, Setting.Apart]

/-- Branches that set keys change the values of those keys only. -/
theorem Sets.retouched {branches : List Branch} (h : Sets branches) (forest : Forest) :
    ∃ values : Kind → String → Option Value,
      (∀ kind key value, values kind key = some value ↔
        ∃ branch ∈ branches, ⟨kind, key, value⟩ ∈ branch.settings) ∧
      (∀ kind key, (values kind key).isSome = true → key ∈ settableKeys kind) ∧
      Retouched values forest (steps branches forest).1 := by
  have hValues (kind : Kind) (key : String) (value : Value) :
      Setting.value? (branches.flatMap settings) kind key = some value ↔
        ∃ branch ∈ branches, ⟨kind, key, value⟩ ∈ branch.settings := by
    rw [Setting.value?_eq_some_iff h.apart, List.mem_flatMap]
  refine ⟨_, hValues, fun kind key hSome => ?_, ?_⟩
  · obtain ⟨value, hValue⟩ := Option.isSome_iff_exists.mp hSome
    obtain ⟨branch, -, hSetting⟩ := (hValues kind key value).mp hValue
    exact key_mem_settableKeys branch _ hSetting
  · rw [components_steps h.sets]
    exact retouched_retouch _ forest

end Branch

namespace Swap

/-- The words for what is replaced and for what takes its place. -/
def words : Swap → String × String
  | .table => ("table", "chart")
  | .chart => ("chart", "table")

/-- The instruction mentions both words, first the one for what is replaced. -/
def AskedBy (instruction : Instruction) (swap : Swap) : Prop :=
  ∃ first ∈ instruction.place? swap.words.1, ∃ last ∈ instruction.place? swap.words.2, first < last

/-- The first root of the kind has been replaced. -/
def Replaces (swap : Swap) (old new : Forest) : Prop :=
  ∃ (before : Forest) (c : Component) (after : Forest), old = before ++ c :: after ∧
    c.kind = swap.kind ∧ (∀ d ∈ before, d.kind ≠ swap.kind) ∧
      new = before ++ swap.replacement :: after

theorem eq_of_askedBy {instruction : Instruction} {swap other : Swap} (h : swap.AskedBy instruction)
    (hOther : other.AskedBy instruction) : swap = other := by
  obtain ⟨first, hFirst, last, hLast, hOrder⟩ := h
  obtain ⟨first', hFirst', last', hLast', hOrder'⟩ := hOther
  -- If they differ, each of the two words stands before the other one.
  have hCrossed : swap.words.1 = other.words.2 → swap.words.2 = other.words.1 → False := by
    intro hWords hWords'
    obtain rfl : first = last' := Option.mem_unique hFirst (hWords ▸ hLast')
    obtain rfl : last = first' := Option.mem_unique hLast (hWords' ▸ hFirst')
    omega
  cases swap <;> cases other
  · rfl
  · exact (hCrossed rfl rfl).elim
  · exact (hCrossed rfl rfl).elim
  · rfl

/-- Two words with different first letters do not stand in the same place. -/
theorem place_ne {instruction : Instruction} {place : Nat}
    (hTable : instruction.place? "table" = some place) : instruction.place? "chart" ≠ some place := by
  intro hChart
  obtain ⟨table, hFindTable, rfl⟩ := Option.map_eq_some_iff.mp hTable
  obtain ⟨chart, hFindChart, hSame⟩ := Option.map_eq_some_iff.mp hChart
  obtain ⟨hWholeTable, hTargetTable, -⟩ := Text.cutAt?_eq_some_iff.mp hFindTable
  obtain ⟨hWholeChart, hTargetChart, -⟩ := Text.cutAt?_eq_some_iff.mp hFindChart
  rw [← hWholeTable, Cut.whole, Cut.whole, hTargetTable, hTargetChart, List.append_assoc,
    List.append_assoc] at hWholeChart
  obtain ⟨-, hWords⟩ := List.append_inj hWholeChart hSame
  cases hWords

/-- The branches of an instruction that replaces are those of what it asks to replace. -/
theorem replace_cases (instruction : Instruction) :
    (∃ swap : Swap, swap.AskedBy instruction ∧ Branch.replace instruction = [swap.branch]) ∨
      (∀ swap : Swap, ¬ swap.AskedBy instruction) ∧ Branch.replace instruction = [] := by
  have hUnasked (hNone : ∀ first ∈ instruction.place? "table",
      ∀ last ∈ instruction.place? "chart", False) : ∀ swap : Swap, ¬ swap.AskedBy instruction := by
    rintro (_ | _) ⟨first, hFirst, last, hLast, -⟩
    · exact hNone first hFirst last hLast
    · exact hNone last hLast first hFirst
  rw [Branch.replace]
  split
  · rename_i table chart hTable hChart
    by_cases hOrder : table < chart
    · rw [if_pos hOrder]
      exact .inl ⟨.table, ⟨table, hTable, chart, hChart, hOrder⟩, rfl⟩
    · rw [if_neg hOrder]
      have hNe : table ≠ chart := fun hSame => place_ne hTable (hSame ▸ hChart)
      exact .inl ⟨.chart, ⟨chart, hChart, table, hTable, by omega⟩, rfl⟩
  · rename_i hNone
    exact .inr ⟨hUnasked fun first hFirst last hLast => hNone first last hFirst hLast, rfl⟩

/-- A swap replaces the first root of its kind, or finds none and leaves the forest. -/
theorem components_branch (swap : Swap) (forest : Forest) :
    swap.Replaces forest (swap.branch.step forest).1 ∨
      (swap.branch.step forest).1 = forest ∧ ∀ c ∈ forest, c.kind ≠ swap.kind := by
  rw [step_branch, Step.replaceRoot, Step.whenPossible]
  by_cases hRoot : ∃ c ∈ forest, c.kind = swap.kind
  · obtain ⟨before, c, after, rfl, hKind, hBefore⟩ := Page.exists_first hRoot
    rw [Forest.set_rootIndex? hBefore hKind]
    exact .inl ⟨before, c, after, rfl, hKind, hBefore, rfl⟩
  · have hNone : ∀ c ∈ forest, c.kind ≠ swap.kind := fun c hc hKind => hRoot ⟨c, hc, hKind⟩
    have hIndex : Forest.rootIndex? swap.kind forest = none := by
      rw [Forest.rootIndex?, List.findIdx?_eq_none_iff]
      exact fun c hc => by simpa using hNone c hc
    rw [hIndex]
    exact .inr ⟨rfl, hNone⟩

end Swap

namespace Plan

open Forest

/-- Changes in place. An instruction that modifies or renames gives the values that its branches name
to keys of whole kinds of components, and everything else in the forest is as it was. One that replaces
puts a component in the place of the first root of the kind that it names first, if there is such a
root and it names both kinds. -/
theorem components_in_place (instruction : Instruction) (previous : Plan) :
    (Verb.of? instruction = some .modify ∨ Verb.of? instruction = some .rename →
      ∃ values : Kind → String → Option Value,
        (∀ kind key value, values kind key = some value ↔
          ∃ branch ∈ branches instruction previous, ⟨kind, key, value⟩ ∈ branch.settings) ∧
        (∀ kind key, (values kind key).isSome = true → key ∈ Branch.settableKeys kind) ∧
        Retouched values previous.components (next instruction (some previous)).components) ∧
    (Verb.of? instruction = some .replace →
      (∃ swap : Swap, swap.AskedBy instruction ∧
        swap.Replaces previous.components (next instruction (some previous)).components) ∨
      (next instruction (some previous)).components = previous.components ∧
        ∀ swap : Swap, swap.AskedBy instruction → ∀ c ∈ previous.components, c.kind ≠ swap.kind) := by
  rw [next_some]
  constructor
  · intro hVerb
    have hSets : Branch.Sets (branches instruction previous) := by
      rcases hVerb with hVerb | hVerb <;> rw [branches_of_verb hVerb]
      · exact (Branch.sets_modifications instruction).sublist
          (Branch.modify_sublist_modifications instruction)
      · exact (Branch.sets_renamings instruction).sublist
          (Branch.rename_sublist_renamings instruction)
    exact hSets.retouched previous.components
  · intro hVerb
    have hBranches : branches instruction previous = Branch.replace instruction :=
      branches_of_verb hVerb previous
    rw [hBranches]
    rcases Swap.replace_cases instruction with ⟨swap, hAsked, hBranch⟩ | ⟨hUnasked, hBranch⟩
    · rw [hBranch, Branch.steps_singleton]
      refine (swap.components_branch previous.components).imp (fun h => ⟨swap, hAsked, h⟩) ?_
      rintro ⟨hSame, hNone⟩
      refine ⟨hSame, fun other hOther => ?_⟩
      rw [Swap.eq_of_askedBy hOther hAsked]
      exact hNone
    · rw [hBranch]
      exact .inr ⟨rfl, fun swap hAsked => absurd hAsked (hUnasked swap)⟩

/-- An instruction that changes labels, variants, titles and placeholders at once. -/
def restyling : Instruction :=
  "Change the outline button text, the title and the placeholder to \"Go\"".toList

/-- A plan with buttons at different depths, one of them with a key in front of the label. -/
def twoButtons : Plan :=
  ⟨"default",
    [.leaf .button [("disabled", .boolean true), ("children", .text "Start")],
      ⟨.card, [("title", .text "Team")], [.leaf .input [], .leaf .button []], none⟩, .leaf .table []],
    []⟩

theorem components_in_place_twoButtons :
    Verb.of? restyling = some .modify ∧ Verb.of? Swap.table.sentence = some .replace ∧
      (∃ values : Kind → String → Option Value,
        values .button "children" = some (.text "Go") ∧
        values .button "variant" = some (.text "outline") ∧
        (∀ kind key, (values kind key).isSome = true → key ∈ Branch.settableKeys kind) ∧
        Retouched values twoButtons.components (next restyling (some twoButtons)).components) ∧
      ∃ swap : Swap, swap.Replaces twoButtons.components
        (next Swap.table.sentence (some twoButtons)).components := by
  have hModify : Verb.of? restyling = some .modify := by decide +kernel
  have hReplace : Verb.of? Swap.table.sentence = some .replace := by decide +kernel
  have hLabel : .labelButtons "Go" ∈ branches restyling twoButtons := by decide +kernel
  have hVariant : .setVariant "outline" ∈ branches restyling twoButtons := by decide +kernel
  obtain ⟨values, hValues, hKeys, hRetouched⟩ :=
    (components_in_place restyling twoButtons).1 (.inl hModify)
  refine ⟨hModify, hReplace, ⟨values, ?_, ?_, hKeys, hRetouched⟩, ?_⟩
  · exact (hValues _ _ _).mpr ⟨_, hLabel, List.mem_cons_self⟩
  · exact (hValues _ _ _).mpr ⟨_, hVariant, List.mem_cons_self⟩
  · rcases (components_in_place Swap.table.sentence twoButtons).2 hReplace with
      ⟨swap, -, hReplaces⟩ | ⟨-, hNone⟩
    · exact ⟨swap, hReplaces⟩
    · have hAsked : Swap.table.AskedBy Swap.table.sentence :=
        ⟨12, by decide +kernel, 25, by decide +kernel, by decide⟩
      exact absurd rfl (hNone .table hAsked (.leaf .table []) (by simp [twoButtons]))

end Plan
end Wireframe
