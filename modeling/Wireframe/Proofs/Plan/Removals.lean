import Wireframe.Proofs.Component.Pruning
import Wireframe.Proofs.Plan.Additions
import Wireframe.Proofs.Plan.Untouched

/-! What an instruction that removes does to a forest. Its branches cut whole subtrees off, one after
another, each off what the ones before it have left, and every branch that cuts something off writes
one entry. -/
namespace Wireframe

namespace Branch

open Forest

/-- The kind of what a branch removes. -/
def removes? : Branch → Option Kind
  | .removeButton => some .button
  | .removeTable => some .table
  | .removeChart => some .chart
  | .removeInputs => some .input
  | .removeModal => some .modal
  | _ => none

/-- What a removal of a kind cuts off where it finds something: all inputs, but of any other kind the
first component only. -/
def CutsKind (kind : Kind) (visits : List Visit) : Prop :=
  if kind = .input then CutsAll .input visits ∧ cutKinds visits ≠ [] else CutsFirst kind visits

/-- Branches remove something one after another, each from what the ones before it have left. The
second row are those that find a component of their kind. -/
inductive Removes : List Branch → Forest → List Branch → Forest → Prop
  | done (forest : Forest) : Removes [] forest [] forest
  | absent {branch : Branch} {kind : Kind} {rest taken : List Branch} {forest new : Forest} :
      branch.removes? = some kind → hasKind kind forest = false → Removes rest forest taken new →
        Removes (branch :: rest) forest taken new
  | takes {branch : Branch} {kind : Kind} {rest taken : List Branch} {forest pruned new : Forest}
      {visits : List Visit} :
      branch.removes? = some kind → Pruned forest pruned visits → CutsKind kind visits →
        Removes rest pruned taken new → Removes (branch :: rest) forest (branch :: taken) new

variable {kind : Kind} {branch : Branch} {branches taken : List Branch} {forest new : Forest}
  {visits : List Visit}

/-- A removal finds nothing of its kind and does nothing, or it cuts off what it should and logs that
once. -/
def RemovesKind (kind : Kind) (entry : String) (step : Step) : Prop :=
  ∀ forest, (hasKind kind forest = false ∧ step forest = (forest, [])) ∨
    ∃ pruned visits, step forest = (pruned, [entry]) ∧ Pruned forest pruned visits ∧
      CutsKind kind visits

/-- The first of a kind is cut off with everything below it. -/
theorem removesKind_removeFirst (hKind : kind ≠ .input) (entry : String) :
    RemovesKind kind entry (Step.removeFirst kind entry) := by
  intro forest
  rw [Step.removeFirst, Step.whenPossible]
  cases hHas : hasKind kind forest with
  | false =>
      rw [(edits_of_not_hasKind id hHas).1]
      exact .inl ⟨rfl, rfl⟩
  | true =>
      obtain ⟨pruned, visits, hDrop, hPruned, hFirst⟩ := exists_cutsFirst hHas
      rw [hDrop]
      refine .inr ⟨pruned, visits, rfl, hPruned, ?_⟩
      rwa [CutsKind, if_neg hKind]

/-- All inputs are cut off, and that is logged once. -/
theorem removesKind_removeInputs (entry : String) :
    RemovesKind .input entry (Step.removeInputs entry) := by
  intro forest
  obtain ⟨visits, hPruned, hAll, hCount⟩ := exists_cutsAll .input forest
  by_cases hNothing : (dropAll .input forest).2 = 0
  · have hSame := dropAll_of_count_eq_zero hNothing
    refine .inl ⟨hSame ▸ hAll.hasKind_eq_false hPruned, ?_⟩
    simp [Step.removeInputs, hNothing, hSame]
  · refine .inr ⟨(dropAll .input forest).1, visits, ?_, hPruned, ?_⟩
    · simp [Step.removeInputs, hNothing]
    · rw [CutsKind, if_pos rfl]
      refine ⟨hAll, fun hNil => hNothing ?_⟩
      rw [hCount, hNil]
      rfl

/-- Each branch that removes does so for its kind. -/
theorem removesKind_step (h : branch.removes? = some kind) :
    RemovesKind kind branch.entry branch.step := by
  cases branch with
  | removeInputs =>
      cases h
      exact removesKind_removeInputs _
  | removeButton | removeTable | removeChart | removeModal =>
      cases h
      exact removesKind_removeFirst (by decide) _
  | _ => cases h

/-- By induction over the row: each branch removes something from what is left, or finds nothing and
logs nothing. -/
theorem exists_removes (h : ∀ branch ∈ branches, branch.removes?.isSome = true) (forest : Forest) :
    ∃ taken, Removes branches forest taken (steps branches forest).1 ∧
      (steps branches forest).2 = taken.map entry := by
  induction branches generalizing forest with
  | nil => exact ⟨[], .done forest, rfl⟩
  | cons branch rest ih =>
      obtain ⟨hHere, hLater⟩ := List.forall_mem_cons.mp h
      obtain ⟨kind, hKind⟩ := Option.isSome_iff_exists.mp hHere
      rw [steps_cons]
      rcases removesKind_step hKind forest with
        ⟨hAbsent, hStep⟩ | ⟨pruned, visits, hStep, hPruned, hCuts⟩
      · rw [hStep]
        obtain ⟨taken, hRest, hLog⟩ := ih hLater forest
        exact ⟨taken, .absent hKind hAbsent hRest, hLog⟩
      · rw [hStep]
        obtain ⟨taken, hRest, hLog⟩ := ih hLater pruned
        refine ⟨branch :: taken, .takes hKind hPruned hCuts hRest, ?_⟩
        rw [hLog]
        rfl

/-- What a removal cuts off is of its kind, and of any kind but input there is one. -/
theorem cutKinds_of_cutsKind (h : CutsKind kind visits) :
    (∀ other ∈ cutKinds visits, other = kind) ∧ (kind ≠ .input → cutKinds visits = [kind]) := by
  rw [CutsKind] at h
  split at h
  · rename_i hInput
    subst hInput
    exact ⟨h.1.eq_of_mem_cutKinds, fun hNot => absurd rfl hNot⟩
  · rw [h.cutKinds_eq]
    exact ⟨fun other hOther => List.mem_singleton.mp hOther, fun _ => rfl⟩

namespace Removes

theorem sublist (h : Removes branches forest taken new) : taken.Sublist branches := by
  induction h with
  | done forest => exact .refl _
  | absent _ _ _ ih => exact ih.cons _
  | takes _ _ _ _ ih => exact ih.cons_cons _

/-- All removals at once: the subtrees that are cut off are of the kinds of the branches, and there
is not more than one of them for a branch, unless it removes inputs. -/
theorem pruned (h : Removes branches forest taken new) : ∃ visits, Pruned forest new visits ∧
    (∀ kind ∈ cutKinds visits, some kind ∈ taken.map removes?) ∧
    ∀ kind ≠ .input, (cutKinds visits).count kind ≤ (taken.map removes?).count (some kind) := by
  induction h with
  | done forest =>
      refine ⟨_, .refl forest, ?_⟩
      rw [cutKinds_map_kept]
      exact ⟨List.forall_mem_nil _, fun _ _ => le_rfl⟩
  | absent _ _ _ ih => exact ih
  | @takes _ kind _ taken _ _ _ visits hKind hPruned hCuts _ ih =>
      obtain ⟨later, hLater, hKinds, hCount⟩ := ih
      obtain ⟨both, hBoth, hAll⟩ := hPruned.trans hLater
      obtain ⟨hOnly, hSingle⟩ := cutKinds_of_cutsKind hCuts
      rw [List.map_cons, hKind]
      refine ⟨both, hBoth, fun other hOther => ?_, fun other hOther => ?_⟩
      · rcases List.mem_append.mp (hAll.subset hOther) with hHere | hRest
        · rw [hOnly other hHere]
          exact List.mem_cons_self
        · exact List.mem_cons_of_mem _ (hKinds other hRest)
      -- Of the kind of this branch there is one, of any other kind none from here.
      · calc (cutKinds both).count other
            ≤ (cutKinds visits ++ cutKinds later).count other := hAll.count_le other
          _ = (cutKinds visits).count other + (cutKinds later).count other := List.count_append
          _ ≤ [some kind].count (some other) + (taken.map removes?).count (some other) := by
              refine Nat.add_le_add ?_ (hCount other hOther)
              by_cases hSame : other = kind
              · subst hSame
                rw [hSingle hOther]
                simp
              · rw [List.count_eq_zero.mpr fun hMem => hSame (hOnly other hMem)]
                exact Nat.zero_le _
          _ = (some kind :: taken.map removes?).count (some other) := List.count_append.symm

/-- A kind that is gone stays away. -/
theorem hasKind_eq_false (h : Removes branches forest taken new) {kind : Kind}
    (hKind : hasKind kind forest = false) : hasKind kind new = false := by
  obtain ⟨visits, hPruned, -⟩ := h.pruned
  exact hPruned.hasKind_eq_false hKind

/-- After the removal of inputs there are none, and later removals bring none back. -/
theorem not_hasKind_input (h : Removes branches forest taken new)
    (hInputs : .removeInputs ∈ branches) : hasKind .input new = false := by
  induction h with
  | done forest => cases hInputs
  | absent hRemoves hAbsent hRest ih =>
      rcases List.mem_cons.mp hInputs with rfl | hLater
      · cases hRemoves
        exact hRest.hasKind_eq_false hAbsent
      · exact ih hLater
  | takes hRemoves hPruned hCuts hRest ih =>
      rcases List.mem_cons.mp hInputs with rfl | hLater
      · cases hRemoves
        rw [CutsKind, if_pos rfl] at hCuts
        exact hRest.hasKind_eq_false (hCuts.1.hasKind_eq_false hPruned)
      · exact ih hLater

end Removes

def removals : List Branch :=
  [.removeButton, .removeTable, .removeChart, .removeInputs, .removeModal]

theorem remove_sublist (i : Instruction) : (remove i).Sublist (removals ++ [.clear]) := by
  simp only [remove, List.flatten_cons, List.flatten_nil]
  exact (given_sublist _ _).append ((given_sublist _ _).append ((given_sublist _ _).append
    ((given_sublist _ _).append ((given_sublist _ _).append
      ((given_sublist _ _).append (.refl _))))))

/-- Unless the instruction asks for everything, its branches are among the removals, in their order. -/
theorem remove_sublist_removals {i : Instruction}
    (hPartial : i.mentionsAny ["all", "everything"] = false) : (remove i).Sublist removals := by
  simp only [remove, hPartial, List.flatten_cons, List.flatten_nil]
  exact (given_sublist _ _).append ((given_sublist _ _).append ((given_sublist _ _).append
    ((given_sublist _ _).append ((given_sublist _ _).append (.refl _)))))

theorem removeInputs_mem_remove {i : Instruction}
    (h : i.mentionsAny ["input", "field"] = true) : .removeInputs ∈ remove i := by
  simp [remove, given, h]

end Branch

namespace Plan

open Forest

/-- Removing only removes. An instruction that removes, but not everything, cuts whole subtrees off a
plan: of a button, a table, a chart and a modal the first one that is there when its turn comes, and of
the inputs all. What it does not ask for it does not remove, and the log has one entry for each thing
that it asks for and that is there. -/
theorem components_of_remove {instruction : Instruction}
    (hVerb : Verb.of? instruction = some .remove)
    (hPartial : instruction.mentionsAny ["all", "everything"] = false) (previous : Plan) :
    ∃ (taken : List Branch) (visits : List Visit),
      Branch.Removes (Branch.remove instruction) previous.components taken
        (next instruction (some previous)).components ∧
      taken.Sublist (Branch.remove instruction) ∧
      (next instruction (some previous)).modifications = taken.map Branch.entry ∧
      Pruned previous.components (next instruction (some previous)).components visits ∧
      (∀ kind ∈ cutKinds visits, some kind ∈ taken.map Branch.removes?) ∧
      (∀ kind ≠ .input, (cutKinds visits).count kind ≤ 1) ∧
      (instruction.mentionsAny ["input", "field"] = true →
        hasKind .input (next instruction (some previous)).components = false) := by
  have hBranches : branches instruction previous = Branch.remove instruction :=
    branches_of_verb hVerb previous
  have hSub := Branch.remove_sublist_removals hPartial
  have hRemovals : ∀ branch ∈ Branch.removals, branch.removes?.isSome = true := by decide
  obtain ⟨taken, hRemoves, hLog⟩ := Branch.exists_removes
    (fun branch hBranch => hRemovals branch (hSub.subset hBranch)) previous.components
  obtain ⟨visits, hPruned, hKinds, hCount⟩ := hRemoves.pruned
  rw [next_some, hBranches]
  refine ⟨taken, visits, hRemoves, hRemoves.sublist, hLog, hPruned, hKinds, fun kind hKind => ?_,
    fun hInputs => hRemoves.not_hasKind_input (Branch.removeInputs_mem_remove hInputs)⟩
  -- No two branches remove the same kind.
  have hDistinct : (Branch.removals.map Branch.removes?).Nodup := by decide
  have hTaken := hDistinct.sublist ((hRemoves.sublist.trans hSub).map Branch.removes?)
  exact (hCount kind hKind).trans (List.nodup_iff_count_le_one.mp hTaken _)

/-- An instruction that asks for something of each kind. -/
def removingParts : Instruction :=
  "Remove the button, the table, the chart, the input fields and the modal".toList

/-- A plan in which a part goes with another, and one that was below another goes before it. -/
def nestedParts : Plan :=
  ⟨"default",
    [⟨.card, [("title", .text "Team")],
        [⟨.button, [], [.leaf .input []], none⟩,
          ⟨.modal, [], [⟨.input, [], [.leaf .table []], none⟩, .leaf .chart []], none⟩], none⟩,
      ⟨.table, [("columns", .list [.text "Name"])], [.leaf .button []], none⟩],
    []⟩

/-- Removing a part of each kind from components nested in one another. -/
theorem components_of_remove_nestedParts :
    Verb.of? removingParts = some .remove ∧
      removingParts.mentionsAny ["all", "everything"] = false ∧
      (next removingParts (some nestedParts)).modifications = Branch.removals.map Branch.entry ∧
      ∃ visits, Branch.Removes Branch.removals nestedParts.components Branch.removals
          (next removingParts (some nestedParts)).components ∧
        Pruned nestedParts.components (next removingParts (some nestedParts)).components visits ∧
        hasKind .input (next removingParts (some nestedParts)).components = false := by
  have hVerb : Verb.of? removingParts = some .remove := by decide +kernel
  have hPartial : removingParts.mentionsAny ["all", "everything"] = false := by decide +kernel
  have hInputs : removingParts.mentionsAny ["input", "field"] = true := by decide +kernel
  have hBranches : Branch.remove removingParts = Branch.removals := by decide +kernel
  have hEntries : (next removingParts (some nestedParts)).modifications.length = 5 := by
    decide +kernel
  obtain ⟨taken, visits, hRemoves, hSub, hLog, hPruned, -, -, hNone⟩ :=
    components_of_remove hVerb hPartial nestedParts
  rw [hBranches] at hRemoves hSub
  obtain rfl : taken = Branch.removals := by
    refine hSub.eq_of_length ?_
    rwa [hLog, List.length_map] at hEntries
  exact ⟨hVerb, hPartial, hLog, visits, hRemoves, hPruned, hNone hInputs⟩

end Plan
end Wireframe
