import Wireframe.Proofs.Page.FirstRoots
import Wireframe.Proofs.Plan.LogReading

/-! Replacements in a plan and in its text. The planner replaces the first root of a kind, and the
operation that its log entry names replaces the first pair of tags of that kind in the text. -/
namespace Wireframe

/-- A replacement that an instruction can ask for, by the kind that is replaced. -/
inductive Swap where
  | table
  | chart
deriving DecidableEq, Repr

namespace Swap

def kind : Swap → Kind
  | .table => .table
  | .chart => .chart

def replacement : Swap → Component
  | .table => Template.replacementChart
  | .chart => Template.replacementTable

def sentence : Swap → Instruction
  | .table => "replace the table with a chart".toList
  | .chart => "replace the chart with a table".toList

def branch : Swap → Branch
  | .table => .replaceTable
  | .chart => .replaceChart

/-- The operation that the log entry of the replacement names. -/
def operation (swap : Swap) : Operation :=
  .replace (.leaf swap.kind []) swap.replacement

theorem kind_replacement_ne (swap : Swap) : swap.replacement.kind ≠ swap.kind := by
  cases swap <;> decide

/-- The entry of a swap is read back as the operation that replaces. -/
theorem ofEntry?_entry (swap : Swap) : Diff.ofEntry? swap.branch.entry = some swap.operation := by
  cases swap <;> rfl

theorem step_branch (swap : Swap) : swap.branch.step =
    Step.replaceRoot swap.kind swap.replacement swap.branch.entry := by
  cases swap <;> rfl

theorem branches_sentence (swap : Swap) (plan : Plan) :
    Plan.branches swap.sentence plan = [swap.branch] := by
  have hVerb : Verb.of? swap.sentence = some .replace := by
    cases swap <;> decide +kernel
  have hBranch : Branch.replace swap.sentence = [swap.branch] := by
    cases swap <;> decide +kernel
  rw [Plan.branches_of_verb hVerb]
  exact hBranch

/-- The plan after the replacement: the first root of the kind is replaced, and one entry is
logged. -/
theorem next_sentence (swap : Swap) {plan : Plan} {before after : Forest} {c : Component}
    (hPlan : plan.components = before ++ c :: after) (hBefore : ∀ d ∈ before, d.kind ≠ swap.kind)
    (hKind : c.kind = swap.kind) :
    Plan.next swap.sentence (some plan) =
      ⟨plan.layout, before ++ swap.replacement :: after, [swap.branch.entry]⟩ := by
  rw [Plan.next_some, branches_sentence, Branch.steps_singleton, step_branch, Step.replaceRoot,
    Step.whenPossible, hPlan, Forest.set_rootIndex? hBefore hKind]

end Swap

namespace Page

open Text

/-- The opening tag that a text begins with tells its kind, whatever lines and text follow it. -/
theorem kind_eq_of_texts {column column' : Nat} {kind kind' : Kind} {props props' : Props}
    {lines lines' : List Line} {rest rest' : Text}
    (h : Line.texts (⟨column, .opening kind props⟩ :: lines) ++ rest =
      Line.texts (⟨column', .opening kind' props'⟩ :: lines') ++ rest') : kind = kind' := by
  rw [Line.texts_cons, List.append_assoc, Line.text_append, Line.texts_cons, List.append_assoc,
    Line.text_append] at h
  have hTag : kind.tag ++ (attributes props ++ '>' :: ('\n' :: (Line.texts lines ++ rest))) =
      kind'.tag ++ (attributes props' ++ '>' :: ('\n' :: (Line.texts lines' ++ rest'))) := by
    simpa [Mark.inner] using (spaces_angle_inj h).2
  have hRun (kind : Kind) (props : Props) (rest : Text) :
      (kind.tag ++ (attributes props ++ '>' :: rest)).takeWhile isWordChar = kind.tag :=
    takeWhile_append_of_stopsAt (fun c hc => isWordChar_of_mem_tag hc)
      (stopsAt_attributes props rest (by decide) (by decide))
  have hName := congrArg (List.takeWhile isWordChar) hTag
  rw [hRun, hRun] at hName
  exact tag_injective hName

/-- The text shows whether a first component below an earlier root was replaced in place of a
root. -/
theorem page_ne_of_nested {frame : Frame} {kind : Kind} {before after : Forest} {c new : Component}
    (hPlain : Forest.Plain before) (hBefore : Forest.hasKind kind before = true)
    (hNew : new.kind ≠ kind) {edited : Forest}
    (hEdit : Forest.updateFirst? kind (fun _ => new) (before ++ c :: after) = some edited) :
    page frame (Forest.lines 6 edited) ≠ page frame (Forest.lines 6 (before ++ new :: after)) := by
  obtain ⟨found⟩ := exists_firstOf hPlain hBefore 6
  obtain ⟨replaced, hUpdate, hLines⟩ := found.update fun _ => new
  rw [Forest.updateFirst?_append, hUpdate, Option.map_some, Option.some_or,
    Option.some.injEq] at hEdit
  subst hEdit
  intro hPage
  rw [page, page, Forest.lines_append, Forest.lines_append, hLines, found.lines_eq,
    new.lines_eq, found.component.lines_eq] at hPage
  simp only [List.append_assoc, Line.texts_append, List.cons_append] at hPage
  have hTexts := List.append_cancel_left (List.append_cancel_left hPage)
  exact hNew ((kind_eq_of_texts hTexts).trans found.kind_eq)

end Page

open Page

/-- In the text the first component of the kind is replaced. -/
theorem Swap.apply_operation (swap : Swap) {frame : Frame} (hFrame : frame.AngleFree) {plan : Plan}
    (hPlain : Forest.Plain plan.components) {edited : Forest}
    (hEdit : Forest.updateFirst? swap.kind (fun _ => swap.replacement) plan.components =
      some edited) :
    apply (render frame plan) swap.operation =
      .ok (render frame { plan with components := edited }) := by
  have hType : swap.operation.IsTypeOnly := by
    rintro target ⟨⟩
    rfl
  have hApply := apply_lines hFrame hPlain hType trivial
  have hEdited : swap.operation.edit plan.components = edited := by
    rw [operation, Operation.edit]
    exact (congrArg (Option.getD · plan.components) hEdit).trans rfl
  rw [render_eq_page, render_eq_page, hApply, hEdited]

/-- The operation that the log names replaces the first component of the kind in the text. That gives
the page of the new plan just when this component is a root, since the planner replaces the first
root of the kind. -/
theorem Swap.apply_logged (swap : Swap) {frame : Frame} (hFrame : frame.AngleFree) {plan : Plan}
    (hPlain : Forest.Plain plan.components) (hRoot : ∃ c ∈ plan.components, c.kind = swap.kind) :
    ∃ entry op edited,
      (Plan.next swap.sentence (some plan)).modifications = [entry] ∧
      Diff.ofEntry? entry = some op ∧
      Forest.updateFirst? swap.kind (fun _ => swap.replacement) plan.components = some edited ∧
      apply (render frame plan) op = .ok (render frame { plan with components := edited }) ∧
      (apply (render frame plan) op =
          .ok (render frame (Plan.next swap.sentence (some plan))) ↔
        Forest.firstIsRoot swap.kind plan.components = true) := by
  obtain ⟨before, c, after, hPlan, hKind, hBefore⟩ := exists_first hRoot
  have hNext := swap.next_sentence hPlan hBefore hKind
  rw [hPlan, hNext, Forest.firstIsRoot_split hBefore hKind, ← hPlan]
  cases hHas : Forest.hasKind swap.kind before with
  | false =>
      have hEdit : Forest.updateFirst? swap.kind (fun _ => swap.replacement) plan.components =
          some (before ++ swap.replacement :: after) := by
        rw [hPlan, Forest.updateFirst?_append, (Forest.edits_of_not_hasKind _ hHas).2,
          Forest.updateFirst?_cons, if_pos hKind]
        rfl
      have hApply := swap.apply_operation hFrame hPlain hEdit
      exact ⟨_, swap.operation, _, rfl, swap.ofEntry?_entry, hEdit, hApply,
        iff_of_true hApply rfl⟩
  | true =>
      rw [hPlan] at hPlain
      obtain ⟨found⟩ := exists_firstOf hPlain.left hHas 6
      obtain ⟨replaced, hReplaced, -⟩ := found.update fun _ => swap.replacement
      have hEdit : Forest.updateFirst? swap.kind (fun _ => swap.replacement) plan.components =
          some (replaced ++ c :: after) := by
        rw [hPlan, Forest.updateFirst?_append, hReplaced]
        rfl
      have hApply := swap.apply_operation hFrame (hPlan ▸ hPlain) hEdit
      refine ⟨_, swap.operation, _, rfl, swap.ofEntry?_entry, hEdit, hApply, ?_⟩
      refine iff_of_false (fun hSame => ?_) (by decide)
      rw [hPlan] at hEdit
      rw [hApply, Except.ok.injEq, render_eq_page, render_eq_page] at hSame
      exact page_ne_of_nested hPlain.left hHas swap.kind_replacement_ne hEdit hSame

/-- A plan whose first table is a root with something below it, behind a root of another kind. -/
def tableBehindCard : Plan :=
  ⟨"dashboard",
    [⟨.card, [("title", .text "a > b")], [.leaf .input []], none⟩,
      ⟨.table, [("columns", .list [.text "Name"])], [⟨.card, [], [.leaf .button []], none⟩], none⟩,
      .leaf .table []],
    []⟩

theorem Swap.apply_logged_tableBehindCard :
    sampleFrame.AngleFree ∧ Forest.Plain tableBehindCard.components ∧
      (∃ c ∈ tableBehindCard.components, c.kind = Swap.table.kind) ∧
      ∃ entry op,
        (Plan.next Swap.table.sentence (some tableBehindCard)).modifications = [entry] ∧
        Diff.ofEntry? entry = some op ∧
        apply (render sampleFrame tableBehindCard) op =
          .ok (render sampleFrame (Plan.next Swap.table.sentence (some tableBehindCard))) := by
  have hFrame : sampleFrame.AngleFree := by decide +kernel
  have hPlain : Forest.Plain tableBehindCard.components := by decide +kernel
  have hRoot : ∃ c ∈ tableBehindCard.components, c.kind = Swap.table.kind := by decide
  obtain ⟨entry, op, -, hEntry, hOp, -, -, hSame⟩ := Swap.table.apply_logged hFrame hPlain hRoot
  exact ⟨hFrame, hPlain, hRoot, entry, op, hEntry, hOp, hSame.mpr (by decide)⟩

/-- A plan whose first table lies in a card, and another table is a root. -/
def tableInCard : Plan :=
  ⟨"default", [⟨.card, [], [.leaf .table []], none⟩, .leaf .table []], []⟩

/-- The operation that the log names replaces the table in the card, and the new plan has the chart
as a root. -/
theorem nested_table_replaced :
    Forest.Plain tableInCard.components ∧
      (∃ c ∈ tableInCard.components, c.kind = .table) ∧
      (Plan.next Swap.table.sentence (some tableInCard)).modifications =
        ["Replaced table with chart"] ∧
      Diff.ofEntry? "Replaced table with chart" = some Swap.table.operation ∧
      apply (render sampleFrame tableInCard) Swap.table.operation ≠
        .ok (render sampleFrame (Plan.next Swap.table.sentence (some tableInCard))) := by
  refine ⟨by decide +kernel, by decide, by decide +kernel, rfl, ?_⟩
  rw [Swap.operation, apply, ne_eq, Except.ok.injEq]
  decide +kernel

end Wireframe
