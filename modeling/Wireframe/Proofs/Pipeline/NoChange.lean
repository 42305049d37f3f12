import Wireframe.Proofs.Page.Revisions
import Wireframe.Proofs.Page.Simulation
import Wireframe.Proofs.Pipeline.Runs

/-! Runs that change nothing. The page of a plain plan is patched towards the same plan by no
operation at all, even if texts cannot tell its roots apart, and an instruction without a verb
therefore keeps the page as it is. -/
namespace Wireframe

namespace Diff

/-- The components recovered for a plan do not differ from the plan. -/
theorem compared_recorded {plan : Plan} (h : Forest.Clean plan.components) (indent : Int) :
    compared (Forest.recorded indent plan.components) plan = [] := by
  let pairs := plan.components.map fun c => (c.recorded indent, c)
  have hForest : Forest.recorded indent plan.components = pairs.map Prod.fst ++ [] := by
    rw [recorded_map, List.append_nil, List.map_map]
    rfl
  have hPlan : plan.components = pairs.map Prod.snd ++ [] := by
    simp [pairs, Function.comp_def]
  have hMatch : ∀ pair ∈ pairs, matchesRoot pair.2 pair.1 = true := by
    intro pair hPair
    obtain ⟨c, hc, rfl⟩ := List.mem_map.mp hPair
    exact matchesRoot_of_alike (alike_recorded
      (h.root hc c (Forest.mem_walk_self c [])).distinct indent)
  have hUpdates : pairs.flatMap (fun pair => rootOperations pair.1 pair.2) = [] := by
    rw [List.flatMap_eq_nil_iff]
    intro pair hPair
    obtain ⟨c, hc, rfl⟩ := List.mem_map.mp hPair
    exact rootOperations_recorded_self (h.root hc).keyed indent
  obtain ⟨more, hCompared, hMore⟩ := compared_front hMatch [] hPlan
  rw [hForest, hCompared, hUpdates, hMore rfl rfl]
  rfl

end Diff

namespace Page

theorem allBlank_render (frame : Frame) (plan : Plan) :
    Text.allBlank (render frame plan) = false := by
  have hStart : ∃ rest, render frame plan = 'i' :: rest := ⟨_, rfl⟩
  obtain ⟨rest, hRender⟩ := hStart
  rw [hRender, Text.allBlank, List.all_cons, show isBlank 'i' = false by decide, Bool.false_and]

variable {frame : Frame} (hFrame : frame.AngleFree) {plan : Plan}
  (hPlain : Forest.Plain plan.components)
include hFrame hPlain

/-- Differing a page against the plan it was written from finds nothing, by either strategy. -/
theorem operations_render (next : Plan) (hComponents : next.components = plan.components)
    (hLog : next.modifications = []) (strategy : Strategy) :
    Diff.operations strategy (recover (render frame plan)) next = [] := by
  have hClean : Forest.Clean next.components := hComponents ▸ hPlain.clean
  rw [Diff.operations_of_not_logged _ _ (Diff.logged_of_empty hLog), render_eq_page,
    recover_page_lines hFrame hPlain, ← hComponents]
  exact Diff.compared_recorded hClean rootIndent

theorem applyAll_render_nil : applyAll (render frame plan) [] = .ok (render frame plan) := by
  rw [render_eq_page, applyAll, if_pos (hasBlock_page hFrame (clean_lines hPlain.clean 6)),
    applyEach]

end Page

namespace Pipeline

open Page

/-- An instruction without a verb leaves the components alone and empties the log. -/
theorem next_of_no_verb {instruction : Instruction} (h : Verb.of? instruction = none)
    (plan : Plan) : Plan.next instruction (some plan) = { plan with modifications := [] } := by
  rw [Plan.next, Plan.modify, Plan.branches, h]
  rfl

/-- An accepted request is the trimmed message. -/
theorem ofText_eq_ok {settings : Settings} {message request : String}
    (h : Request.ofText settings message = .ok request) :
    request = String.ofList (Text.trim message.toList) := by
  simp only [Request.ofText] at h
  split_ifs at h
  exact (Except.ok.inj h).symm

/-- A run that succeeds delivers what was generated for the next plan. -/
theorem generate_of_run {settings : Settings} {message : String} {previous : Option Plan}
    {code : Option Text} {outcome : Outcome}
    (h : (run settings (.text message) previous code).1 = .ok outcome) :
    (generate settings (Plan.next (Text.trim message.toList) previous) (code.getD [])).1 =
      (outcome.code, outcome.patched) := by
  obtain ⟨request, hRequest, hPassed⟩ := passed_of_run h
  have hText := ofText_eq_ok hRequest
  have hPlan := hPassed.plan
  rw [hText, String.toList_ofList] at hPlan
  rw [← hPlan]
  exact hPassed.generated

section

variable {settings : Settings} (hFrame : settings.frame.AngleFree) {plan : Plan}
  (hPlain : Forest.Plain plan.components) (hPatching : settings.enablePatching = true)
include hFrame hPlain hPatching

/-- Without a verb the generation returns the text it was given, and calls it patched. -/
theorem generate_of_no_verb {instruction : Instruction} (h : Verb.of? instruction = none) :
    generate settings (Plan.next instruction (some plan)) (render settings.frame plan) =
      ((render settings.frame plan, true), []) := by
  have hBlank := allBlank_render settings.frame plan
  have hFilled : (render settings.frame plan).isEmpty = false := rfl
  have hOperations : operationsFor settings (render settings.frame plan)
      { plan with modifications := [] } = [] :=
    operations_render hFrame hPlain { plan with modifications := [] } rfl rfl settings.strategy
  rw [next_of_no_verb h, generate, hFilled, hPatching, patch, hOperations,
    applyAll_render_nil hFrame hPlain]
  simp [hBlank]

/-- Nothing to do leaves the page as it is. The page of a plain plan differs from the plan by no
operation, and to apply no operation succeeds and keeps the page, so that an instruction without a
verb generates the page that was there before, as a patch. -/
theorem generate_unchanged :
    (∀ strategy, Diff.operations strategy (recover (render settings.frame plan))
        { plan with modifications := [] } = []) ∧
      applyAll (render settings.frame plan) [] = .ok (render settings.frame plan) ∧
      (∀ instruction, Verb.of? instruction = none →
        generate settings (Plan.next instruction (some plan)) (render settings.frame plan) =
          ((render settings.frame plan, true), [])) ∧
      ∀ (message : String) (outcome : Outcome), Verb.of? (Text.trim message.toList) = none →
        (run settings (.text message) (some plan) (some (render settings.frame plan))).1 =
          .ok outcome →
        outcome.code = render settings.frame plan ∧ outcome.patched = true := by
  have hGenerate : ∀ instruction, Verb.of? instruction = none →
      generate settings (Plan.next instruction (some plan)) (render settings.frame plan) =
        ((render settings.frame plan, true), []) :=
    fun _ hVerb => generate_of_no_verb hFrame hPlain hPatching hVerb
  refine ⟨operations_render hFrame hPlain _ rfl rfl, applyAll_render_nil hFrame hPlain, hGenerate,
    fun message outcome hVerb hRun => ?_⟩
  have hSame := generate_of_run hRun
  rw [Option.getD_some, hGenerate _ hVerb] at hSame
  obtain ⟨hCode, hPatched⟩ := Prod.mk.inj hSame
  exact ⟨hCode.symm, hPatched.symm⟩

end

/-- A plan whose roots no text tells apart: two bare cards, two tables with one title, and a modal
that holds another such card. -/
def twinPlan : Plan :=
  ⟨"dashboard", [.leaf .card [], ⟨.card, [], [.leaf .button [("children", .text "Save")]], none⟩,
    .leaf .table [("title", .text "Users"), ("wide", .boolean false)],
    .leaf .table [("title", .text "Users"), ("columns", .list [.text "Name", .text "Age"])],
    ⟨.modal, [("isOpen", .boolean false)], [.leaf .card []], none⟩], ["Removed button"]⟩

theorem generate_unchanged_twinPlan :
    sampleSettings.frame.AngleFree ∧ Forest.Plain twinPlan.components ∧
      sampleSettings.enablePatching = true ∧ Verb.of? "make it pop".toList = none ∧
      (∀ strategy, Diff.operations strategy (recover (render sampleSettings.frame twinPlan))
        { twinPlan with modifications := [] } = []) ∧
      generate sampleSettings (Plan.next "make it pop".toList (some twinPlan))
          (render sampleSettings.frame twinPlan) =
        ((render sampleSettings.frame twinPlan, true), []) := by
  have hFrame : sampleSettings.frame.AngleFree := by decide +kernel
  have hPlain : Forest.Plain twinPlan.components := by decide +kernel
  have hVerb : Verb.of? "make it pop".toList = none := by decide +kernel
  obtain ⟨hOperations, _, hGenerate, _⟩ := generate_unchanged hFrame hPlain rfl
  exact ⟨hFrame, hPlain, rfl, hVerb, hOperations, hGenerate _ hVerb⟩

end Pipeline
end Wireframe
