import Wireframe.Proofs.Page.ScriptRuns

/-! Patching towards a plan by comparison alone. -/
namespace Wireframe

open Diff Page Forest

namespace Page

/-- Patching reaches the plan. The page of a plain plan is patched towards another one without a log.
Then each root of the new plan is paired with a root of the page or new, and if the pairing is
clear, every update lands on the root that it was computed for: the patched page is the page of the
settled roots. Its components are recovered with the shapes of the new plan, up to their order. -/
theorem recover_patched {frame : Frame} (hFrame : frame.AngleFree) {old new : Plan}
    (hOld : Plain old.components) (hNew : Plain new.components) (hLog : new.modifications = [])
    (hClear : (pairRoots old.components [] new.components).Clear old.components new.components)
    (strategy : Strategy) :
    ∃ roots : Forest,
      roots.Perm ((pairRoots old.components [] new.components).map fun entry =>
        (settled old.components entry).2) ∧
      applyAll (render frame old) (operations strategy (recover (render frame old)) new) =
        .ok (render frame { new with components := roots }) ∧
      ∃ order : Forest, order.Perm new.components ∧
        sameShapes (recover (render frame { new with components := roots })) order = true := by
  have hValid : (pairRoots old.components [] new.components).Valid old.components new.components :=
    valid_pairRoots new.components
  obtain ⟨roots, hRoots, hApply⟩ := applyEach_settled hFrame hOld hNew hClear
  have hPlain : Plain roots := by
    rw [plain_iff]
    intro c hc
    obtain ⟨entry, hEntry, rfl⟩ := List.mem_map.mp (hRoots.mem_iff.mp hc)
    exact hValid.plain_settled hOld hNew hEntry
  obtain ⟨order, hOrder, hShapes⟩ :=
    sameShapes_settled hOld.clean.keyed hNew.clean.keyed hValid hRoots
  refine ⟨roots, hRoots, ?_, order, hOrder, ?_⟩
  · rw [operations_of_not_logged _ _ (logged_of_empty hLog), recover_render hFrame hOld,
      render_eq_page, applyAll, if_pos (hasBlock_page hFrame (clean_lines hOld.clean 6)), hApply,
      render_eq_page]
  · rw [recover_render hFrame hPlain, sameShapes_recorded, hShapes]

def usersCard (props : Props) (children : Forest) : Component :=
  ⟨.card, ("title", .text "Users") :: props, children, none⟩

def saveButton : Component := .leaf .button [("children", .text "Save")]

def nameInput : Component := .leaf .input [("label", .text "Name")]

/-- A page on which one button stands in a card and again as a root. -/
def cardPlan : Plan where
  layout := "dashboard"
  components := [.leaf .navbar [], usersCard [] [saveButton], saveButton, .leaf .chart []]
  modifications := []

/-- The page with another card, another button as a root, a sidebar, and no chart. -/
def widePlan : Plan where
  layout := "dashboard"
  components := [.leaf .navbar [], .leaf .sidebar [], usersCard [("wide", .boolean true)] [nameInput],
    .leaf .button [("children", .text "Save"), ("variant", .text "primary")]]
  modifications := []

theorem recover_patched_widePlan :
    sampleFrame.AngleFree ∧ Plain cardPlan.components ∧ Plain widePlan.components ∧
      widePlan.modifications = [] ∧
      (pairRoots cardPlan.components [] widePlan.components).Clear cardPlan.components
        widePlan.components ∧
      ∀ strategy, ∃ roots : Forest,
        roots.Perm ((pairRoots cardPlan.components [] widePlan.components).map fun entry =>
          (settled cardPlan.components entry).2) ∧
        applyAll (render sampleFrame cardPlan)
            (operations strategy (recover (render sampleFrame cardPlan)) widePlan) =
          .ok (render sampleFrame { widePlan with components := roots }) ∧
        ∃ order : Forest, order.Perm widePlan.components ∧ sameShapes
          (recover (render sampleFrame { widePlan with components := roots })) order = true := by
  have hFrame : sampleFrame.AngleFree := by decide +kernel
  have hOld : Plain cardPlan.components := by decide +kernel
  have hNew : Plain widePlan.components := by decide +kernel
  have hClear : (pairRoots cardPlan.components [] widePlan.components).Clear cardPlan.components
      widePlan.components := by decide +kernel
  exact ⟨hFrame, hOld, hNew, rfl, hClear, recover_patched hFrame hOld hNew rfl hClear⟩

/-- Pages and plans of one root for them that patching misses. A card below an earlier root, or a
twin of the card, is taken for it once its children have changed, and a sidebar is put after a navbar
below a root that goes. -/
def strayedPlans : List (Plan × Plan) :=
  let wide := usersCard [("wide", .boolean true)] [nameInput]
  [(⟨"default", [⟨.modal, [], [usersCard [] []], none⟩, usersCard [] [saveButton]], []⟩,
      ⟨"default", [wide], []⟩),
    (⟨"default", [usersCard [] [saveButton], usersCard [] [saveButton]], []⟩,
      ⟨"default", [wide], []⟩),
    (⟨"default", [⟨.modal, [], [.leaf .navbar []], none⟩], []⟩,
      ⟨"default", [.leaf .sidebar []], []⟩)]

theorem strayed_updates :
    sampleFrame.AngleFree ∧ ∀ plans ∈ strayedPlans, Plain plans.1.components ∧
      Plain plans.2.components ∧ plans.2.modifications = [] ∧ ∀ strategy code,
        applyAll (render sampleFrame plans.1)
            (operations strategy (recover (render sampleFrame plans.1)) plans.2) = .ok code →
          ∀ order : Forest, order.Perm plans.2.components →
            sameShapes (recover code) order = false := by
  have hPlans : ∀ plans ∈ strayedPlans, Plain plans.1.components ∧ Plain plans.2.components ∧
      plans.2.modifications = [] ∧ plans.2.components.length = 1 ∧
      ∀ code ∈ (applyAll (render sampleFrame plans.1)
          (compared (recover (render sampleFrame plans.1)) plans.2)).toOption,
        sameShapes (recover code) plans.2.components = false := by decide +kernel
  refine ⟨by decide +kernel, fun plans hMem => ?_⟩
  obtain ⟨hOld, hNew, hLog, hLength, hMissed⟩ := hPlans plans hMem
  refine ⟨hOld, hNew, hLog, fun strategy code hCode order hOrder => ?_⟩
  rw [operations_of_not_logged _ _ (logged_of_empty hLog)] at hCode
  -- The plan has one root, so there is no other order.
  obtain ⟨c, hc⟩ := List.length_eq_one_iff.mp hLength
  rw [hc, List.perm_singleton] at hOrder
  rw [hOrder, ← hc]
  exact hMissed code (by rw [hCode]; rfl)

end Page

end Wireframe
