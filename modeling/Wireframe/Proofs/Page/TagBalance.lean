import Wireframe.Proofs.Page.Nesting
import Wireframe.Proofs.Page.SelfPatch
import Wireframe.Plan.Check

/-! The balance of tags after a patch towards another plan. Whatever is nested in what, no opening
tag loses its closing one. The other way round needs kinds that are nested in one order in both
plans: else a component may be found inside another one, or may be closed too early when it is
recovered, and what is taken out then leaves a closing tag behind. -/
namespace Wireframe
namespace Diff

open Page

/-- A comparison with a plan whose kinds keep to an order keeps to it as well. -/
theorem ranked_compared {rank : Kind → Nat} {forest : Forest} {plan : Plan}
    (hPlan : Forest.Ranked rank plan.components) :
    ∀ op ∈ compared forest plan, OperationRanked rank op := by
  intro op hOp
  rcases mem_compared hOp with ⟨c, hc, rfl⟩ | ⟨old, -, c, hc, hKind, hPair⟩ | ⟨old, -, rfl⟩
  · refine ⟨hPlan.root hc, fun hPosition => ?_⟩
    cases hNew : c.kind <;> simp [hNew, Position.ofKind] at hPosition ⊢
  · have hRoot := hPlan.root hc
    rcases mem_rootOperations hPair with rfl | rfl
    · refine ⟨fun d hd => hRoot d (Forest.walk_children_sublist c [] d hd), ?_⟩
      exact hKind ▸ hRoot c (Forest.mem_walk_self c [])
    · trivial
  · trivial

end Diff

namespace Page

/-- The tags of a page are balanced as those of its lines are. -/
theorem openings_le_closings {frame : Frame} (hFrame : frame.AngleFree) {lines : List Line}
    (hClean : Line.Clean lines) (hLoose : Loose (Line.sides lines)) (kind : Kind) :
    openings kind (page frame lines) ≤ closings kind (page frame lines) := by
  have hSurplus := surplus_page hFrame hClean kind
  have hNonpos := hLoose.surplus_nonpos kind
  rw [surplus, Line.surplus] at hSurplus
  omega

/-- Properly nested sides have as many openings as closings of each kind. -/
theorem openings_eq_closings {frame : Frame} (hFrame : frame.AngleFree) {lines : List Line}
    (hClean : Line.Clean lines) {rank : Kind → Nat} (hNested : Nested rank none (Line.sides lines))
    (kind : Kind) :
    openings kind (page frame lines) = closings kind (page frame lines) := by
  rw [← surplus_eq_zero, surplus_page hFrame hClean, Line.surplus, hNested.surplus_eq_zero]

/-- A page with a stray closing tag is not balanced. -/
theorem openings_ne_closings_of_strayed {frame : Frame} (hFrame : frame.AngleFree)
    {lines : List Line} (hClean : Line.Clean lines) {kind : Kind}
    (hStray : Strayed kind (Line.sides lines)) :
    openings kind (page frame lines) ≠ closings kind (page frame lines) := by
  rw [Ne, ← surplus_eq_zero, surplus_page hFrame hClean]
  exact hStray.surplus_neg.ne

/-- The page of a plan is balanced, whatever is nested in what. -/
theorem openings_eq_closings_of_lines {frame : Frame} (hFrame : frame.AngleFree) {forest : Forest}
    (hClean : Forest.Clean forest) (kind : Kind) :
    openings kind (page frame (Forest.lines 6 forest)) =
      closings kind (page frame (Forest.lines 6 forest)) := by
  rw [← surplus_eq_zero, surplus_page hFrame (clean_lines hClean 6), surplus_lines]

/-- A page that is patched towards the plan that it shows stays balanced exactly if no root has its
own kind below it. -/
theorem balanced_self_iff {frame : Frame} (hFrame : frame.AngleFree) {forest : Forest}
    (hClean : Forest.Clean forest) (hShallow : ∀ c ∈ forest, c.props.Shallow) {plan : Plan}
    (hPlan : plan.components = forest) {text : Text}
    (hText : applyEach (Diff.compared (recover (page frame (Forest.lines 6 forest))) plan)
      (page frame (Forest.lines 6 forest)) = .ok text) :
    (∀ kind, openings kind text = closings kind text) ↔ ∀ c ∈ forest, c.Unrepeated := by
  constructor
  · intro hBalanced
    by_contra hAll
    have hRepeated : ∃ c ∈ forest, ¬c.Unrepeated := by simpa using hAll
    obtain ⟨kind, left, hLeft, hCleanLeft, hStray⟩ :=
      applyEach_self_of_repeated hFrame hClean hPlan hShallow hRepeated
    rw [hLeft, Except.ok.injEq] at hText
    subst hText
    exact openings_ne_closings_of_strayed hFrame hCleanLeft hStray (hBalanced kind)
  · intro hUnrepeated
    rw [applyEach_self hFrame hClean hPlan hShallow hUnrepeated, Except.ok.injEq] at hText
    subst hText
    exact openings_eq_closings_of_lines hFrame hClean

/-- Patching the page of one plan towards another succeeds, and no kind then has more opening than
closing tags, whatever is nested in what. Every kind has as many of either if the kinds can be
ranked so that in both plans each component lies under its parent. If both plans have the same
components, it is enough, and needed, that no root has its own kind below it. -/
theorem balanced_patch {frame : Frame} (hFrame : frame.AngleFree) {old new : Plan}
    (hOld : Forest.Clean old.components) (hNew : Forest.Clean new.components)
    (hLog : new.modifications = []) (strategy : Strategy) :
    ∃ text,
      applyAll (render frame old) (Diff.operations strategy (recover (render frame old)) new) =
          .ok text ∧
        (∀ kind, openings kind text ≤ closings kind text) ∧
        ((∃ rank, Forest.Ranked rank old.components ∧ Forest.Ranked rank new.components) →
          ∀ kind, openings kind text = closings kind text) ∧
        (new.components = old.components → (∀ c ∈ old.components, c.props.Shallow) →
          ((∀ kind, openings kind text = closings kind text) ↔
            ∀ c ∈ old.components, c.Unrepeated)) := by
  have hClean := clean_lines hOld 6
  have hOperations := Diff.clean_compared (recorded_of_mem_recover hFrame hClean) hNew
  let Holds (lines : List Line) : Prop := Loose (Line.sides lines) ∧
    ∀ rank, Forest.Ranked rank old.components → Forest.Ranked rank new.components →
      Nested rank none (Line.sides lines)
  have hStart : Holds (Forest.lines 6 old.components) :=
    ⟨loose_lines old.components 6, fun rank hBefore _ =>
      nested_lines hBefore (fun c _ => fits_none rank c.kind) 6⟩
  obtain ⟨left, hEach, hLeft, hLoose, hNested⟩ :=
    @applyEach_effects frame hFrame Holds _ hOperations
      (fun op hOp _ _ hEffect hHolds => ⟨hEffect.edited.loose hHolds.1, fun rank hBefore hAfter =>
        hEffect.nested (Diff.ranked_compared hAfter op hOp) (hHolds.2 rank hBefore hAfter)⟩)
      _ hClean hStart
  rw [Diff.operations_of_not_logged _ _ (Diff.logged_of_empty hLog), render_eq_page, applyAll,
    if_pos (hasBlock_page hFrame hClean)]
  refine ⟨_, hEach, openings_le_closings hFrame hLeft hLoose, ?_, fun hSame hShallow =>
    balanced_self_iff hFrame hOld hShallow hSame hEach⟩
  rintro ⟨rank, hBefore, hAfter⟩
  exact openings_eq_closings hFrame hLeft (hNested rank hBefore hAfter)

/-- Modals lie in cards, and other components in either. -/
def sampleRank : Kind → Nat
  | .card => 2
  | .modal => 1
  | _ => 0

/-- The sample plan with a new root, and with its modals in another place. -/
def sampleNext : Plan where
  layout := "dashboard"
  components :=
    [⟨.card, [("title", .text "a > b"), ("open", .boolean true)],
      [⟨.modal, [], [.leaf .button [("wide", .boolean true)]], none⟩], none⟩,
      ⟨.modal, [("title", .text "b")], [.leaf .input []], none⟩]
  modifications := []

theorem balanced_patch_samplePlan :
    sampleFrame.AngleFree ∧ Forest.Clean samplePlan.components ∧
      Forest.Clean sampleNext.components ∧ sampleNext.modifications = [] ∧
      (∃ text, applyAll (render sampleFrame samplePlan) (Diff.operations .combined
          (recover (render sampleFrame samplePlan)) sampleNext) = .ok text ∧
        ∀ kind, openings kind text = closings kind text) ∧
      ∃ text, applyAll (render sampleFrame samplePlan) (Diff.operations .combined
          (recover (render sampleFrame samplePlan)) samplePlan) = .ok text ∧
        ∀ kind, openings kind text = closings kind text := by
  have hFrame : sampleFrame.AngleFree := by decide +kernel
  have hOld : Forest.Clean samplePlan.components := by decide +kernel
  have hNew : Forest.Clean sampleNext.components := by decide +kernel
  have hRanked : Forest.Ranked sampleRank samplePlan.components ∧
      Forest.Ranked sampleRank sampleNext.components := by decide +kernel
  have hShallow : ∀ c ∈ samplePlan.components, c.props.Shallow := by decide +kernel
  have hUnrepeated : ∀ c ∈ samplePlan.components, c.Unrepeated := by decide +kernel
  obtain ⟨text, hText, -, hBalanced, -⟩ := balanced_patch hFrame hOld hNew rfl .combined
  obtain ⟨same, hSame, -, -, hSelf⟩ := balanced_patch hFrame hOld hOld rfl .combined
  exact ⟨hFrame, hOld, hNew, rfl, ⟨text, hText, hBalanced ⟨sampleRank, hRanked⟩⟩,
    same, hSame, (hSelf rfl hShallow).mpr hUnrepeated⟩

/-- The tags of a kind on the page of one plan, patched towards another: how many open, and how many
close. -/
def patchedTags (kind : Kind) (strategy : Strategy) (old new : Plan) : Option (Nat × Nat) :=
  (applyAll (render sampleFrame old)
    (Diff.operations strategy (recover (render sampleFrame old)) new)).toOption.map
      fun text => (openings kind text, closings kind text)

def nestedCards : Plan :=
  ⟨"single", [⟨.card, [], [.leaf .card []], none⟩], []⟩

def cardedNavbar : Plan :=
  ⟨"single", [⟨.card, [("title", .text "Overview")], [.leaf .navbar []], none⟩], []⟩

def cardedSidebar : Plan :=
  ⟨"single", [⟨.sidebar, [], [.leaf .card []], none⟩], []⟩

/-- Three roots, of which each has a component of the next one's kind. -/
def descending : Plan :=
  ⟨"single", [⟨.modal, [], [.leaf .card []], none⟩, ⟨.card, [], [.leaf .button []], none⟩,
    ⟨.button, [], [.leaf .input []], none⟩], []⟩

def ascending : Plan :=
  ⟨"single", [.leaf .button [("wide", .boolean true)], ⟨.card, [], [.leaf .modal []], none⟩], []⟩

/-- Closing tags are left over when a page of nested cards is patched towards the plan that it
shows; when a sidebar is put behind a navbar in a card that is removed afterwards; and when two plans
without nested repeats nest their kinds in opposite orders. -/
theorem unbalanced_patches :
    (∀ plan ∈ [nestedCards, cardedNavbar, cardedSidebar, descending, ascending],
      (Plan.validate plan).isOk = true ∧ Forest.Clean plan.components ∧ plan.modifications = []) ∧
    ∀ strategy,
      patchedTags .card strategy nestedCards nestedCards = some (2, 3) ∧
      patchedTags .sidebar strategy cardedNavbar cardedSidebar = some (0, 1) ∧
      patchedTags .modal strategy descending ascending = some (0, 1) := by
  refine ⟨by decide +kernel, fun strategy => ?_⟩
  cases strategy <;> decide +kernel

end Page
end Wireframe
