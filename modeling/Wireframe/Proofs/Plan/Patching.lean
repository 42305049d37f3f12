import Wireframe.Proofs.Page.Revising
import Wireframe.Proofs.Page.ScriptRuns
import Wireframe.Proofs.Plan.Chain
import Wireframe.Proofs.Plan.DraftPairs

/-! Patching the page of a planned forest. Each operation edits the first root that has the text of
its target, whatever was edited before, so that in the end the roots are those of the new plan. In
which order they stand is another matter: a new root goes to the place of its kind, and roots of
one text are interchangeable. -/
namespace Wireframe

open Diff Page Forest

theorem Component.Drafted.plain {c : Component} (h : c.Drafted) (hRoot : mayHold none c.kind = true) :
    Plain [c] :=
  (Forest.Drafted.root h hRoot).plain

section

variable {old new : Component} (hOld : old.Drafted) (hNew : new.Drafted)
  (hRoot : mayHold none old.kind = true) (hAlike : Alike new old)
include hOld hNew hRoot hAlike

/-- The kinds that may hold children show nothing but the caption that identifies the root, so alike
roots show the same. -/
theorem visible_eq_of_holds (hLevels : old.kind.levels ≠ 1) :
    visible old.props = visible new.props := by
  have hText := hOld.text?_eq_of_alike hNew hRoot hAlike.symm
  exact hOld.props.visible_eq_of_text? (hAlike.1 ▸ hNew.props) hText hLevels

/-- For a kind without children the changes of the diff turn the old props into the new ones, in
their order. -/
theorem changed_eq_of_childless (hLevels : old.kind.levels = 1) :
    (propChanges old.props new.props).foldl Change.applyTo (visible old.props) =
      visible new.props := by
  have hText := hOld.text?_eq_of_alike hNew hRoot hAlike.symm
  exact hOld.props.changed_eq (hAlike.1 ▸ hNew.props) hText hRoot hLevels

/-- The props of a root change only where it holds no children. -/
theorem unchanged_of_drafted :
    sameShapes old.children new.children = true ∨
      Value.same (.object (visible old.props)) (.object (visible new.props)) = true := by
  by_cases hLevels : old.kind.levels = 1
  · rw [hOld.childless hLevels, hNew.childless (hAlike.1 ▸ hLevels)]
    exact .inl rfl
  · rw [visible_eq_of_holds hOld hNew hRoot hAlike hLevels]
    exact .inr (same_visible hNew.props.clean.mapping)

/-- A root that is renewed has the wanted text. -/
theorem rootText_renewed : rootText (renewed old new) = rootText new := by
  have hVisible : visible (renewed old new).props = visible new.props := by
    by_cases hLevels : old.kind.levels = 1
    · rw [props_renewed]
      split
      · exact hOld.props.visible_eq_of_same (hAlike.1 ▸ hNew.props) ‹_›
      · rw [changed_eq_of_childless hOld hNew hRoot hAlike hLevels, visible_visible]
    · have hEq := visible_eq_of_holds hOld hNew hRoot hAlike hLevels
      have hSame := same_visible hOld.props.clean.mapping
      rw [props_renewed, if_pos (hEq ▸ hSame), hEq]
  have hInner : Line.texts (Forest.lines 8 (renewed old new).children) =
      Line.texts (Forest.lines 8 new.children) := by
    rw [children_renewed]
    split
    · exact hOld.children.texts_eq_of_sameShapes hNew.children ‹_› 8
    · rfl
  exact rootText_eq ((kind_renewed old new).trans hAlike.1.symm) hVisible hInner

/-- The operations for a pair make the first root of the old text into the new root. -/
theorem settles_pair {frame : Frame} (hFrame : frame.AngleFree) : Settles frame old new := by
  intro first root last hRoots hText hFirst rest
  have hTexts : (first ++ renewed old new :: last).map rootText =
      (first ++ new :: last).map rootText := by
    simp [rootText_renewed hOld hNew hRoot hAlike]
  rw [← page_eq_of_texts hTexts]
  refine rewrites_renewed hFrame (hOld.plain hRoot) (hNew.plain (hAlike.1 ▸ hRoot)) hAlike.1.symm
    hRoots hText hFirst (fun hShapes hSame => ?_) rest
  rcases unchanged_of_drafted hOld hNew hRoot hAlike with h | h
  · exact absurd h (by simp [hShapes])
  · exact absurd h (by simp [hSame])

end

namespace Forest

/-- No component holds a navbar. -/
theorem Drafted.not_hasKind_navbar {forest : Forest} :
    ∀ {kind : Kind}, Drafted (some kind) forest → hasKind .navbar forest = false := by
  induction forest using Forest.induction with
  | nil => exact fun _ => rfl
  | cons c rest hChildren hRest =>
      rintro kind (_ | ⟨hKind, -, hBelow, hLater⟩)
      have hNavbar : mayHold (some kind) .navbar = false := by cases kind <;> rfl
      have hHere : c.kind ≠ .navbar := by
        intro hEq
        rw [hEq, hNavbar] at hKind
        cases hKind
      simp [hasKind_cons, hHere, hChildren hBelow, hRest hLater]

/-- A navbar stands among the roots only. -/
theorem Drafted.not_hasKind_navbar_children {forest : Forest} (h : Drafted none forest) :
    ∀ c ∈ forest, hasKind .navbar c.children = false :=
  fun c hc => (h.of_mem c hc).2.children.not_hasKind_navbar

end Forest

section

variable {forest roots : Forest} (hForest : Drafted none forest) (hRoots : Drafted none roots)
include hForest hRoots

/-- A root of a planned forest can be taken for the one that it is paired with only if they are
alike. -/
theorem alike_of_mem_pairRoots {c old : Component} {place : Nat}
    (h : (c, some place) ∈ pairRoots forest [] roots) (hOld : forest[place]? = some old) :
    Alike c old := by
  obtain ⟨found, hFound, hMatch⟩ := matched_pairRoots [] c place h
  obtain rfl : old = found := Option.some.inj (hOld.symm.trans (Option.mem_def.mp hFound))
  obtain ⟨hKind, hNew⟩ := hRoots.of_mem c ((valid_pairRoots roots).root_mem h)
  exact hNew.alike_of_matchesRoot (hForest.of_mem old (List.mem_of_getElem? hOld)).2 hKind hMatch

/-- Planned forests are never confused. -/
theorem clear_pairRoots : (pairRoots forest [] roots).Clear forest roots where
  ownsTag := by
    rintro ⟨c, _⟩ hEntry place rfl old hOld hShapes hSame
    have hPlace := Option.mem_def.mp hOld
    have hAlike := alike_of_mem_pairRoots hForest hRoots hEntry hPlace
    obtain ⟨hKind, hDrafted⟩ := hForest.of_mem old (List.mem_of_getElem? hPlace)
    obtain ⟨-, hNew⟩ := hRoots.of_mem c ((valid_pairRoots roots).root_mem hEntry)
    rcases unchanged_of_drafted hDrafted hNew hKind hAlike with h | h
    · exact absurd h (by simp [hShapes])
    · exact absurd h (by simp [hSame])
  rootNavbar _ _ _ _ := List.forall_mem_append.mpr
    ⟨hForest.not_hasKind_navbar_children, hRoots.not_hasKind_navbar_children⟩

/-- Each root of the new plan is settled with its own text, whether it was paired or not. -/
theorem rootText_settled {entry : Component × Option Nat}
    (h : entry ∈ pairRoots forest [] roots) :
    rootText (settled forest entry).2 = rootText entry.1 := by
  rcases (valid_pairRoots roots).settled_cases h with hSame | ⟨place, hOrigin, old, hOld, -, hRenewed⟩
  · rw [hSame]
  · obtain ⟨c, _⟩ := entry
    obtain rfl := Option.mem_def.mp hOrigin
    obtain ⟨hKind, hDrafted⟩ := hForest.of_mem old (List.mem_of_getElem? hOld)
    obtain ⟨-, hNew⟩ := hRoots.of_mem c ((valid_pairRoots roots).root_mem h)
    rw [hRenewed, rootText_renewed hDrafted hNew hKind
      (alike_of_mem_pairRoots hForest hRoots h hOld)]

end

/-- Patching the page of a planned forest towards another one gives the page of the other one, up to
the order of the roots. -/
theorem applyEach_compared {frame : Frame} (hFrame : frame.AngleFree) {forest : Forest}
    (hForest : Drafted none forest) {plan : Plan} (hPlan : Drafted none plan.components) :
    ∃ roots : Forest, roots.Perm plan.components ∧
      applyEach (compared (Forest.recorded rootIndent forest) plan)
          (page frame (Forest.lines 6 forest)) = .ok (page frame (Forest.lines 6 roots)) := by
  obtain ⟨edited, hEdited, hApply⟩ :=
    applyEach_settled hFrame hForest.plain hPlan.plain (clear_pairRoots hForest hPlan)
  have hWanted : ((pairRoots forest [] plan.components).map fun entry =>
      (settled forest entry).2).map rootText = plan.components.map rootText := by
    have hWhole : (pairRoots forest [] plan.components).map Prod.fst = plan.components :=
      map_fst_pairRoots []
    conv_rhs => rw [← hWhole]
    rw [List.map_map, List.map_map]
    exact List.map_congr_left fun entry hEntry => rootText_settled hForest hPlan hEntry
  obtain ⟨roots, hRoots, hSame⟩ :=
    exists_perm_of_texts ((hEdited.map rootText).trans (.of_eq hWanted))
  exact ⟨roots, hRoots, by rw [hApply, page_eq_of_texts hSame]⟩

/-- Patching the page of a planned forest in place gives the page of the new plan itself. -/
theorem applyAll_drafted_inPlace {frame : Frame} (hFrame : frame.AngleFree) {old new : Plan}
    (hOld : Drafted none old.components) (hNew : Drafted none new.components)
    (hLog : logged new.modifications = []) {top : Option Component} {revision : Revision}
    {others : Forest} (hBefore : old.components = revision.before)
    (hAfter : new.components = top.toList ++ (revision.after ++ others))
    (h : revision.InPlace top others) (strategy : Strategy) :
    applyAll (render frame old) (operations strategy (recover (render frame old)) new) =
      .ok (render frame new) := by
  refine applyAll_inPlace hFrame h ?_ hBefore hAfter hOld.plain hNew.plain hLog strategy
  intro entry hEntry c hc
  obtain ⟨hKind, hRoot⟩ := hOld.of_mem entry.1 (hBefore ▸ List.mem_map_of_mem hEntry)
  have hMem : c ∈ new.components := by
    rw [hAfter]
    have hStays : c ∈ revision.after := List.mem_filterMap.mpr ⟨entry, hEntry, hc⟩
    simp [hStays]
  obtain ⟨hNewKind, hNewRoot⟩ := hNew.of_mem c hMem
  have hAlike := hNewRoot.alike_of_matchesRoot hRoot hNewKind (h.stays entry hEntry c hc)
  exact settles_pair hRoot hNewRoot hKind hAlike hFrame

namespace Plan

/-- Patching agrees with rendering afresh up to the order of the roots. After any instructions
without `<` and a further one whose log names no operation, patching the page of the plan before
gives the page of the plan after it with its roots in some order. They are in their own order if the
roots of the plan before are in their places in it. -/
theorem patched_of_mem_chain {frame : Frame} (hFrame : frame.AngleFree)
    {instructions : List Instruction} (h : ∀ i ∈ instructions, Text.angleFree i = true)
    {previous : Plan} (hPrevious : previous ∈ chain instructions none) {i : Instruction}
    (hNext : Text.angleFree i = true) (hLog : logged (next i (some previous)).modifications = [])
    (strategy : Strategy) :
    (∃ roots : Forest, roots.Perm (next i (some previous)).components ∧
      applyAll (render frame previous)
          (operations strategy (recover (render frame previous)) (next i (some previous))) =
        .ok (render frame { next i (some previous) with components := roots })) ∧
      ∀ (top : Option Component) (revision : Revision) (others : Forest),
        previous.components = revision.before →
        (next i (some previous)).components = top.toList ++ (revision.after ++ others) →
        revision.InPlace top others →
        applyAll (render frame previous)
            (operations strategy (recover (render frame previous)) (next i (some previous))) =
          .ok (render frame (next i (some previous))) := by
  have hOld := drafted_of_mem_chain h (by simp) previous hPrevious
  have hNew : Drafted none (next i (some previous)).components :=
    drafted_next hNext fun plan hPlan => Option.mem_some.mp hPlan ▸ hOld
  refine ⟨?_, fun top revision others hBefore hAfter hPlace =>
    applyAll_drafted_inPlace hFrame hOld hNew hLog hBefore hAfter hPlace strategy⟩
  obtain ⟨roots, hPerm, hApply⟩ := applyEach_compared hFrame hOld hNew
  refine ⟨roots, hPerm, ?_⟩
  rw [render_eq_page, operations_of_not_logged _ _ hLog, recover_page_lines hFrame hOld.plain,
    applyAll, if_pos (hasBlock_page hFrame (clean_lines hOld.plain.clean 6)), render_eq_page, hApply]

/-- A dashboard whose card holds an input. -/
def sampleRequests : List Instruction :=
  ["Create an analytics dashboard".toList, "Add an input called \"Region\"".toList]

/-- What becomes of the roots of the dashboard if the chart and the input are removed. -/
def sampleRemovals : Revision :=
  let navbar := Template.navbar "Analytics Dashboard"
  let table := Template.tableWithoutData ["Metric", "Value", "Change"]
  [(navbar, some navbar), (Template.sidebar, some Template.sidebar),
    (Template.card (some "Revenue Overview") [Template.labeledInput "Enter value" "Region"],
      some (Template.card (some "Revenue Overview") [])),
    (Template.chart "line" none [("dataKey", .text "revenue")], none), (table, some table)]

theorem patched_of_mem_chain_sampleRequests :
    sampleFrame.AngleFree ∧ (∀ i ∈ sampleRequests, Text.angleFree i = true) ∧
      ∃ previous ∈ chain sampleRequests none,
        Text.angleFree "Remove the chart and the input".toList = true ∧
          logged (next "Remove the chart and the input".toList (some previous)).modifications = [] ∧
          ∀ strategy, applyAll (render sampleFrame previous)
              (operations strategy (recover (render sampleFrame previous))
                (next "Remove the chart and the input".toList (some previous))) =
            .ok (render sampleFrame
              (next "Remove the chart and the input".toList (some previous))) := by
  have hFrame : sampleFrame.AngleFree := by decide +kernel
  have hFree : ∀ i ∈ sampleRequests, Text.angleFree i = true := by decide +kernel
  have hNext : Text.angleFree "Remove the chart and the input".toList = true := by decide +kernel
  have hPlace : sampleRemovals.InPlace none [] := by decide +kernel
  have hPrevious : (chain sampleRequests none)[1] ∈ chain sampleRequests none := List.getElem_mem _
  have hLog : logged (next "Remove the chart and the input".toList
      (some (chain sampleRequests none)[1])).modifications = [] :=
    List.isEmpty_iff.mp (by decide +kernel)
  exact ⟨hFrame, hFree, _, hPrevious, hNext, hLog, fun strategy =>
    (patched_of_mem_chain hFrame hFree hPrevious hNext hLog strategy).2 none sampleRemovals [] rfl
      rfl hPlace⟩

/-- Two modals of one title, of which only the second one holds a button. -/
def twinRequests : List Instruction :=
  ["Open a modal".toList, "Remove the modal".toList, "Remove the button".toList,
    "Add a modal".toList, "Add a modal".toList, "Remove the button".toList,
    "Remove the button".toList, "Remove the button".toList]

/-- The roots can come out in another order, in two ways. A root whose title changes is taken for a
new one, and goes last. And a root that changes is sought by its text, which an operation before may
just have given to another one: a button that should go from one modal to the other stays where it
was. -/
theorem reordered_follow_ups :
    sampleFrame.AngleFree ∧
      (∀ i ∈ sampleRequests ++ twinRequests, Text.angleFree i = true) ∧
      (∃ previous ∈ chain sampleRequests none,
        logged (next "Rename the title to \"Sales\"".toList (some previous)).modifications = [] ∧
          ∀ strategy, applyAll (render sampleFrame previous)
              (operations strategy (recover (render sampleFrame previous))
                (next "Rename the title to \"Sales\"".toList (some previous))) ≠
            .ok (render sampleFrame
              (next "Rename the title to \"Sales\"".toList (some previous)))) ∧
      ∃ previous ∈ chain twinRequests none,
        logged (next "Move the button to the card".toList (some previous)).modifications = [] ∧
          ∀ strategy, applyAll (render sampleFrame previous)
              (operations strategy (recover (render sampleFrame previous))
                (next "Move the button to the card".toList (some previous))) ≠
            .ok (render sampleFrame
              (next "Move the button to the card".toList (some previous))) := by
  have hRename : logged (next "Rename the title to \"Sales\"".toList
      (some (chain sampleRequests none)[1])).modifications = [] :=
    List.isEmpty_iff.mp (by decide +kernel)
  have hMove : logged (next "Move the button to the card".toList
      (some (chain twinRequests none)[7])).modifications = [] :=
    List.isEmpty_iff.mp (by decide +kernel)
  refine ⟨by decide +kernel, by decide +kernel,
    ⟨_, List.getElem_mem _, hRename, fun strategy hPages => ?_⟩,
    _, List.getElem_mem _, hMove, fun strategy hPages => ?_⟩
  · rw [operations_of_not_logged _ _ hRename] at hPages
    exact absurd (congrArg Except.toOption hPages) (by decide +kernel)
  · rw [operations_of_not_logged _ _ hMove] at hPages
    exact absurd (congrArg Except.toOption hPages) (by decide +kernel)

end Plan
end Wireframe
