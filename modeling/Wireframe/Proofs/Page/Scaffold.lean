import Wireframe.Proofs.Page.RecoveredPairs

/-! The scaffold of a page under edits. Every operation leaves a page of lines, so that what stands
before and behind the lines is found again by the operation that follows, and is kept to the end. -/
namespace Wireframe

namespace Operation

def written : Operation → Forest
  | .add new _ => [new]
  | .move target _ => [target]
  | .updateChildren _ children => children
  | .replace _ replacement => [replacement]
  | .remove _ | .updateProps _ _ => []

def changes : Operation → List Change
  | .updateProps _ changes => changes
  | _ => []

/-- An operation is clean when everything it writes is: the components it inserts, and the values of
its changes. -/
theorem clean_of_written {op : Operation} (hTarget : ∀ target ∈ op.target?, Page.Recorded target)
    (hWritten : Forest.Clean op.written) (hChanges : ∀ change ∈ op.changes, change.Clean) :
    op.Clean := by
  cases op with
  | add new position => exact hWritten
  | move target position => exact ⟨hTarget target rfl, hWritten⟩
  | remove target => exact hTarget target rfl
  | updateProps target changes => exact ⟨hTarget target rfl, hChanges⟩
  | updateChildren target children => exact ⟨hTarget target rfl, hWritten⟩
  | replace target replacement => exact ⟨hTarget target rfl, hWritten⟩

end Operation

namespace Page

/-- What the rendered block stands in: the text up to the end of its opener, and the text from its
closer on. -/
def scaffold? (code : Text) : Option (Text × Text) :=
  match findBlockStart? code, findBlockEnd? code with
  | some start, some stop => some (start.before ++ start.target, stop.target ++ stop.after)
  | _, _ => none

/-- The scaffold of a page of clean lines is exactly the frame's opening and closing. -/
theorem scaffold?_page {frame : Frame} (hFrame : frame.AngleFree) {lines : List Line}
    (hClean : Line.Clean lines) :
    scaffold? (page frame lines) = some (opening frame, closing frame) := by
  obtain ⟨start, hStart, hOpening, -⟩ := findBlockStart?_page hFrame hClean
  obtain ⟨stop, hStop, -, hClosing⟩ := findBlockEnd?_page hFrame hClean
  simp only [scaffold?, hStart, hStop, hOpening, hClosing]

/-- Patching keeps the scaffold. Operations that write what can be read, on components that are known
by their kind or were recovered from the page at any depth, all succeed on the page of any plan,
and only what stands between its opener and its closer changes. -/
theorem applyAll_scaffold {frame : Frame} (hFrame : frame.AngleFree) {plan : Plan}
    (hPlan : Forest.Clean plan.components) {operations : List Operation}
    (hWritten : ∀ op ∈ operations, Forest.Clean op.written)
    (hChanges : ∀ op ∈ operations, ∀ change ∈ op.changes, change.Clean)
    (hTargets : ∀ op ∈ operations, ∀ target ∈ op.target?,
      target.source.getD [] = [] ∨ target ∈ Forest.walk (recover (render frame plan))) :
    ∃ start stop middle, scaffold? (render frame plan) = some (start, stop) ∧
      applyAll (render frame plan) operations = .ok (start ++ middle ++ stop) ∧
      scaffold? (start ++ middle ++ stop) = some (start, stop) := by
  have hClean := clean_lines hPlan 6
  have hOperations : ∀ op ∈ operations, op.Clean := by
    intro op hOp
    refine Operation.clean_of_written (fun target hTarget => ?_) (hWritten op hOp) (hChanges op hOp)
    rcases hTargets op hOp target hTarget with hKind | hRecovered
    · exact .inl hKind
    · rw [render_eq_page] at hRecovered
      exact recorded_of_mem_walk_recover hFrame hClean target hRecovered
  obtain ⟨left, hEach, hLeft, -⟩ := @applyEach_effects frame hFrame (fun _ => True) operations
    hOperations (fun _ _ _ _ _ _ => trivial) _ hClean trivial
  have hText : opening frame ++ Line.texts left ++ closing frame = page frame left :=
    List.append_assoc ..
  refine ⟨opening frame, closing frame, Line.texts left, ?_, ?_, ?_⟩
  · rw [render_eq_page, scaffold?_page hFrame hClean]
  · rw [render_eq_page, applyAll, if_pos (hasBlock_page hFrame hClean), hEach, hText]
  · rw [hText, scaffold?_page hFrame hLeft]

/-- A card inside a card, so that its first closing tag ends the pair of the outer one. -/
def nestedPlan : Plan where
  layout := "dashboard"
  components :=
    [⟨.card, [("title", .text "Users")],
      [⟨.card, [("title", .text "a > b")], [.leaf .button [("wide", .boolean true)]], none⟩,
        .leaf .input []], none⟩,
      .leaf .navbar []]
  modifications := []

/-- New children, other props and a removal for everything that was recovered, then edits of
components known by their kind. -/
def nestedOperations (recovered : Forest) : List Operation :=
  recovered.map (fun c => .updateChildren c [.leaf .table []]) ++
    (recovered.map (fun c => .updateProps c [.set "title" (.text "b"), .remove "wide"]) ++
      (recovered.map .remove ++
        [.move (.leaf .navbar []) .finish, .replace (.leaf .card []) (.leaf .chart []),
          .add (.leaf .sidebar []) .afterNavbar]))

/-- A script that edits and then removes every component of a nested page leaves its scaffold alone. -/
theorem applyAll_scaffold_nestedPlan :
    sampleFrame.AngleFree ∧ Forest.Clean nestedPlan.components ∧
      (Forest.walk (recover (render sampleFrame nestedPlan))).length = 4 ∧
      ∃ start stop middle, scaffold? (render sampleFrame nestedPlan) = some (start, stop) ∧
        applyAll (render sampleFrame nestedPlan)
            (nestedOperations (Forest.walk (recover (render sampleFrame nestedPlan)))) =
          .ok (start ++ middle ++ stop) ∧
        scaffold? (start ++ middle ++ stop) = some (start, stop) := by
  have hFrame : sampleFrame.AngleFree := by decide +kernel
  have hPlan : Forest.Clean nestedPlan.components := by decide +kernel
  have hTable : Forest.Clean [.leaf .table []] := by decide
  have hNone : Forest.Clean [] := by decide
  have hChange : ∀ change ∈ [Change.set "title" (.text "b"), .remove "wide"], change.Clean := by
    have hTitle : Props.Clean [("title", .text "b")] := by decide
    simpa [Change.Clean] using hTitle
  have hKinds : Forest.Clean [.leaf .navbar []] ∧ Forest.Clean [.leaf .chart []] ∧
      Forest.Clean [.leaf .sidebar []] := by decide
  refine ⟨hFrame, hPlan, by decide +kernel, applyAll_scaffold hFrame hPlan ?_ ?_ ?_⟩
  all_goals
    simp only [nestedOperations, List.forall_mem_append, List.forall_mem_map, List.forall_mem_cons]
  · exact ⟨fun _ _ => hTable, fun _ _ => hNone, fun _ _ => hNone, hKinds.1, hKinds.2.1, hKinds.2.2,
      nofun⟩
  · exact ⟨fun _ _ => nofun, fun _ _ => hChange, fun _ _ => nofun, nofun, nofun, nofun, nofun⟩
  · simp only [Operation.target?, Option.mem_some_iff, forall_eq']
    exact ⟨fun _ => .inr, fun _ => .inr, fun _ => .inr, .inl rfl, .inl rfl, nofun, nofun⟩

end Page
end Wireframe
