import Wireframe.Proofs.Page.TreeEdits

/-! Editing the text of a page simulates editing its forest. Each operation on the page
of a plain forest gives the page of the edited forest, and so does any list of them
as long as the forests on the way stay plain. -/
namespace Wireframe

namespace Operation

/-- The operation knows its target by kind alone, since no text is recorded for it. -/
def IsTypeOnly (op : Operation) : Prop :=
  ∀ target ∈ op.target?, target.source.getD [] = []

/-- Where the operation puts a root after the navbar, the first navbar of the forest that it then
meets is a root, or there is none. -/
def MeetsRootNavbar (forest : Forest) : Operation → Prop
  | .add _ .afterNavbar => Forest.firstIsRoot .navbar forest = true
  | .move target .afterNavbar =>
    ∀ rest ∈ Forest.dropFirst? target.kind forest, Forest.firstIsRoot .navbar rest = true
  | _ => True

instance (op : Operation) : Decidable op.IsTypeOnly :=
  inferInstanceAs (Decidable (∀ target ∈ op.target?, _))

instance (forest : Forest) : (op : Operation) → Decidable (op.MeetsRootNavbar forest)
  | .add _ .afterNavbar => inferInstanceAs (Decidable (_ = true))
  | .move target .afterNavbar =>
    inferInstanceAs (Decidable (∀ rest ∈ Forest.dropFirst? target.kind forest, _ = true))
  | .add _ .start | .add _ .finish | .move _ .start | .move _ .finish | .remove _
  | .updateProps _ _ | .updateChildren _ _ | .replace _ _ => isTrue trivial

end Operation

namespace Page

open Text

/-- Every forest that an operation of the list meets is plain, and the operation can be simulated
there. -/
def Met : Forest → List Operation → Prop
  | _, [] => True
  | forest, op :: rest =>
    Forest.Plain forest ∧ op.IsTypeOnly ∧ op.MeetsRootNavbar forest ∧ Met (op.edit forest) rest

instance decidableMet : (forest : Forest) → (operations : List Operation) →
    Decidable (Met forest operations)
  | _, [] => isTrue trivial
  | forest, op :: rest =>
    have := decidableMet (op.edit forest) rest
    inferInstanceAs (Decidable (_ ∧ _ ∧ _ ∧ _))

/-- The first component of a kind, in pre-order, stands in the lines as one span with lines before
and behind. -/
theorem FirstOf.lines_span {kind : Kind} {indent : Nat} {forest : Forest}
    (found : FirstOf kind indent forest) :
    Forest.lines indent forest =
      found.first ++ ((spanOf found.column found.component).lines ++ found.last) := by
  rw [lines_spanOf, found.lines_eq]

section

variable {frame : Frame} (hFrame : frame.AngleFree) {forest : Forest}
  (hPlain : Forest.Plain forest)
include hFrame hPlain

/-- A kind is found on the page where its first component is found in the forest. -/
theorem FirstOf.findKind? {kind : Kind} (found : FirstOf kind 6 forest) :
    findKind? kind (page frame (Forest.lines 6 forest)) =
      some ((spanOf found.column found.component).cutIn frame found.first found.last) := by
  have hClean := clean_lines hPlain.clean 6
  rw [found.lines_eq] at hClean
  rw [found.lines_span]
  exact findKind?_span hFrame _ (Line.clean_append.mp hClean).1 found.not_opening found.kind_eq
    found.legible

/-- Inserting behind the first navbar of the text inserts behind the navbar root, provided the first
navbar of the forest is a root. -/
theorem insertAfterNavbar_lines (new : Component)
    (hRoot : Forest.firstIsRoot .navbar forest = true) :
    insertAfterNavbar (page frame (Forest.lines 6 forest)) (renderComponent rootIndent new) =
      .ok (page frame (Forest.lines 6 (Forest.addRootAt new .afterNavbar forest))) := by
  have hClean := clean_lines hPlain.clean 6
  rcases Forest.insertAfterRoot?_cases new hRoot with
    ⟨before, c, after, rfl, hBefore, hKind, hInsert⟩ | ⟨hNone, hInsert⟩
  · have hLines : Forest.lines 6 (before ++ c :: after) =
        Forest.lines 6 before ++ ((spanOf 6 c).lines ++ Forest.lines 6 after) := by
      rw [Forest.lines_append, Forest.lines_cons, lines_spanOf]
    rw [hLines] at hClean
    have hFind := findKind?_span hFrame (Forest.lines 6 after)
      (Line.clean_append.mp hClean).1 (not_opening_of_not_hasKind hBefore 6)
      (show (spanOf 6 c).kind = .navbar from hKind) (legible_spanOf hPlain.right 6)
    rw [hLines, insertAfterNavbar_page hFind, Forest.addRootAt, hInsert, Option.getD_some,
      Forest.lines_append, Forest.lines_cons, Forest.lines_cons, lines_spanOf]
  · have hFind := findKind?_eq_none hFrame hClean (not_opening_of_not_hasKind hNone 6)
    rw [insertAfterNavbar, hFind, Forest.addRootAt, hInsert]
    exact insertAtStart_page hFrame hClean new

/-- Inserting a component commutes with writing the page, at each of the positions. -/
theorem insert_lines (new : Component) (position : Position)
    (hRoot : position = .afterNavbar → Forest.firstIsRoot .navbar forest = true) :
    insert (page frame (Forest.lines 6 forest)) new position =
      .ok (page frame (Forest.lines 6 (Forest.addRootAt new position forest))) := by
  have hClean := clean_lines hPlain.clean 6
  cases position with
  | start => exact insertAtStart_page hFrame hClean new
  | afterNavbar => exact insertAfterNavbar_lines hFrame hPlain new (hRoot rfl)
  | finish =>
      have hLines : Forest.lines 6 (Forest.addRootAt new .finish forest) =
          Forest.lines 6 forest ++ new.lines 6 := by
        rw [Forest.addRootAt, Forest.lines_append, Forest.lines_cons]
        simp [Forest.lines]
      rw [hLines]
      exact insertAtEnd_page hFrame hClean new

variable {target : Component} (hTarget : target.source.getD [] = [])
include hTarget

omit hFrame hPlain in
/-- A target that records no source is looked for by its tag alone. -/
theorem locate?_of_typeOnly (code : Text) : locate? code target = findKind? target.kind code := by
  rw [locate?, hTarget]
  rfl

/-- A target that the forest does not have is not found. -/
theorem locate?_eq_none (hKind : Forest.hasKind target.kind forest = false) :
    locate? (page frame (Forest.lines 6 forest)) target = none := by
  rw [locate?_of_typeOnly hTarget]
  exact findKind?_eq_none hFrame (clean_lines hPlain.clean 6) (not_opening_of_not_hasKind hKind 6)

/-- The tag search ends at the first component of the kind in pre-order: no tag before it has the
name, and its closing tag is the next of the kind. -/
theorem FirstOf.locate? (found : FirstOf target.kind 6 forest) :
    Page.locate? (page frame (found.first ++
        ((spanOf found.column found.component).lines ++ found.last))) target =
      some ((spanOf found.column found.component).cutIn frame found.first found.last) := by
  rw [← found.lines_span, locate?_of_typeOnly hTarget]
  exact found.findKind? hFrame hPlain

/-- The common shape of the edits that look for a target: on a text without the target they change
nothing, and the forest does not change either if it has no component of that kind. It is left to show
what the edit does where the first such component is located. -/
theorem edit_lines (edit : Text → Text) {change? : Forest → Option Forest}
    (hMissed : ∀ code, Page.locate? code target = none → edit code = code)
    (hAbsent : Forest.hasKind target.kind forest = false → change? forest = none)
    (hFound : ∀ found : FirstOf target.kind 6 forest,
      Page.locate? (page frame (found.first ++
          ((spanOf found.column found.component).lines ++ found.last))) target =
        some ((spanOf found.column found.component).cutIn frame found.first found.last) →
      ∃ edited, change? forest = some edited ∧
        edit (page frame (found.first ++
          ((spanOf found.column found.component).lines ++ found.last))) =
            page frame (Forest.lines 6 edited)) :
    edit (page frame (Forest.lines 6 forest)) =
      page frame (Forest.lines 6 ((change? forest).getD forest)) := by
  cases hKind : Forest.hasKind target.kind forest with
  | false =>
      rw [hMissed _ (locate?_eq_none hFrame hPlain hTarget hKind), hAbsent hKind]
      rfl
  | true =>
      obtain ⟨found⟩ := exists_firstOf hPlain hKind 6
      obtain ⟨edited, hChange, hEdit⟩ := hFound found (found.locate? hFrame hPlain hTarget)
      rw [found.lines_span, hEdit, hChange]
      rfl

/-- Deleting by kind removes the first component of the kind from the forest, and nothing when there
is none. -/
theorem delete_lines :
    delete (page frame (Forest.lines 6 forest)) target =
      page frame (Forest.lines 6 ((Forest.dropFirst? target.kind forest).getD forest)) := by
  refine edit_lines hFrame hPlain hTarget (fun code => delete code target)
    (fun code hNone => by rw [delete, hNone])
    (fun hKind => (Forest.edits_of_not_hasKind id hKind).1) fun found hLocate => ?_
  obtain ⟨edited, hDrop, hLines⟩ := found.drop
  exact ⟨edited, hDrop, by rw [delete_page hLocate, hLines]⟩

/-- An edit that puts other lines in the place of a component, by a change of that component. -/
theorem update_lines (edit : Text → Text) {change : Component → Component}
    (hMissed : ∀ code, Page.locate? code target = none → edit code = code)
    (hFound : ∀ found : FirstOf target.kind 6 forest,
      Page.locate? (page frame (found.first ++
          ((spanOf found.column found.component).lines ++ found.last))) target =
        some ((spanOf found.column found.component).cutIn frame found.first found.last) →
      edit (page frame (found.first ++
          ((spanOf found.column found.component).lines ++ found.last))) =
        page frame (found.first ++ ((change found.component).lines found.column ++ found.last))) :
    edit (page frame (Forest.lines 6 forest)) =
      page frame (Forest.lines 6 ((Forest.updateFirst? target.kind change forest).getD forest)) := by
  refine edit_lines hFrame hPlain hTarget edit hMissed
    (fun hKind => (Forest.edits_of_not_hasKind change hKind).2) fun found hLocate => ?_
  obtain ⟨edited, hUpdate, hLines⟩ := found.update change
  exact ⟨edited, hUpdate, by rw [hFound found hLocate, hLines]⟩

/-- Changing props by kind changes those of the first component of the kind. -/
theorem updateProps_lines (changes : List Change) :
    updateProps (page frame (Forest.lines 6 forest)) target changes =
      page frame (Forest.lines 6 ((Forest.updateFirst? target.kind
        (Component.changeProps changes) forest).getD forest)) := by
  refine update_lines hFrame hPlain hTarget (fun code => updateProps code target changes)
    (fun code hNone => by rw [updateProps, hNone]) fun found hLocate => ?_
  rw [updateProps_page hLocate found.legible, ← lines_spanOf]
  rfl

/-- New children by kind go to the first component of the kind. -/
theorem updateChildren_lines (children : Forest) :
    updateChildren (page frame (Forest.lines 6 forest)) target children =
      page frame (Forest.lines 6 ((Forest.updateFirst? target.kind
        (Component.withChildren children) forest).getD forest)) := by
  refine update_lines hFrame hPlain hTarget (fun code => updateChildren code target children)
    (fun code hNone => by rw [updateChildren, hNone]) fun found hLocate => ?_
  rw [updateChildren_page hLocate found.legible found.kind_eq.symm, ← lines_spanOf]
  rfl

/-- Replacing by kind puts the new component where the first of the kind stood. -/
theorem replace_lines (replacement : Component) :
    replace (page frame (Forest.lines 6 forest)) target replacement =
      page frame (Forest.lines 6 ((Forest.updateFirst? target.kind
        (fun _ => replacement) forest).getD forest)) := by
  refine update_lines hFrame hPlain hTarget (fun code => replace code target replacement)
    (fun code hNone => by rw [replace, hNone]) fun found hLocate => ?_
  rw [replace_page hLocate]
  rfl

/-- A move is a deletion and an insertion of what was deleted, and both commute with writing the
page. -/
theorem move_lines (position : Position)
    (hRoot : (Operation.move target position).MeetsRootNavbar forest) :
    apply (page frame (Forest.lines 6 forest)) (.move target position) =
      .ok (page frame (Forest.lines 6 ((Operation.move target position).edit forest))) := by
  cases hKind : Forest.hasKind target.kind forest with
  | false =>
      have hDrop := (Forest.edits_of_not_hasKind id hKind).1
      rw [apply, locate?_eq_none hFrame hPlain hTarget hKind, Operation.edit, hDrop]
      rfl
  | true =>
      obtain ⟨found⟩ := exists_firstOf hPlain hKind 6
      obtain ⟨edited, hDrop, hLines⟩ := found.drop
      have hSome : (Page.locate? (page frame (Forest.lines 6 forest)) target).isSome = true := by
        rw [found.lines_span, found.locate? hFrame hPlain hTarget]
        rfl
      have hEdited : delete (page frame (Forest.lines 6 forest)) target =
          page frame (Forest.lines 6 edited) := by
        rw [delete_lines hFrame hPlain hTarget, hDrop, Option.getD_some]
      have hInsert := insert_lines hFrame (hPlain.dropFirst? hDrop) target position fun hPosition => by
        subst hPosition
        exact hRoot edited hDrop
      rw [apply, if_pos hSome, hEdited, hInsert, Operation.edit, hDrop]

end

/-- One operation on the page of a plain forest gives the page of the edited forest. -/
theorem apply_lines {frame : Frame} (hFrame : frame.AngleFree) {forest : Forest}
    (hPlain : Forest.Plain forest) {op : Operation} (hType : op.IsTypeOnly)
    (hRoot : op.MeetsRootNavbar forest) :
    apply (page frame (Forest.lines 6 forest)) op =
      .ok (page frame (Forest.lines 6 (op.edit forest))) := by
  cases op with
  | add new position =>
      refine insert_lines hFrame hPlain new position fun hPosition => ?_
      subst hPosition
      exact hRoot
  | move target position => exact move_lines hFrame hPlain (hType target rfl) position hRoot
  | remove target =>
      rw [apply, delete_lines hFrame hPlain (hType target rfl)]
      rfl
  | updateProps target changes =>
      rw [apply, updateProps_lines hFrame hPlain (hType target rfl)]
      rfl
  | updateChildren target children =>
      rw [apply, updateChildren_lines hFrame hPlain (hType target rfl)]
      rfl
  | replace target replacement =>
      rw [apply, replace_lines hFrame hPlain (hType target rfl)]
      rfl

/-- The simulation for a whole script, by induction over it: each operation finds a page of the
forest the ones before it produced. -/
theorem applyEach_lines {frame : Frame} (hFrame : frame.AngleFree) {operations : List Operation} :
    ∀ {forest : Forest}, Met forest operations →
      applyEach operations (page frame (Forest.lines 6 forest)) =
        .ok (page frame (Forest.lines 6 (operations.foldl Operation.edit forest))) := by
  induction operations with
  | nil => exact fun _ => rfl
  | cons op rest ih =>
      rintro forest ⟨hPlain, hType, hRoot, hRest⟩
      rw [applyEach, apply_lines hFrame hPlain hType hRoot]
      exact ih hRest

/-- Editing text simulates editing components. Operations that name their targets by kind, applied
to the page of a plain plan, give the page of the plan whose forest is edited in the same way, as
long as the forests that they meet are plain and what goes after the navbar meets it as a root. -/
theorem applyAll_render {frame : Frame} (hFrame : frame.AngleFree) {plan : Plan}
    (hPlain : Forest.Plain plan.components) {operations : List Operation}
    (hMet : Met plan.components operations) :
    applyAll (render frame plan) operations = .ok (render frame
      { plan with components := operations.foldl Operation.edit plan.components }) := by
  have hClean := clean_lines hPlain.clean 6
  rw [render_eq_page, render_eq_page, applyAll, if_pos (hasBlock_page hFrame hClean)]
  exact applyEach_lines hFrame hMet

/-- Operations of every kind, some of which meet what others have put in place. -/
def sampleOperations : List Operation :=
  [.add ⟨.navbar, [("title", .text "Home")], [], none⟩ .start,
    .add ⟨.sidebar, [], [.leaf .button [("children", .text "Go")]], none⟩ .afterNavbar,
    .updateProps (.leaf .modal []) [.set "size" (.real (.zero false)), .remove "title",
      .set "open" (.boolean false), .set "wide" (.boolean true)],
    .updateChildren (.leaf .card []) [.leaf .table [("rows", .list [.integer (-1)])]],
    .replace (.leaf .card []) (.leaf .chart [("title", .text "a > \"b\"")]),
    .move (.leaf .sidebar []) .finish,
    .remove (.leaf .navbar [])]

theorem applyAll_render_sampleOperations :
    sampleFrame.AngleFree ∧ Forest.Plain samplePlan.components ∧
      Met samplePlan.components sampleOperations ∧
      applyAll (render sampleFrame samplePlan) sampleOperations = .ok (render sampleFrame
        { samplePlan with
          components := sampleOperations.foldl Operation.edit samplePlan.components }) := by
  have hFrame : sampleFrame.AngleFree := by decide +kernel
  have hPlain : Forest.Plain samplePlan.components := by decide +kernel
  have hMet : Met samplePlan.components sampleOperations := by decide +kernel
  exact ⟨hFrame, hPlain, hMet, applyAll_render hFrame hPlain hMet⟩

end Page
end Wireframe
