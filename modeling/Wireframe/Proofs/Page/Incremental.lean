import Wireframe.Proofs.Page.Revising

/-! Patching a page towards a revised plan. If roots are dropped, renewed or appended and no
text confuses two of them, then the revision is one in place, and the patched page is the page of
the revised plan. -/
namespace Wireframe

inductive RootEdit where
  | keep
  | drop
  | renew (children : Forest)

namespace RootEdit

def stays : RootEdit → Bool
  | .drop => false
  | _ => true

def apply (c : Component) : RootEdit → Component
  | .renew children => c.withChildren children
  | _ => c

/-- New children have other shapes than the old ones. -/
def Effective (c : Component) : RootEdit → Prop
  | .renew children => Diff.sameShapes c.children children = false
  | _ => True

end RootEdit

abbrev RootEdits := List (Component × RootEdit)

namespace RootEdits

def before (edits : RootEdits) : Forest :=
  edits.map Prod.fst

/-- All roots after their edits, those that are dropped included. -/
def renewed (edits : RootEdits) : Forest :=
  edits.map fun entry => entry.2.apply entry.1

def after (edits : RootEdits) : Forest :=
  renewed (edits.filter fun entry => entry.2.stays)

def revision (edits : RootEdits) : Revision :=
  edits.map fun entry =>
    (entry.1, if entry.2.stays then some (entry.2.apply entry.1) else none)

/-- Edits of roots and the revision that they stand for start from the same roots. -/
theorem before_revision (edits : RootEdits) : (revision edits).before = before edits := by
  simp [revision, Revision.before, before]

/-- They also end with the same roots. -/
theorem after_revision (edits : RootEdits) : (revision edits).after = after edits := by
  induction edits with
  | nil => rfl
  | cons entry rest ih =>
      rw [revision, Revision.after, after, renewed] at ih ⊢
      cases hStays : entry.2.stays <;> simp [hStays, ih]

/-- A root that stays comes from a root with an edit. -/
theorem exists_edit {edits : RootEdits} {entry : Component × Option Component}
    (hEntry : entry ∈ revision edits) {c : Component} (hc : c ∈ entry.2) :
    ∃ edit, (entry.1, edit) ∈ edits ∧ edit.stays = true ∧ c = edit.apply entry.1 := by
  obtain ⟨⟨old, edit⟩, hEdit, rfl⟩ := List.mem_map.mp hEntry
  obtain ⟨hStays, hEq⟩ := Option.ite_none_right_eq_some.mp hc
  exact ⟨edit, hEdit, hStays, (Option.some.inj hEq).symm⟩

end RootEdits

namespace Page

open Diff RootEdits

/-- An edit keeps the texts that identify a root, so that the comparison pairs the root with its old
self. -/
theorem alike_apply (c : Component) (edit : RootEdit) : Alike (edit.apply c) c := by
  cases edit <;> exact ⟨rfl, rfl⟩

/-- A root that stays is changed into its edited form. -/
theorem settles_apply {frame : Frame} (hFrame : frame.AngleFree) {c : Component} {edit : RootEdit}
    (hPlain : Forest.Plain [c]) (hEffective : edit.Effective c) (hStays : edit.stays = true) :
    Settles frame c (edit.apply c) := by
  intro first root last hRoots hText hFirst rest
  have hKeyed := hPlain.clean.keyed
  cases edit with
  | drop => cases hStays
  | keep =>
      have hSelf := rootOperations_recorded_self hKeyed rootIndent
      have hKept : RootEdit.keep.apply c = c := rfl
      rw [hKept, hSelf, List.nil_append, page_eq_of_texts]
      simp [hText]
  | renew children =>
      have hRoot := (Forest.plain_cons.mp hRoots.right).1
      have hKind := kind_eq_of_rootText_eq hPlain hText
      have hShapes : sameShapes c.children children = false := hEffective
      have hUpdate : rootOperations (c.recorded rootIndent) (c.withChildren children) =
          [.updateChildren (c.recorded rootIndent) children] := by
        have hChanges := propChanges_self (hKeyed c (Forest.mem_walk_self c []))
        simp [rootOperations_recorded, Component.withChildren, hShapes, hChanges]
      have hVisible := visible_eq_of_rootText_eq hPlain hRoot hText
      have hRenewed : rootText (root.withChildren children) = rootText (c.withChildren children) :=
        rootText_eq hKind hVisible rfl
      rw [RootEdit.apply, hUpdate, List.singleton_append, applyEach, apply,
        updateChildren_root hFrame hRoots hText hFirst hKind, page_eq_of_texts]
      simp [hRenewed]

/-- Edits of roots that no text confuses are a revision in place. -/
theorem inPlace_revision {edits : RootEdits} {added : Forest}
    (hKinds : ∀ c ∈ added, c.kind ≠ .navbar ∧ c.kind ≠ .sidebar)
    (hApart : (before edits ++ added).Pairwise Apart) (hBefore : Forest.Plain (before edits))
    (hAfter : Forest.Plain (after edits)) : (revision edits).InPlace none added := by
  obtain ⟨hRoots, -, hAdded⟩ := List.pairwise_append.mp hApart
  have hPairs : (revision edits).Pairwise fun entry later => Apart entry.1 later.1 := by
    rw [before, List.pairwise_map] at hRoots
    rw [revision, List.pairwise_map]
    exact hRoots
  -- Roots match the ones they come from, and no root that is apart from them.
  refine ⟨?_, ?_, ?_, by simp, by simp, hKinds, ?_⟩
  · intro entry hEntry c hc
    obtain ⟨edit, -, -, rfl⟩ := exists_edit hEntry hc
    exact matchesRoot_of_alike (alike_apply _ edit).symm
  · refine hPairs.imp_of_mem fun _ hLater hPair _ c hc => ?_
    obtain ⟨edit, -, -, rfl⟩ := exists_edit hLater hc
    exact matchesRoot_of_apart (hPair.symm.congr (alike_apply _ edit) ⟨rfl, rfl⟩)
  · refine hPairs.imp_of_mem fun {entry later} hEntry hLater hPair => .inr fun c hc => ?_
    obtain ⟨edit, hEdit, hStays, rfl⟩ := exists_edit hEntry hc
    have hLaterPlain := Forest.plain_iff.mp hBefore later.1 (by
      rw [← before_revision]
      exact List.mem_map_of_mem hLater)
    have hKeptPlain := Forest.plain_iff.mp hAfter (edit.apply entry.1)
      (List.mem_map.mpr ⟨_, List.mem_filter.mpr ⟨hEdit, hStays⟩, rfl⟩)
    exact rootText_ne_of_apart hLaterPlain hKeptPlain
      (hPair.congr (alike_apply _ edit) ⟨rfl, rfl⟩)
  · intro c hc entry hEntry _
    obtain ⟨⟨old, edit⟩, hEdit, rfl⟩ := List.mem_map.mp hEntry
    exact matchesRoot_of_apart (hAdded old (List.mem_map_of_mem hEdit) c hc).symm

/-- Patching equals rendering afresh. If a plan keeps, drops or renews the roots of another plan and
appends further ones, and no text confuses two of the roots that take part, then patching the page
of the other plan gives the page of the plan. -/
theorem applyAll_operations {frame : Frame} (hFrame : frame.AngleFree) {edits : RootEdits}
    {added : Forest} (hEffective : ∀ entry ∈ edits, entry.2.Effective entry.1)
    (hKinds : ∀ c ∈ added, c.kind ≠ .navbar ∧ c.kind ≠ .sidebar)
    (hApart : (before edits ++ added).Pairwise Apart) {old new : Plan}
    (hOld : old.components = before edits) (hNew : new.components = after edits ++ added)
    (hOldPlain : Forest.Plain old.components) (hNewPlain : Forest.Plain new.components)
    (hLog : new.modifications = []) (strategy : Strategy) :
    applyAll (render frame old) (Diff.operations strategy (recover (render frame old)) new) =
      .ok (render frame new) := by
  have hBefore : Forest.Plain (before edits) := hOld ▸ hOldPlain
  have hAfter : Forest.Plain (after edits) := (hNew ▸ hNewPlain : Forest.Plain _).left
  refine applyAll_inPlace hFrame (inPlace_revision hKinds hApart hBefore hAfter) ?_
    (hOld.trans (before_revision edits).symm) ?_ hOldPlain hNewPlain (logged_of_empty hLog) strategy
  · intro entry hEntry c hc
    obtain ⟨edit, hEdit, hStays, rfl⟩ := exists_edit hEntry hc
    have hPlain := Forest.plain_iff.mp hBefore entry.1 (List.mem_map_of_mem hEdit)
    exact settles_apply hFrame hPlain (hEffective _ hEdit) hStays
  · rw [hNew, after_revision]
    rfl

/-- A navbar that stays, a card that gets other children, a table that goes and two cards that
stay, one of them without any text. -/
def sampleEdits : RootEdits :=
  [(⟨.navbar, [], [], none⟩, .keep),
    (⟨.card, [("title", .text "Users"), ("wide", .boolean false)],
      [.leaf .table [("title", .text "Users")]], none⟩,
      .renew [.leaf .input [("label", .text "Name"), ("size", .integer 3)]]),
    (⟨.table, [("title", .text "Users")], [], none⟩, .drop),
    (⟨.card, [], [⟨.modal, [], [.leaf .table [("title", .text "Users")]], none⟩], none⟩, .keep)]

def sampleAdded : Forest :=
  [.leaf .card [("title", .text "Sales")], .leaf .chart []]

theorem applyAll_operations_sampleEdits :
    sampleFrame.AngleFree ∧ (∀ entry ∈ sampleEdits, entry.2.Effective entry.1) ∧
      (∀ c ∈ sampleAdded, c.kind ≠ .navbar ∧ c.kind ≠ .sidebar) ∧
      (before sampleEdits ++ sampleAdded).Pairwise Apart ∧
      Forest.Plain (before sampleEdits) ∧ Forest.Plain (after sampleEdits ++ sampleAdded) ∧
      ∀ strategy,
        applyAll (render sampleFrame ⟨"dashboard", before sampleEdits, []⟩)
            (Diff.operations strategy
              (recover (render sampleFrame ⟨"dashboard", before sampleEdits, []⟩))
              ⟨"dashboard", after sampleEdits ++ sampleAdded, []⟩) =
          .ok (render sampleFrame ⟨"dashboard", after sampleEdits ++ sampleAdded, []⟩) := by
  have hFrame : sampleFrame.AngleFree := by decide +kernel
  have hEffective : ∀ entry ∈ sampleEdits, entry.2.Effective entry.1 := by
    simp [sampleEdits, RootEdit.Effective, Diff.sameShapes, Diff.sameShape, Component.leaf]
  have hKinds : ∀ c ∈ sampleAdded, c.kind ≠ .navbar ∧ c.kind ≠ .sidebar := by decide +kernel
  have hApart : (before sampleEdits ++ sampleAdded).Pairwise Apart := by decide +kernel
  have hOld : Forest.Plain (before sampleEdits) := by decide +kernel
  have hNew : Forest.Plain (after sampleEdits ++ sampleAdded) := by decide +kernel
  exact ⟨hFrame, hEffective, hKinds, hApart, hOld, hNew, fun strategy =>
    applyAll_operations hFrame hEffective hKinds hApart rfl rfl hOld hNew rfl strategy⟩

end Page
end Wireframe
