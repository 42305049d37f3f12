import Wireframe.Proofs.Page.EditScript
import Wireframe.Proofs.Page.OpeningTags
import Wireframe.Proofs.Page.RecoveredPairs
import Wireframe.Proofs.Page.Simulation

/-! The edit script carried out on page source. Each root that is paired is found by its recorded
text, and once its content has changed by its opening tag. If no other component has that tag when
it is sought, the page goes through the roots that the script gives. -/
namespace Wireframe

open Diff Page Forest

namespace Props

/-- Changed props hold what was there before and what was set. -/
theorem mem_foldl_applyTo {changes : List Change} {entry : String × Value} :
    ∀ {props : Props}, entry ∈ changes.foldl Change.applyTo props →
      entry ∈ props ∨ .set entry.1 entry.2 ∈ changes := by
  induction changes with
  | nil => exact .inl
  | cons change rest ih =>
      intro props hEntry
      rcases ih hEntry with hEntry | hSet
      · cases change with
        | remove key => exact .inl (List.mem_of_mem_filter hEntry)
        | set key value =>
            rw [Change.applyTo] at hEntry
            split at hEntry
            · exact .inl (List.mem_of_mem_filter hEntry)
            · rcases mem_set hEntry with rfl | hEntry
              · exact .inr List.mem_cons_self
              · exact .inl hEntry
      · exact .inr (List.mem_cons_of_mem _ hSet)

/-- A value is read back by the attribute reader up to a fixed number of brace levels; props are
shallow when all their values are. -/
theorem shallow_iff {props : Props} :
    props.Shallow ↔ ∀ entry ∈ props, entry.2.braces < braceDepth := by
  induction props with
  | nil => simp [Shallow, Value.entriesBraces, braceDepth]
  | cons entry rest ih =>
      rw [List.forall_mem_cons, ← ih, Shallow, Value.entriesBraces, Nat.max_lt]
      rfl

end Props

/-- Plainness of one root, unfolded to the conditions on its props, its kind and its children. -/
theorem Forest.plain_root_iff {c : Component} :
    Plain [c] ↔ c.props.Clean ∧ c.props.Shallow ∧ c.Unrepeated ∧ Plain c.children := by
  have hWalk : ∀ d, d ∈ walk [c] ↔ d = c ∨ d ∈ walk c.children := by simp [walk_cons]
  constructor
  · intro h
    have hc := mem_walk_self c []
    exact ⟨h.clean c hc, h.shallow c hc, h.unnested c hc, h.children⟩
  · rintro ⟨hClean, hShallow, hUnrepeated, hChildren⟩
    refine ⟨fun d hd => ?_, fun d hd => ?_, fun d hd => ?_⟩
    · rcases (hWalk d).mp hd with rfl | hd
      · exact hClean
      · exact hChildren.clean d hd
    · rcases (hWalk d).mp hd with rfl | hd
      · exact hShallow
      · exact hChildren.shallow d hd
    · rcases (hWalk d).mp hd with rfl | hd
      · exact hUnrepeated
      · exact hChildren.unnested d hd

namespace Diff

theorem kind_renewed (old new : Component) : (renewed old new).kind = old.kind := by
  rw [renewed]
  split <;> split <;> rfl

theorem children_renewed (old new : Component) : (renewed old new).children =
    if sameShapes old.children new.children then old.children else new.children := by
  rw [renewed]
  split <;> split <;> rfl

/-- Updating keeps the old props where they compare equal to the new ones, and otherwise applies the
changes to the visible ones in the order of the diff. -/
theorem props_renewed (old new : Component) : (renewed old new).props =
    if Value.same (.object (visible old.props)) (.object (visible new.props)) then old.props
    else (propChanges old.props new.props).foldl Change.applyTo (visible old.props) := by
  rw [renewed]
  split <;> split <;> rfl

/-- Applying changes writes only values of the new props or keeps old ones, so it makes no value
deeper than both. -/
theorem shallow_propChanges {old new : Props} (hOld : old.Shallow) (hNew : new.Shallow) :
    Props.Shallow ((propChanges old new).foldl Change.applyTo (visible old)) := by
  rw [Props.shallow_iff] at hOld hNew ⊢
  intro entry hEntry
  rcases Props.mem_foldl_applyTo hEntry with hEntry | hSet
  · exact hOld entry (List.mem_of_mem_filter hEntry)
  · rcases List.mem_append.mp hSet with hSet | hRemove
    · obtain ⟨other, hOther, hEq⟩ := List.mem_map.mp hSet
      rw [Change.set.injEq] at hEq
      exact hEq.2 ▸ hNew other (List.mem_of_mem_filter (List.mem_of_mem_filter hOther))
    · obtain ⟨_, _, hEq⟩ := List.mem_map.mp hRemove
      cases hEq

section

variable {old new : Component} (hOld : Plain [old]) (hNew : Plain [new])
  (hKind : old.kind = new.kind)
include hOld hNew hKind

/-- A root that takes over the children of another stays plain, as long as both roots are. -/
theorem plain_withChildren : Plain [old.withChildren new.children] := by
  obtain ⟨hClean, hShallow, -, -⟩ := plain_root_iff.mp hOld
  obtain ⟨-, -, hUnrepeated, hChildren⟩ := plain_root_iff.mp hNew
  exact plain_root_iff.mpr ⟨hClean, hShallow, fun d hd => hKind ▸ hUnrepeated d hd, hChildren⟩

/-- A plain root that is renewed is plain. -/
theorem plain_renewed : Plain [renewed old new] := by
  obtain ⟨hClean, hShallow, hUnrepeated, hChildren⟩ := plain_root_iff.mp hOld
  obtain ⟨hNewClean, hNewShallow, hNewUnrepeated, hNewChildren⟩ := plain_root_iff.mp hNew
  refine plain_root_iff.mpr ⟨?_, ?_, fun d hd => ?_, ?_⟩
  · rw [props_renewed]
    split
    · exact hClean
    · exact Change.clean_foldl (clean_propChanges hNewClean _) (hClean.filter _)
  · rw [props_renewed]
    split
    · exact hShallow
    · exact shallow_propChanges hShallow hNewShallow
  · rw [children_renewed] at hd
    rw [kind_renewed]
    split at hd
    · exact hUnrepeated d hd
    · exact hKind ▸ hNewUnrepeated d hd
  · rw [children_renewed]
    split
    · exact hChildren
    · exact hNewChildren

end

end Diff

namespace Page

/-- Carrying operations out on the page of some roots gives the page of others. -/
def Rewrites (frame : Frame) (operations : List Operation) (roots edited : Forest) : Prop :=
  ∀ rest, applyEach (operations ++ rest) (page frame (Forest.lines 6 roots)) =
    applyEach rest (page frame (Forest.lines 6 edited))

theorem Rewrites.nil {frame : Frame} (roots : Forest) : Rewrites frame [] roots roots :=
  fun _ => rfl

/-- Scripts compose: the page after the first is the page the second begins with. -/
theorem Rewrites.append {frame : Frame} {first last : List Operation} {roots middle edited : Forest}
    (hFirst : Rewrites frame first roots middle) (hLast : Rewrites frame last middle edited) :
    Rewrites frame (first ++ last) roots edited := by
  intro rest
  rw [List.append_assoc, hFirst, hLast]

section

variable {frame : Frame} (hFrame : frame.AngleFree) {old new root : Component} {first last : Forest}
  (hOld : Plain [old]) (hNew : Plain [new]) (hKind : old.kind = new.kind)
  (hRoots : Plain (first ++ root :: last)) (hText : rootText root = rootText old)
  (hFirst : ∀ e ∈ first, rootText e ≠ rootText old)
include hFrame hOld hNew hKind hRoots hText hFirst

/-- The operations for a pair renew the first root of the old text, if nothing else has its opening
tag when it is sought by that. -/
theorem rewrites_renewed
    (hOwn : sameShapes old.children new.children = false →
      Value.same (.object (visible old.props)) (.object (visible new.props)) = false →
      old.opener ∉ openers first ++ (openers new.children ++ openers last)) :
    Rewrites frame (rootOperations (old.recorded rootIndent) new) (first ++ root :: last)
      (first ++ renewed old new :: last) := by
  have hRoot := (plain_cons.mp hRoots.right).1
  have hRootKind := kind_eq_of_rootText_eq hOld hText
  have hVisible := visible_eq_of_rootText_eq hOld hRoot hText
  have hInner := inner_eq_of_rootText_eq hOld hRoot hText
  have hChanges := propChanges_eq_nil_iff (plain_root_iff.mp hOld).1.mapping
    (plain_root_iff.mp hNew).1.mapping
  have hFilled (hSame : Value.same (.object (visible old.props)) (.object (visible new.props)) =
      false) : (propChanges old.props new.props).isEmpty = false := by
    rw [List.isEmpty_eq_false_iff, ne_eq, hChanges, hSame]
    decide
  have hPage (edited : Component) (hEdited : rootText edited = rootText (renewed old new)) :
      page frame (Forest.lines 6 (first ++ edited :: last)) =
        page frame (Forest.lines 6 (first ++ renewed old new :: last)) :=
    page_eq_of_texts (by simp [hEdited]) frame
  intro rest
  rw [rootOperations_recorded]
  cases hShapes : sameShapes old.children new.children with
  | true =>
      cases hSame : Value.same (.object (visible old.props)) (.object (visible new.props)) with
      | true =>
          have hRenewed : renewed old new = old := by simp [renewed, hShapes, hSame]
          simp [hChanges.mpr hSame, hPage root (hText.trans (congrArg rootText hRenewed.symm))]
      | false =>
          have hEdited : rootText (root.changeProps (propChanges old.props new.props)) =
              rootText (renewed old new) := by
            refine rootText_eq (hRootKind.trans (kind_renewed old new).symm) ?_ ?_
            · simp [Component.changeProps, props_renewed, hSame, hVisible]
            · simpa [Component.changeProps, children_renewed, hShapes] using hInner
          simp [hFilled hSame, applyEach, apply, updateProps_root hFrame hRoots hText hFirst,
            hPage _ hEdited]
  | false =>
      have hChildren := updateChildren_root hFrame hRoots hText hFirst hRootKind new.children
      cases hSame : Value.same (.object (visible old.props)) (.object (visible new.props)) with
      | true =>
          have hEdited : rootText (root.withChildren new.children) = rootText (renewed old new) := by
            refine rootText_eq (hRootKind.trans (kind_renewed old new).symm) ?_ ?_
            · simp [Component.withChildren, props_renewed, hSame, hVisible]
            · simp [Component.withChildren, children_renewed, hShapes]
          simp [hChanges.mpr hSame, applyEach, apply, hChildren, hPage _ hEdited]
      | false =>
          have hTag : (root.withChildren new.children).opener = old.opener :=
            opener_eq hRootKind hVisible
          have hMiddle : Plain (first ++ root.withChildren new.children :: last) :=
            plain_append.mpr ⟨hRoots.left, plain_cons.mpr
              ⟨plain_withChildren hRoot hNew (hRootKind.trans hKind), hRoots.right.tail⟩⟩
          have hProps := updateProps_opener hFrame hMiddle hOld hRootKind hTag
            (hOwn hShapes hSame) (propChanges old.props new.props)
          have hEdited : rootText ((root.withChildren new.children).changeProps
              (propChanges old.props new.props)) = rootText (renewed old new) := by
            refine rootText_eq (hRootKind.trans (kind_renewed old new).symm) ?_ ?_
            · simp [Component.withChildren, Component.changeProps, props_renewed, hSame, hVisible]
            · simp [Component.withChildren, Component.changeProps, children_renewed, hShapes]
          simp [hFilled hSame, applyEach, apply, hChildren, hProps, hPage _ hEdited]

end

end Page
end Wireframe
