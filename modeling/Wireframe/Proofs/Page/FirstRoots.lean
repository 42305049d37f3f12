import Wireframe.Proofs.Page.Simulation
import Wireframe.Proofs.Page.RootSpans

/-! Roots as first components. Going through a forest, the first component of a kind is either its
first root of that kind or stands below an earlier root, and then the text of the page shows it at a
greater column. -/
namespace Wireframe

namespace Forest

variable {kind : Kind} {before after : Forest} {c : Component}

/-- The first root of a kind is the first component of the kind if no root before it has one
below. -/
theorem firstIsRoot_split (hBefore : ∀ d ∈ before, d.kind ≠ kind) (hKind : c.kind = kind) :
    firstIsRoot kind (before ++ c :: after) = !hasKind kind before := by
  induction before with
  | nil => simp [firstIsRoot, hKind, hasKind_nil]
  | cons d before ih =>
      obtain ⟨hHere, hLater⟩ := List.forall_mem_cons.mp hBefore
      rw [List.cons_append, firstIsRoot, ih hLater, hasKind_cons, beq_false_of_ne hHere]
      simp

/-- The roots in front are searched first, those behind only if there is nothing to be found in
front. -/
theorem updateFirst?_append (kind : Kind) (change : Component → Component) (first last : Forest) :
    updateFirst? kind change (first ++ last) =
      ((updateFirst? kind change first).map (· ++ last)).or
        ((updateFirst? kind change last).map (first ++ ·)) := by
  induction first with
  | nil => cases h : updateFirst? kind change last <;> simp [updateFirst?, h]
  | cons d first ih =>
      rw [List.cons_append, updateFirst?_cons, updateFirst?_cons, ih]
      split
      · rfl
      · cases updateFirst? kind change d.children with
        | some children => rfl
        | none =>
            cases updateFirst? kind change first <;> cases updateFirst? kind change last <;> rfl

/-- Replacing the first root of a kind. -/
theorem set_rootIndex? (hBefore : ∀ d ∈ before, d.kind ≠ kind) (hKind : c.kind = kind)
    (new : Component) :
    (rootIndex? kind (before ++ c :: after)).map (fun index => (before ++ c :: after).set index new) =
      some (before ++ new :: after) := by
  have hIndex : rootIndex? kind (before ++ c :: after) = some before.length := by
    rw [rootIndex?, List.findIdx?_append, List.findIdx?_eq_none_iff.mpr
      fun d hd => by simpa using hBefore d hd, List.findIdx?_cons, if_pos (by simpa using hKind)]
    simp
  rw [hIndex, Option.map_some, List.set_append_right _ _ (Nat.le_refl _), Nat.sub_self,
    List.set_cons_zero]

end Forest

namespace Page

open Text

/-- A first component at the column of the roots is a root. -/
theorem FirstOf.firstIsRoot {kind : Kind} {indent : Nat} {forest : Forest}
    (hPlain : Forest.Plain forest) (found : FirstOf kind indent forest)
    (hColumn : found.column = indent) : Forest.firstIsRoot kind forest = true := by
  have hLines := found.lines_eq
  rw [found.component.lines_eq, hColumn, List.cons_append] at hLines
  obtain ⟨before, c, after, rfl, hFirst, hRoot⟩ := root_of_indent hLines
  rw [c.lines_eq, List.cons_append, List.cons.injEq, Line.mk.injEq, Mark.opening.injEq] at hRoot
  have hBefore : Forest.hasKind kind before = false := by
    rw [Bool.eq_false_iff]
    intro hHas
    obtain ⟨early⟩ := exists_firstOf hPlain.left hHas indent
    refine found.not_opening ⟨early.column, .opening early.component.kind early.component.props⟩ ?_
      early.component.props (by rw [early.kind_eq])
    rw [hFirst, early.lines_eq, early.component.lines_eq]
    simp
  rw [Forest.firstIsRoot_split (fun d hd => ?_) (hRoot.1.2.1.symm.trans found.kind_eq), hBefore]
  · rfl
  · obtain ⟨front, back, rfl⟩ := List.append_of_mem hd
    exact Forest.kind_ne_of_hasKind hBefore d (by simp [Forest.walk_append, Forest.walk_cons])

end Page
end Wireframe
