import Wireframe.Proofs.Page.TreeEdits
import Wireframe.Proofs.Plan.Branches

/-! What an instruction that adds does to a forest. Every component stays where it is, with its props
and with its children in front of new ones, and what is new are whole templates, one for each entry
of the log. -/
namespace Wireframe

namespace Forest

variable {kind : Kind} {old new extra : Forest}

/-- A forest grows into another: its roots come first in the new one, each with its kind and props,
and the children of each have grown in the same way. Everything else in the new forest is extra. -/
inductive Grown : Forest → Forest → Forest → Prop
  | behind (extra : Forest) : Grown [] extra extra
  | cons {c : Component} {children inside rest new later : Forest} :
      Grown c.children children inside → Grown rest new later →
        Grown (c :: rest) (c.withChildren children :: new) (inside ++ later)

namespace Grown

/-- A forest has grown from itself by nothing. -/
theorem refl (forest : Forest) : Grown forest forest [] := by
  induction forest using Forest.induction with
  | nil => exact .behind []
  | cons c rest hChildren hRest =>
      obtain ⟨kind, props, children, source⟩ := c
      exact .cons hChildren hRest

/-- New roots are extra. -/
theorem append (h : Grown old new extra) (more : Forest) :
    Grown old (new ++ more) (extra ++ more) := by
  induction h with
  | behind extra => exact .behind _
  | cons hChildren _ _ ih =>
      rw [List.append_assoc]
      exact .cons hChildren ih

/-- A child for the first component of a kind is extra, unless that component is extra itself. -/
theorem addTo (h : Grown old new extra) (hKind : hasKind kind extra = false) {child : Component}
    {edited : Forest} (hAdd : Step.addTo kind child new = some edited) :
    ∃ more, Grown old edited more ∧ more.Perm (extra ++ [child]) := by
  induction h generalizing edited with
  | behind extra =>
      rw [Step.addTo, (edits_of_not_hasKind _ hKind).2] at hAdd
      cases hAdd
  | @cons c children inside rest new later hChildren hRest ihChildren ihRest =>
      rw [hasKind_append, Bool.or_eq_false_iff] at hKind
      have hSwap {more : Forest} (hMore : more.Perm (inside ++ [child])) :
          (more ++ later).Perm (inside ++ later ++ [child]) := by
        have hLater := hMore.append_right later
        rw [List.append_assoc] at hLater ⊢
        exact hLater.trans (List.perm_append_comm.append_left inside)
      -- The child goes into this root, somewhere below it, or into a root behind it.
      rw [Step.addTo, updateFirst?_cons] at hAdd
      split at hAdd
      · cases hAdd
        exact ⟨_, .cons (hChildren.append [child]) hRest, hSwap (.refl _)⟩
      · split at hAdd
        · rename_i edited hEdited
          cases hAdd
          obtain ⟨more, hMore, hPerm⟩ := ihChildren hKind.1 hEdited
          exact ⟨_, .cons hMore hRest, hSwap hPerm⟩
        · obtain ⟨edited, hEdited, rfl⟩ := Option.map_eq_some_iff.mp hAdd
          obtain ⟨more, hMore, hPerm⟩ := ihRest hKind.2 hEdited
          refine ⟨_, .cons hChildren hMore, ?_⟩
          rw [List.append_assoc]
          exact hPerm.append_left inside

end Grown

end Forest

namespace Branch

open Forest

/-- The components that a branch puts into a forest. -/
def added : Branch → Forest
  | .addButton label => [Template.button label]
  | .addInput placeholder label => [Template.labeledInput placeholder label]
  | .addTable _ => [Step.newTable]
  | .addChart type title => [Template.chart type title [("data", .list [])]]
  | .addModal title => Template.modalDialog title
  | _ => []

/-- The kinds of components that a branch looks for to put a new child into. -/
def parents : Branch → List Kind
  | .addButton _ => [.card, .navbar]
  | .addInput _ _ => [.card]
  | .addTable _ => [.card]
  | _ => []

/-- What one branch adds is no place for what another one adds. -/
def Apart (first later : Branch) : Prop :=
  ∀ kind ∈ later.parents, hasKind kind first.added = false

/-- A branch for everything that can be added, in the order in which an instruction takes them. -/
def additions (button placeholder field layout type modal : String) (title : Option String) :
    List Branch :=
  [.addButton button, .addInput placeholder field, .addTable layout, .addChart type title,
   .addModal modal]

/-- A row taken under a condition is a part of the row. -/
theorem given_sublist (condition : Bool) (branches : List Branch) :
    (given condition branches).Sublist branches := by
  cases condition with
  | false => exact List.nil_sublist _
  | true => exact .refl _

section

variable (button placeholder field layout type modal : String) (title : Option String)

end

/-- Of the branches that add, an instruction takes some in their order. -/
theorem add_sublist_additions (layout : String) (i : Instruction) :
    ∃ button placeholder field type modal title,
      (add layout i).Sublist (additions button placeholder field layout type modal title) := by
  have hRow {button placeholder field type modal : String} {title : Option String}
      (c₁ c₂ c₃ c₄ c₅ : Bool) :
      [given c₁ [.addButton button], given c₂ [.addInput placeholder field],
        given c₃ [.addTable layout], given c₄ [.addChart type title],
        given c₅ [.addModal modal]].flatten.Sublist
          (additions button placeholder field layout type modal title) := by
    simp only [List.flatten_cons, List.flatten_nil]
    exact (given_sublist _ _).append ((given_sublist _ _).append ((given_sublist _ _).append
      ((given_sublist _ _).append ((given_sublist _ _).append (.refl _)))))
  exact ⟨_, _, _, _, _, _, hRow _ _ _ _ _⟩

end Branch

namespace Plan

open Forest

end Plan

end Wireframe
