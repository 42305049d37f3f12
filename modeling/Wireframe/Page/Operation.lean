import Wireframe.Component.Basic

/-!
Operations that edit page source.
-/
namespace Wireframe

inductive Position where
  | start
  | afterNavbar
  | finish
deriving DecidableEq, Repr

namespace Position

/-- Where a new root of a kind is put: a navbar first, a sidebar after the navbar, others last. -/
def ofKind : Kind → Position
  | .navbar => .start
  | .sidebar => .afterNavbar
  | _ => .finish

def name : Position → String
  | .start => "start"
  | .afterNavbar => "after_navbar"
  | .finish => "end"

end Position

inductive Change where
  | set (key : String) (value : Value)
  | remove (key : String)
deriving Repr

namespace Change

def key : Change → String
  | .set key _ => key
  | .remove key => key

end Change

/-- An edit of page source. The target is found by the text that it was recovered from, or else as
the first component of its kind. -/
inductive Operation where
  | add (component : Component) (position : Position)
  | move (target : Component) (position : Position)
  | remove (target : Component)
  | updateProps (target : Component) (changes : List Change)
  | updateChildren (target : Component) (children : Forest)
  | replace (target replacement : Component)
deriving Repr

namespace Operation

def kindName : Operation → String
  | .add .. => "add_component"
  | .move .. => "move_component"
  | .remove .. => "remove_component"
  | .updateProps .. => "update_props"
  | .updateChildren .. => "update_children"
  | .replace .. => "replace_component"

/-- Adds a component as a root, at the position of its kind. -/
def addRoot (component : Component) : Operation :=
  .add component (Position.ofKind component.kind)

end Operation

end Wireframe
