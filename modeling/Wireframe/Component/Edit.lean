import Wireframe.Component.Basic

/-!
Edits of forests. Where an edit concerns one component, that is the first of its kind in the order
of `Forest.walk`, in which a component comes before its children.
-/
namespace Wireframe

mutual

/-- The component with the first one of a kind below it removed, together with all that is below
that one. -/
def Component.dropFirst? (kind : Kind) : Component → Option Component
  | ⟨k, props, children, source⟩ =>
    (Forest.dropFirst? kind children).map fun children => ⟨k, props, children, source⟩
termination_by structural c => c

/-- The forest with the first component of a kind removed, together with all that is below it. -/
def Forest.dropFirst? (kind : Kind) : List Component → Option (List Component)
  | [] => none
  | c :: rest =>
    if c.kind = kind then some rest
    else
      match Component.dropFirst? kind c with
      | some c => some (c :: rest)
      | none => (Forest.dropFirst? kind rest).map fun rest => c :: rest
termination_by structural forest => forest

end

mutual

def Component.updateFirst? (kind : Kind) (change : Component → Component) :
    Component → Option Component
  | ⟨k, props, children, source⟩ =>
    (Forest.updateFirst? kind change children).map fun children => ⟨k, props, children, source⟩
termination_by structural c => c

def Forest.updateFirst? (kind : Kind) (change : Component → Component) :
    List Component → Option (List Component)
  | [] => none
  | c :: rest =>
    if c.kind = kind then some (change c :: rest)
    else
      match Component.updateFirst? kind change c with
      | some c => some (c :: rest)
      | none => (Forest.updateFirst? kind change rest).map fun rest => c :: rest
termination_by structural forest => forest

end

mutual

/-- Removes every component of a kind below a component, and counts the removals. -/
def Component.dropAll (kind : Kind) : Component → Component × Nat
  | ⟨k, props, children, source⟩ =>
    let (children, count) := Forest.dropAll kind children
    (⟨k, props, children, source⟩, count)
termination_by structural c => c

/-- Removes every component of a kind, together with all that is below it, and counts the removals.
One that goes with another is not counted. -/
def Forest.dropAll (kind : Kind) : List Component → List Component × Nat
  | [] => ([], 0)
  | c :: rest =>
    let (others, count) := Forest.dropAll kind rest
    if c.kind = kind then (others, count + 1)
    else
      let (c, inside) := Component.dropAll kind c
      (c :: others, inside + count)
termination_by structural forest => forest

end

mutual

def Component.setAll (kind : Kind) (key : String) (value : Value) : Component → Component
  | ⟨k, props, children, source⟩ =>
    ⟨k, if k = kind then props.set key value else props, Forest.setAll kind key value children,
      source⟩
termination_by structural c => c

def Forest.setAll (kind : Kind) (key : String) (value : Value) : List Component → List Component
  | [] => []
  | c :: rest => Component.setAll kind key value c :: Forest.setAll kind key value rest
termination_by structural forest => forest

end

end Wireframe
