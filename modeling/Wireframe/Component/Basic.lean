import Wireframe.Value.Basic
import Wireframe.Text.Basic

/-!
Components and forests of components. A component has a kind from a closed vocabulary, props and
children. One that was recovered from page source also remembers the text that it came from.
-/
namespace Wireframe

inductive Kind where
  | button
  | card
  | input
  | table
  | modal
  | sidebar
  | navbar
  | chart
deriving DecidableEq, Repr, Inhabited

namespace Kind

/-- The name of a kind, which is also its tag name in page source. -/
def name : Kind → String
  | .button => "Button"
  | .card => "Card"
  | .input => "Input"
  | .table => "Table"
  | .modal => "Modal"
  | .sidebar => "Sidebar"
  | .navbar => "Navbar"
  | .chart => "Chart"

/-- All kinds, in the order in which the vocabulary lists them. -/
def all : List Kind :=
  [.button, .card, .input, .table, .modal, .sidebar, .navbar, .chart]

theorem mem_all (kind : Kind) : kind ∈ all := by
  cases kind <;> decide

def tag (kind : Kind) : Text :=
  kind.name.toList

def ofName? (name : String) : Option Kind :=
  all.find? fun kind => kind.name == name

/-- Names tell kinds apart, so that a tag name read back gives the kind that it was written for. -/
theorem ofName?_name (kind : Kind) : ofName? kind.name = some kind := by
  cases kind <;> decide

def ofTag? (tag : Text) : Option Kind :=
  all.find? fun kind => kind.tag == tag

theorem ofTag?_tag (kind : Kind) : ofTag? kind.tag = some kind := by
  cases kind <;> decide

end Kind

/-- A component. The source is the text that it was recovered from, if it was. -/
structure Component where
  kind : Kind
  props : Props
  children : List Component
  source : Option Text
deriving Repr, Inhabited

/-- Components side by side. -/
abbrev Forest := List Component

namespace Component

def leaf (kind : Kind) (props : Props) : Component :=
  ⟨kind, props, [], none⟩

/-- The first text that can stand for the component: its title, its label or its textual
children. -/
def displayText? (c : Component) : Option String :=
  ["title", "label", "children"].findSome? fun key => c.props.text? key

def withProp (key : String) (value : Value) (c : Component) : Component :=
  { c with props := c.props.set key value }

/-- The component with one more child, at the end. -/
def addChild (child c : Component) : Component :=
  { c with children := c.children ++ [child] }

end Component

namespace Forest

/-- Whatever holds of no components, and of a component before others once it holds of its children
and of the others, holds of every forest. -/
theorem induction {motive : Forest → Prop} (nil : motive [])
    (cons : ∀ c rest, motive c.children → motive rest → motive (c :: rest)) (forest : Forest) :
    motive forest := by
  refine @Component.rec_1 (fun c => motive c.children) motive ?_ ?_ ?_ forest
  · intro _ _ _ _ h
    exact h
  · exact nil
  · intro c rest hc hrest
    exact cons c rest hc hrest

end Forest

mutual

/-- The component and everything below it, each before its children. -/
def Component.subtree : Component → List Component
  | ⟨kind, props, children, source⟩ => ⟨kind, props, children, source⟩ :: Forest.walk children
termination_by structural c => c

/-- All components of a forest, each before its children. -/
def Forest.walk : List Component → List Component
  | [] => []
  | c :: rest => c.subtree ++ Forest.walk rest
termination_by structural forest => forest

end

namespace Forest

@[simp] theorem walk_nil : walk [] = [] := rfl

/-- The walk is in pre-order: a root, what is below it, then the roots behind it. -/
theorem walk_cons (c : Component) (rest : Forest) :
    walk (c :: rest) = c :: (walk c.children ++ walk rest) := by
  cases c
  rfl

def first? (kind : Kind) (forest : Forest) : Option Component :=
  (walk forest).find? fun c => c.kind = kind

def ofKind (kind : Kind) (forest : Forest) : List Component :=
  (walk forest).filter fun c => c.kind = kind

def hasKind (kind : Kind) (forest : Forest) : Bool :=
  (walk forest).any fun c => c.kind = kind

def rootIndex? (kind : Kind) (forest : Forest) : Option Nat :=
  forest.findIdx? fun c => c.kind = kind

end Forest

end Wireframe
