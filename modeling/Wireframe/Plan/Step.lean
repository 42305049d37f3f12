import Wireframe.Component.Edit
import Wireframe.Plan.Template

/-!
The changes that a plan can undergo. A step changes the forest and says in log entries what it did; a
step that finds nothing to do leaves the forest and logs nothing. The words of an entry are given to
the step that logs it.
-/
namespace Wireframe

/-- A change of a forest, with the log entries for it. -/
abbrev Step := Forest → Forest × List String

namespace Step

def none : Step := fun forest => (forest, [])

/-- Steps one after another, each on the forest that the ones before it left. -/
def sequence : List Step → Step
  | [] => none
  | step :: rest => fun forest =>
    let (forest, log) := step forest
    let (forest, restLog) := sequence rest forest
    (forest, log ++ restLog)

/-- A step that changes the forest where `change` applies, and then logs one entry. -/
def whenPossible (change : Forest → Option Forest) (entry : String) : Step := fun forest =>
  match change forest with
  | some forest => (forest, [entry])
  | .none => (forest, [])

def addTo (kind : Kind) (child : Component) (forest : Forest) : Option Forest :=
  Forest.updateFirst? kind (Component.addChild child) forest

def addRoot (child : Component) (forest : Forest) : Forest :=
  forest ++ [child]

/-- Adds a button to the first card, or else to the first navbar. -/
def addButton (label entry : String) : Step :=
  let button := Template.button label
  whenPossible (fun forest => (addTo .card button forest).or (addTo .navbar button forest)) entry

def addInput (placeholder label entry : String) : Step :=
  whenPossible (addTo .card (Template.labeledInput placeholder label)) entry

/-- The table that is added when nothing is said about its columns. -/
def newTable : Component :=
  Template.table ["Column 1", "Column 2", "Column 3"]

/-- Adds a table to the first card, or after the roots in a dashboard or where there is no card. -/
def addTable (layout entry : String) : Step := fun forest =>
  let inCard := if layout = "dashboard" then Option.none else addTo .card newTable forest
  (inCard.getD (addRoot newTable forest), [entry])

def addChart (type : String) (title : Option String) (entry : String) : Step := fun forest =>
  (addRoot (Template.chart type title [("data", .list [])]) forest, [entry])

/-- Adds a modal and the button that opens it after the roots. -/
def addModal (title entry : String) : Step := fun forest =>
  (forest ++ Template.modalDialog title, [entry])

def removeFirst (kind : Kind) (entry : String) : Step :=
  whenPossible (Forest.dropFirst? kind) entry

/-- Removes every input, and logs one entry if there are any. -/
def removeInputs (entry : String) : Step := fun forest =>
  let (forest, count) := Forest.dropAll .input forest
  (forest, if count = 0 then [] else [entry])

/-- Puts the forest of a cleared page in place of everything. -/
def clear (entry : String) : Step := fun _ =>
  (Template.emptyState, [entry])

/-- Sets a prop of all components of a kind, and logs one entry if there are any. -/
def setProp (kind : Kind) (key : String) (value : Value) (entry : String) : Step := fun forest =>
  (Forest.setAll kind key value forest, if Forest.hasKind kind forest then [entry] else [])

/-- Sets a prop of all components of a kind, and logs an entry for each. -/
def setEachProp (kind : Kind) (key : String) (value : Value) (entry : String) : Step :=
  fun forest =>
    (Forest.setAll kind key value forest, (Forest.ofKind kind forest).map fun _ => entry)

/-- The first component of the kind lies below the first button. -/
def liesInButton (kind : Kind) (forest : Forest) : Bool :=
  let early := (Forest.walk forest).takeWhile fun c => c.kind ≠ .button
  !(early.any fun c => c.kind = kind)
    && ((Forest.first? .button forest).any fun button => Forest.hasKind kind button.children)

/-- Moves the first button to the end of the first component of a kind. A button cannot be put into
a component below itself: then both leave the forest. -/
def moveButton? (kind : Kind) (forest : Forest) : Option Forest :=
  match Forest.first? .button forest, Forest.hasKind kind forest with
  | some button, true =>
    (Forest.dropFirst? .button forest).map fun rest =>
      if liesInButton kind forest then rest else (addTo kind button rest).getD rest
  | _, _ => .none

/-- Puts a component in the place of the first root of a kind. -/
def replaceRoot (kind : Kind) (replacement : Component) (entry : String) : Step :=
  whenPossible (fun forest =>
    (Forest.rootIndex? kind forest).map fun index => forest.set index replacement) entry

/-- Sets the titles of all cards and navbars, and logs one entry if there are any. -/
def renameTitles (name entry : String) : Step := fun forest =>
  (Forest.setAll .navbar "title" (.text name) (Forest.setAll .card "title" (.text name) forest),
    if Forest.hasKind .card forest || Forest.hasKind .navbar forest then [entry] else [])

end Step

end Wireframe
