import Wireframe.Instruction.Extract
import Wireframe.Plan.Step

/-!
The branches of the planner. An instruction with a verb takes a row of branches one after another,
one for each thing that it mentions. Each branch is a step, and each entry of the log was written by
one of the branches, always in the same words.
-/
namespace Wireframe

namespace Step

def buttonVariants : List String :=
  ["primary", "secondary", "outline"]

/-- The kinds that a button can be moved to, with their keywords and names, in order of
precedence. -/
def moveTargets : List (List String × Kind × String) :=
  [(["navbar", "header"], .navbar, "navbar"), (["sidebar"], .sidebar, "sidebar"),
   (["card"], .card, "card")]

end Step

/-- One thing that an instruction can do to a plan, with all that it takes from the instruction. -/
inductive Branch where
  | addButton (label : String)
  | addInput (placeholder label : String)
  | addTable (layout : String)
  | addChart (type : String) (title : Option String)
  | addModal (title : String)
  | removeButton
  | removeTable
  | removeChart
  | removeInputs
  | removeModal
  | clear
  | labelButtons (label : String)
  | setVariant (variant : String)
  | titleCards (title : String)
  | titleNavbars (title : String)
  | setColumns (columns : List String)
  | setChartType (type : String)
  | setPlaceholders (placeholder : String)
  | moveButton (kind : Kind) (name : String)
  | replaceTable
  | replaceChart
  | renameButtons (name : String)
  | renameTitles (name : String)
  | renameFields (name : String)
deriving DecidableEq, Repr

namespace Branch

/-- The entry that the branch writes into the log, once or more often, if it does anything. -/
def entry : Branch → String
  | .addButton label => "Added button \"" ++ label ++ "\""
  | .addInput _ label => "Added input field \"" ++ label ++ "\""
  | .addTable _ => "Added table component"
  | .addChart type _ => "Added " ++ type ++ " chart"
  | .addModal _ => "Added modal dialog with open button"
  | .removeButton => "Removed button"
  | .removeTable => "Removed table"
  | .removeChart => "Removed chart"
  | .removeInputs => "Removed input fields"
  | .removeModal => "Removed modal"
  | .clear => "Reset to empty state"
  | .labelButtons label => "Changed button label to \"" ++ label ++ "\""
  | .setVariant variant => "Changed button to " ++ variant ++ " variant"
  | .titleCards title => "Changed card title to \"" ++ title ++ "\""
  | .titleNavbars title => "Changed navbar title to \"" ++ title ++ "\""
  | .setColumns columns => "Updated table columns: " ++ ", ".intercalate columns
  | .setChartType type => "Changed chart type to " ++ type
  | .setPlaceholders placeholder => "Updated input placeholder to \"" ++ placeholder ++ "\""
  | .moveButton _ name => "Moved button to " ++ name
  | .replaceTable => "Replaced table with chart"
  | .replaceChart => "Replaced chart with table"
  | .renameButtons name => "Renamed button to \"" ++ name ++ "\""
  | .renameTitles name => "Renamed title to \"" ++ name ++ "\""
  | .renameFields name => "Renamed field label to \"" ++ name ++ "\""

open Step

/-- What the branch does to a forest. -/
def step (branch : Branch) : Step :=
  match branch with
  | .addButton label => Step.addButton label branch.entry
  | .addInput placeholder label => Step.addInput placeholder label branch.entry
  | .addTable layout => Step.addTable layout branch.entry
  | .addChart type title => Step.addChart type title branch.entry
  | .addModal title => Step.addModal title branch.entry
  | .removeButton => removeFirst .button branch.entry
  | .removeTable => removeFirst .table branch.entry
  | .removeChart => removeFirst .chart branch.entry
  | .removeInputs => Step.removeInputs branch.entry
  | .removeModal => removeFirst .modal branch.entry
  | .clear => Step.clear branch.entry
  | .labelButtons label => setProp .button "children" (.text label) branch.entry
  | .setVariant variant => setProp .button "variant" (.text variant) branch.entry
  | .titleCards title => setEachProp .card "title" (.text title) branch.entry
  | .titleNavbars title => setEachProp .navbar "title" (.text title) branch.entry
  | .setColumns columns =>
    setEachProp .table "columns" (.list (columns.map .text)) branch.entry
  | .setChartType type => setEachProp .chart "type" (.text type) branch.entry
  | .setPlaceholders placeholder =>
    setEachProp .input "placeholder" (.text placeholder) branch.entry
  | .moveButton kind _ => whenPossible (moveButton? kind) branch.entry
  | .replaceTable => replaceRoot .table Template.replacementChart branch.entry
  | .replaceChart => replaceRoot .chart Template.replacementTable branch.entry
  | .renameButtons name => setProp .button "children" (.text name) branch.entry
  | .renameTitles name => Step.renameTitles name branch.entry
  | .renameFields name => setProp .input "label" (.text name) branch.entry

/-- Branches that are taken only under a condition. -/
def given (condition : Bool) (branches : List Branch) : List Branch :=
  if condition then branches else []

def forValue (value : Option String) (branches : String → List Branch) : List Branch :=
  value.toList.flatMap branches

def add (layout : String) (i : Instruction) : List Branch :=
  [given (i.mentions "button") [.addButton (i.buttonLabel?.getD "New Button")],
   given (i.mentionsAny ["input", "field"])
     [.addInput (i.placeholder?.getD "Enter value") (i.label?.getD "New Field")],
   given (i.mentions "table") [.addTable layout],
   given (i.mentionsAny ["chart", "graph"]) [.addChart i.chartType i.chartTitle?],
   given (i.mentionsAny ["modal", "dialog"])
     [.addModal (i.modalTitle?.getD "Modal Dialog")]].flatten

def remove (i : Instruction) : List Branch :=
  [given (i.mentions "button") [.removeButton],
   given (i.mentions "table") [.removeTable],
   given (i.mentions "chart") [.removeChart],
   given (i.mentionsAny ["input", "field"]) [.removeInputs],
   given (i.mentions "modal") [.removeModal],
   given (i.mentionsAny ["all", "everything"]) [.clear]].flatten

def modifyButtons (i : Instruction) : List Branch :=
  [forValue i.newLabel? fun label => [.labelButtons label],
   forValue (buttonVariants.find? fun variant => i.mentions variant) fun variant =>
     [.setVariant variant]].flatten

def modify (i : Instruction) : List Branch :=
  [given (i.mentions "button") (modifyButtons i),
   given (i.mentionsAny ["title", "heading"])
     (forValue i.newTitle? fun title => [.titleCards title, .titleNavbars title]),
   given (i.mentions "table" && i.mentions "column") [.setColumns i.tableColumns],
   given (i.mentions "chart" && i.mentions "type") [.setChartType i.chartType],
   given (i.mentions "placeholder")
     (forValue i.newPlaceholder? fun placeholder => [.setPlaceholders placeholder])].flatten

def move (i : Instruction) : List Branch :=
  match i.mentions "button", moveTargets.find? fun target => i.mentionsAny target.1 with
  | true, some (_, kind, name) => [.moveButton kind name]
  | _, _ => []

def replace (i : Instruction) : List Branch :=
  match i.place? "table", i.place? "chart" with
  | some table, some chart => if table < chart then [.replaceTable] else [.replaceChart]
  | _, _ => []

def rename (i : Instruction) : List Branch :=
  forValue i.newName? fun name =>
    [given (i.mentions "button") [.renameButtons name],
     given (i.mentions "title") [.renameTitles name],
     given (i.mentionsAny ["label", "field"]) [.renameFields name]].flatten

def ofVerb (layout : String) (i : Instruction) : Verb → List Branch
  | .add => add layout i
  | .remove => remove i
  | .modify => modify i
  | .move => move i
  | .replace => replace i
  | .rename => rename i

/-- The branches one after another. -/
def steps (branches : List Branch) : Step :=
  Step.sequence (branches.map step)

end Branch

end Wireframe
