import Wireframe.Plan.Basic

/-!
Templates of single components, and the component forests that fresh plans start from.
-/
namespace Wireframe
namespace Template

def button (text : String) : Component :=
  .leaf .button [("variant", .text "primary"), ("children", .text text)]

def input (placeholder : String) (further : Props) (label : Option String) : Component :=
  .leaf .input (("placeholder", .text placeholder) :: further
    ++ (label.map fun label => ("label", Value.text label)).toList)

def labeledInput (placeholder label : String) : Component :=
  input placeholder [] (some label)

def card (title : Option String) (children : Forest) : Component :=
  ⟨.card, (title.map fun title => ("title", Value.text title)).toList, children, none⟩

def navbar (title : String) : Component :=
  .leaf .navbar [("title", .text title)]

/-- A sidebar that is not collapsed. -/
def sidebar : Component :=
  .leaf .sidebar [("collapsed", .boolean false)]

def table (columns : List String) : Component :=
  .leaf .table [("columns", .list (columns.map .text)), ("data", .list [])]

/-- A table with named columns whose rows come from elsewhere. -/
def tableWithoutData (columns : List String) : Component :=
  .leaf .table [("columns", .list (columns.map .text))]

def chart (type : String) (title : Option String) (further : Props) : Component :=
  .leaf .chart (("type", .text type)
    :: (title.map fun title => ("title", Value.text title)).toList ++ further)

def modal (title : String) (children : Forest) : Component :=
  ⟨.modal, [("isOpen", .boolean false), ("title", .text title)], children, none⟩

def dashboard : Forest :=
  [navbar "Analytics Dashboard", sidebar, card (some "Revenue Overview") [],
   chart "line" none [("dataKey", .text "revenue")],
   tableWithoutData ["Metric", "Value", "Change"]]

def form : Forest :=
  [card (some "Input Form")
    [labeledInput "Enter name" "Name",
     input "Enter email" [("type", .text "email")] (some "Email"),
     button "Submit"]]

def modalView : Forest :=
  [button "Open Modal", modal "Dialog" [card none [input "Enter details" [] none]]]

def application : Forest :=
  [navbar "Application", card (some "Welcome") [button "Get Started"]]

def emptyState : Forest :=
  [card (some "Empty State") [button "Start Adding"]]

/-- A button, and the modal with a small form that it opens. -/
def modalDialog (title : String) : Forest :=
  [button "Open Modal",
   modal title [card none [labeledInput "Enter details" "Details", button "Submit"]]]

def replacementChart : Component :=
  chart "bar" (some "Data Visualization") [("data", .list [])]

def replacementTable : Component :=
  table ["Data 1", "Data 2"]

end Template
end Wireframe
