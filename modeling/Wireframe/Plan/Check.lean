import Wireframe.Plan.Basic
import Wireframe.Text.Blank
import Wireframe.Value.Depth
import Wireframe.Value.Display
import Wireframe.Value.Schema

/-!
The check of plan data. The rules come first: a layout that is not blank, components of known kinds,
no inline styles, and props that are not nested too deeply. Data that keeps the rules is then read
as a plan, which may still fail on the shape of a field.
-/
namespace Wireframe

inductive PlanFault where
  | notObject
  | missingLayout (layout : Value)
  | componentsNotList
  | componentNotObject
  | unknownKind (kind : Value)
  | propsNotObject
  | inlineStyle
  | tooDeep (depth : Int)
  | childrenNotList
deriving Repr

namespace PlanFault

def message : PlanFault → String
  | .notObject => "Invalid plan: expected an object"
  | .missingLayout _ => "Invalid plan: missing layout"
  | .componentsNotList => "Invalid plan: components must be a list"
  | .componentNotObject => "Component must be an object"
  | .unknownKind kind =>
    "Invalid component type: " ++ kind.display ++ ". Allowed: "
      ++ ", ".intercalate (Kind.all.map Kind.name)
  | .propsNotObject => "Component props must be an object"
  | .inlineStyle => "Inline styles are not allowed"
  | .tooDeep depth => Value.depthMessage depth Value.propsDepthLimit
  | .childrenNotList => "Component children must be a list"

def value : PlanFault → Value
  | .missingLayout layout => layout
  | .unknownKind kind => kind
  | _ => .null

end PlanFault

/-- A reason to refuse plan data: a broken rule at a path, or a field of the wrong shape. -/
inductive PlanError where
  | rule (fault : PlanFault) (path : Option String)
  | shape (issue : ShapeIssue)
deriving Repr

namespace PlanError

def path? : PlanError → Option String
  | .rule _ path => path
  | .shape _ => none

def message : PlanError → String
  | .rule fault (some path) => fault.message ++ " (at " ++ path ++ ")"
  | .rule fault none => fault.message
  | .shape issue => "Invalid plan: " ++ issue.fault.message

def summary : PlanError → String
  | .rule fault _ => fault.message
  | .shape issue => issue.fault.message

def field? : PlanError → Option String
  | .rule _ path => path
  | .shape issue => some issue.dotted

def value : PlanError → Value
  | .rule fault _ => fault.value
  | .shape _ => .null

end PlanError

namespace Plan

/-- The props that would style a component in place. -/
def styleKeys : List String :=
  ["style", "styles"]

def isKindName : Value → Bool
  | .text name => (Kind.ofName? name).isSome
  | _ => false

def kindErrors (path : String) (entries : Props) : List PlanError :=
  let kind := (entries.get? "type").getD .null
  if isKindName kind then [] else [.rule (.unknownKind kind) (some path)]

def propsErrors (path : String) (props : Value) : List PlanError :=
  if props.isVacant then []
  else
    match props with
    | .object entries =>
      (styleKeys.filter fun key => Props.has key entries).map
          (fun key => .rule .inlineStyle (some (path ++ ".props." ++ key)))
        ++ (Value.tooDeep? Value.propsDepthLimit 0 props).toList.map
          (fun depth => .rule (.tooDeep depth) (some (path ++ ".props")))
    | _ => [.rule .propsNotObject (some (path ++ ".props"))]

def memberPath (path : String) (index : Nat) : String :=
  path ++ "[" ++ toString index ++ "]"

mutual

/-- The faults of a component at a path. -/
def componentErrors (path : String) : Value → List PlanError
  | .object entries =>
    kindErrors path entries ++ propsErrors path ((Props.get? "props" entries).getD .null)
      ++ childrenErrors path entries
  | _ => [.rule .componentNotObject (some path)]
termination_by structural v => v

def listErrors (path : String) : Nat → List Value → List PlanError
  | _, [] => []
  | index, v :: rest =>
    componentErrors (memberPath path index) v ++ listErrors path (index + 1) rest
termination_by structural _ vs => vs

/-- The faults of the children of a component, which are the first entry of that name. -/
def childrenErrors (path : String) : List (String × Value) → List PlanError
  | [] => []
  | (key, v) :: rest =>
    if key = "children" then
      match v with
      | .list items => listErrors (path ++ ".children") 0 items
      | v => if v.isVacant then [] else [.rule .childrenNotList (some (path ++ ".children"))]
    else childrenErrors path rest
termination_by structural es => es

end

def layoutErrors (entries : Props) : List PlanError :=
  let layout := (entries.get? "layout").getD .null
  let fault : List PlanError := [.rule (.missingLayout layout) (some "layout")]
  match layout with
  | .text name => if Text.allBlank name.toList then fault else []
  | _ => fault

/-- All faults of plan data, in the order of the data. -/
def errors : Value → List PlanError
  | .object entries =>
    layoutErrors entries ++
      match Props.get? "components" entries with
      | some (.list components) => listErrors "components" 0 components
      | _ => [.rule .componentsNotList (some "components")]
  | _ => [.rule .notObject none]

/-- The data breaks no rule, or else the first fault. -/
def check (data : Value) : Except PlanError Unit :=
  match errors data with
  | [] => .ok ()
  | error :: _ => .error error

/-- The plan breaks no rule, or else the first fault. -/
def validate (plan : Plan) : Except PlanError Plan :=
  (check plan.toValue).map fun _ => plan

/-! Reading. Each reader answers the issues it found together with what it read; what was read
counts only where there is no issue. -/

/-- The props of a component. Without the field there are none. -/
def readProps (entries : Props) : List ShapeIssue × Props :=
  match entries.get? "props" with
  | none => ([], [])
  | some (.object props) => ([], props)
  | some _ => ([⟨["props"], .notObject⟩], [])

def readKind (entries : Props) : List ShapeIssue × Kind :=
  let choices : List ShapeIssue := [⟨["type"], .notOneOf (Kind.all.map Kind.name)⟩]
  match entries.get? "type" with
  | none => ([⟨["type"], .missing⟩], default)
  | some (.text name) =>
    match Kind.ofName? name with
    | some kind => ([], kind)
    | none => (choices, default)
  | some _ => (choices, default)

mutual

def readComponent : Value → List ShapeIssue × Component
  | .object entries =>
    let (kindIssues, kind) := readKind entries
    let (propsIssues, props) := readProps entries
    let (childIssues, children) := readChildren entries
    (kindIssues ++ propsIssues ++ childIssues, ⟨kind, props, children, none⟩)
  | _ => ([⟨[], .notObject⟩], default)
termination_by structural v => v

def readList : Nat → List Value → List ShapeIssue × Forest
  | _, [] => ([], [])
  | index, v :: rest =>
    let (issues, c) := readComponent v
    let (restIssues, cs) := readList (index + 1) rest
    (issues.map (ShapeIssue.under (toString index)) ++ restIssues, c :: cs)
termination_by structural _ vs => vs

/-- The children of a component, which are the first entry of that name. Without the field there
are none. -/
def readChildren : List (String × Value) → List ShapeIssue × Forest
  | [] => ([], [])
  | (key, v) :: rest =>
    if key = "children" then
      match v with
      | .list items =>
        let (issues, children) := readList 0 items
        (issues.map (ShapeIssue.under "children"), children)
      | _ => ([⟨["children"], .notList⟩], [])
    else readChildren rest
termination_by structural es => es

end

/-- The log of plan data. Without the field it is empty. -/
def readModifications (entries : Props) : List ShapeIssue × List String :=
  match entries.get? "modifications" with
  | none => ([], [])
  | some (.list items) =>
    let issue (entry : Value × Nat) : Option ShapeIssue :=
      match entry.1 with
      | .text _ => none
      | _ => some ⟨["modifications", toString entry.2], .notText⟩
    let text (v : Value) : Option String :=
      match v with
      | .text s => some s
      | _ => none
    (items.zipIdx.filterMap issue, items.filterMap text)
  | some _ => ([⟨["modifications"], .notList⟩], [])

/-- The layout of plan data. Without the field it is the default one. -/
def readLayout (entries : Props) : List ShapeIssue × String :=
  match entries.get? "layout" with
  | none => ([], "default")
  | some (.text layout) => ([], layout)
  | some _ => ([⟨["layout"], .notText⟩], "")

/-- The components of plan data. Without the field there are none. -/
def readComponents (entries : Props) : List ShapeIssue × Forest :=
  match entries.get? "components" with
  | none => ([], [])
  | some (.list items) =>
    let (issues, components) := readList 0 items
    (issues.map (ShapeIssue.under "components"), components)
  | some _ => ([⟨["components"], .notList⟩], [])

/-- The plan that data holds. Entries of other names are left out. -/
def read : Value → List ShapeIssue × Plan
  | .object entries =>
    let (layoutIssues, layout) := readLayout entries
    let (componentIssues, components) := readComponents entries
    let (logIssues, modifications) := readModifications entries
    (layoutIssues ++ componentIssues ++ logIssues, ⟨layout, components, modifications⟩)
  | _ => ([⟨[], .notObject⟩], default)

/-- Every reason to refuse plan data. The shape is looked at only where no rule is broken. -/
def refusals (data : Value) : List PlanError :=
  match errors data with
  | [] => (read data).1.map .shape
  | found => found

/-- The plan that data holds, or every reason to refuse it. -/
def review (data : Value) : Except (List PlanError) Plan :=
  match refusals data with
  | [] => .ok (read data).2
  | found => .error found

/-- The plan that data holds, or the first reason to refuse it. -/
def parse (data : Value) : Except PlanError Plan :=
  match refusals data with
  | [] => .ok (read data).2
  | error :: _ => .error error

end Plan
end Wireframe
