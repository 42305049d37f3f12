import Wireframe.Page.Operation
import Wireframe.Page.Strategy
import Wireframe.Plan.Template
import Wireframe.Value.Same

/-!
The operations that lead from the components of a page to a plan. Components have no lasting names.
Two roots are taken for the same one if they are of one kind and share a text that identifies them,
or if neither has such a text; each root of the page is taken at most once. The log of a plan can
also name operations outright.
-/
namespace Wireframe

namespace Diff

/-- The props that can identify a component. -/
def identityKeys : List String :=
  ["title", "label", "placeholder", "children"]

/-- The texts that identify a component, with their keys. -/
def identity (c : Component) : List (String × String) :=
  identityKeys.filterMap fun key => (c.props.text? key).map fun text => (key, text)

/-- The props that show in page source: all but those that are `false`. -/
def visible (props : Props) : Props :=
  props.filter fun entry => !entry.2.isFalse

mutual

/-- The two components have the same kind, the same visible props and children of the same shape. -/
def sameShape : Component → Component → Bool
  | ⟨kind, props, children, _⟩, d =>
    kind == d.kind && Value.same (.object (visible props)) (.object (visible d.props))
      && sameShapes children d.children
termination_by structural c => c

def sameShapes : List Component → List Component → Bool
  | [], [] => true
  | c :: cs, d :: ds => sameShape c d && sameShapes cs ds
  | _, _ => false
termination_by structural cs => cs

end

def sharesText (wanted known : List (String × String)) : Bool :=
  wanted.any fun entry => known.contains entry

/-- The component can be taken for the candidate. -/
def matchesRoot (c candidate : Component) : Bool :=
  let wanted := identity c
  let known := identity candidate
  candidate.kind == c.kind
    && (if wanted.isEmpty then known.isEmpty else sharesText wanted known)

/-- The first candidate that the component can be taken for, with its place, among those that were
not yet taken. -/
def findMatch? (c : Component) (candidates : Forest) (taken : List Nat) :
    Option (Component × Nat) :=
  candidates.zipIdx.find? fun entry => !taken.contains entry.2 && matchesRoot c entry.1

/-- The changes that lead from some props to others: first what is set, then what is removed. -/
def propChanges (old new : Props) : List Change :=
  let old := visible old
  let new := visible new
  let isNew (entry : String × Value) : Bool :=
    match old.get? entry.1 with
    | some value => !Value.same value entry.2
    | none => true
  (new.filter isNew).map (fun entry => Change.set entry.1 entry.2)
    ++ (old.filter fun entry => (new.get? entry.1).isNone).map fun entry => Change.remove entry.1

/-- The operations that change one root into another. The children come first, since a change of
props alters the opening tag by which the root is found. -/
def rootOperations (old new : Component) : List Operation :=
  let changes := propChanges old.props new.props
  (if sameShapes old.children new.children then [] else [.updateChildren old new.children])
    ++ (if changes.isEmpty then [] else [.updateProps old changes])

/-- The operations for the roots of a plan in order, and the roots of the page that were taken. -/
def matchRoots (forest : Forest) : List Nat → List Component → List Operation × List Nat
  | taken, [] => ([], taken)
  | taken, c :: rest =>
    match findMatch? c forest taken with
    | none =>
      let (operations, taken) := matchRoots forest taken rest
      (.addRoot c :: operations, taken)
    | some (old, index) =>
      let (operations, taken) := matchRoots forest (index :: taken) rest
      (rootOperations old c ++ operations, taken)

/-- The operations that a comparison of roots gives. Roots of the page that were not taken are
removed last. -/
def compared (forest : Forest) (plan : Plan) : List Operation :=
  let (operations, taken) := matchRoots forest [] plan.components
  operations
    ++ (forest.zipIdx.filter fun entry => !taken.contains entry.2).map fun entry => .remove entry.1

/-- The text between double quotes after some words, at the first place where there is one. -/
def loggedText? (words entry : String) : Option String :=
  let read (text : Text) : Option Text :=
    match Text.after? words.toList text with
    | some ('"' :: rest) =>
      let value := rest.takeWhile (· ≠ '"')
      if value.isEmpty || value.length = rest.length then none else some value
    | _ => none
  (Text.firstSuffix? read entry.toList).map String.ofList

def logs (words entry : String) : Bool :=
  Text.occurs words.toList entry.toList

/-- The operation that a log entry names, if it names one. -/
def ofEntry? (entry : String) : Option Operation :=
  match loggedText? "Added button " entry with
  | some label => some (.addRoot (Template.button label))
  | none =>
  match loggedText? "Added input field " entry with
  | some label => some (.addRoot (Template.labeledInput ("Enter " ++ label) label))
  | none =>
  match loggedText? "Changed button label to " entry with
  | some label => some (.updateProps (.leaf .button []) [.set "children" (.text label)])
  | none =>
    if logs "Removed button" entry then some (.remove (.leaf .button []))
    else if logs "Replaced table with chart" entry then
      some (.replace (.leaf .table []) Template.replacementChart)
    else if logs "Replaced chart with table" entry then
      some (.replace (.leaf .chart []) Template.replacementTable)
    else none

def logged (modifications : List String) : List Operation :=
  modifications.filterMap ofEntry?

def operations (strategy : Strategy) (forest : Forest) (plan : Plan) : List Operation :=
  let explicit := logged plan.modifications
  match strategy with
  | .combined => compared forest plan ++ explicit
  | .explicitPreferred => if explicit.isEmpty then compared forest plan else explicit

end Diff
end Wireframe
