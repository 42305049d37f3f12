import Wireframe.Plan.Basic
import Wireframe.Text.Blank

/-!
The explanation of a plan: what was asked for, what was done, the structure of the page, and why its
components are there. An explanation that is too long or that looks like markup is refused as a
whole.
-/
namespace Wireframe

inductive ExplanationError where
  | tooLong (limit : Int) (words : Nat)
  | codeFence
  | markup
deriving DecidableEq, Repr

namespace ExplanationError

def message : ExplanationError → String
  | .tooLong limit words =>
    "Explanation exceeds " ++ toString limit ++ " words (" ++ toString words ++ ")"
  | .codeFence => "Explanation contains a code fence"
  | .markup => "Explanation contains markup"

end ExplanationError

namespace Explanation

def incrementalBenefits : String :=
  "**Incremental Update Benefits**: Instead of regenerating the entire interface, "
    ++ "I only modified the specific elements you requested. This preserves your existing "
    ++ "layout and other components while making precise changes where needed."

def rationale : Kind → String
  | .navbar => "The Navbar provides persistent navigation and branding."
  | .sidebar => "Sidebar offers additional navigation options and contextual filters."
  | .card => "Cards organize related content into digestible containers."
  | .button => "Buttons trigger actions and provide clear user affordances."
  | .input => "Input fields capture user data with proper validation and labeling."
  | .table => "Tables present structured data for efficient scanning and comparison."
  | .modal => "Modals focus user attention on critical tasks or confirmations."
  | .chart => "Charts visualize data patterns for quick insights."

def layoutRationale (layout : String) : String :=
  if layout = "dashboard" then
    "A dashboard layout provides at-a-glance views of key metrics and data. "
      ++ "It's ideal for monitoring and analysis tasks."
  else if layout = "form" then
    "A form layout guides users through data entry with clear field labels, "
      ++ "input validation, and submission controls."
  else if layout = "modal-view" then
    "Modal-based layouts focus user attention on specific tasks without losing "
      ++ "context of the underlying page."
  else "This standard application layout provides clear navigation and content organization."

/-- What holds of every page. -/
def accessibility : String :=
  "**Accessibility & Determinism**: All components are pre-built with WCAG-compliant "
    ++ "contrast ratios, keyboard navigation, and screen reader support. The exact same input "
    ++ "will always produce identical output."

def line (depth : Nat) (c : Component) : String :=
  String.ofList (Text.spaces (2 * depth)) ++ "• " ++ c.kind.name
    ++ (match c.displayText? with
      | some text => ": \"" ++ text ++ "\""
      | none => "")

mutual

def componentLines (depth : Nat) : Component → List String
  | ⟨kind, props, children, source⟩ =>
    line depth ⟨kind, props, children, source⟩ :: hierarchy (depth + 1) children
termination_by structural c => c

/-- One line for each component of a forest, indented by two spaces for each depth. -/
def hierarchy (depth : Nat) : List Component → List String
  | [] => []
  | c :: rest => componentLines depth c ++ hierarchy depth rest
termination_by structural forest => forest

end

/-- The kinds of a forest in the order of their first components. -/
def kinds (forest : Forest) : List Kind :=
  ((Forest.walk forest).map Component.kind).eraseDups

def rationales (forest : Forest) : String :=
  " ".intercalate ((kinds forest).map rationale)

/-- The text passes as an explanation of at most `limit` words. -/
def check (limit : Int) (text : String) : Except ExplanationError Unit :=
  let words := Text.wordCount text.toList
  if limit < words then .error (.tooLong limit words)
  else if Text.occurs "\x60\x60\x60".toList text.toList then .error .codeFence
  else if text.toList.contains '<' && text.toList.contains '>' then .error .markup
  else .ok ()

/-- The changes as a numbered list. -/
def steps (modifications : List String) : String :=
  "\n".intercalate
    (modifications.zipIdx.map fun (entry, index) => toString (index + 1) ++ ". " ++ entry)

def structureParagraph (forest : Forest) : String :=
  "**Current Layout Structure**:"
    ++ (match hierarchy 0 forest with
      | [] => " empty"
      | lines => "\n" ++ "\n".intercalate lines)

def paragraphs (request : String) (plan : Plan) (modifications : List String) : List String :=
  let opening := "Based on your request to \"" ++ request ++ "\", "
  let rationale := rationales plan.components
  let body :=
    [structureParagraph plan.components]
      ++ (if rationale.isEmpty then [] else ["**Component Rationale**: " ++ rationale])
  if modifications.isEmpty then
    [opening ++ "I've created a " ++ plan.layout ++ " layout that best suits your needs."]
      ++ body ++ ["**Why This Layout**: " ++ layoutRationale plan.layout, accessibility]
  else
    [opening ++ "I've made the following targeted changes to your existing UI:",
      steps modifications, incrementalBenefits] ++ body ++ [accessibility]

/-- The explanation of a plan after some modifications, in at most `limit` words. -/
def explain (limit : Int) (request : String) (plan : Plan) (modifications : List String) :
    Except ExplanationError String :=
  let text := "\n\n".intercalate (paragraphs request plan modifications)
  (check limit text).map fun _ => text

end Explanation

end Wireframe
