import Wireframe.Instruction.Request
import Wireframe.Page.Diff
import Wireframe.Page.Patch
import Wireframe.Page.Recover
import Wireframe.Page.Safety
import Wireframe.Plan.Check
import Wireframe.Plan.Explanation
import Wireframe.Plan.Planner
import Wireframe.Usage

/-!
A run from an instruction to a page: accept the instruction, plan, check the plan, patch the
previous source or render the plan, check the source, explain. A run that fails names its stage. A
failed patch does not fail the run: the plan is then rendered afresh. Events record what happened.
-/
namespace Wireframe

inductive Stage where
  | planning
  | validation
  | generation
  | safety
  | explanation
deriving DecidableEq, Repr

namespace Stage

def name : Stage → String
  | .planning => "planning"
  | .validation => "validation"
  | .generation => "generation"
  | .safety => "safety check"
  | .explanation => "explanation"

end Stage

inductive RunCause where
  | request (fault : ShapeFault)
  | plan (error : PlanError)
  | unsafeSource (faults : List SafetyFault)
  | explanation (error : ExplanationError)
deriving Repr

namespace RunCause

def stage : RunCause → Stage
  | .request _ => .validation
  | .plan _ => .validation
  | .unsafeSource _ => .safety
  | .explanation _ => .explanation

def reason : RunCause → String
  | .request fault => fault.message
  | .plan error => error.message
  | .unsafeSource faults => Safety.message faults
  | .explanation error => error.message

def message (cause : RunCause) : String :=
  cause.stage.name ++ " failed: " ++ cause.reason

end RunCause

/-- What a run gives: the plan, the source of the page, the explanation, and whether the source came
from a patch. -/
structure Outcome where
  plan : Plan
  code : Text
  explanation : String
  patched : Bool
deriving Repr

namespace Outcome

def toValue (outcome : Outcome) : Value :=
  .object [("plan", outcome.plan.toValue), ("code", .text (String.ofList outcome.code)),
    ("explanation", .text outcome.explanation), ("patched", .boolean outcome.patched)]

end Outcome

namespace Pipeline

/-- A result together with the events on the way to it. -/
abbrev Recorded (α : Type) := α × List Event

/-- The operations that lead from page source to a plan. -/
def operationsFor (settings : Settings) (code : Text) (plan : Plan) : List Operation :=
  Diff.operations settings.strategy (Page.recover code) plan

/-- The source patched towards a plan. The operations are counted once all are applied. -/
def patch (settings : Settings) (code : Text) (plan : Plan) : Recorded (Except PatchError Text) :=
  let operations := operationsFor settings code plan
  match Page.applyAll code operations with
  | .error error => (.error error, [])
  | .ok patched =>
    (if Text.allBlank patched then .error .emptyResult else .ok patched,
      operations.map fun operation => .operation operation.kindName)

/-- The source for a plan, and whether it came from a patch. Only source that is not empty is
patched. -/
def generate (settings : Settings) (plan : Plan) (previousCode : Text) : Recorded (Text × Bool) :=
  let rendered := (Page.render settings.frame plan, false)
  if previousCode.isEmpty || !settings.enablePatching then (rendered, [])
  else
    match patch settings previousCode plan with
    | (.ok code, events) => ((code, true), events)
    | (.error _, events) => (rendered, events ++ [.fallback])

/-- The part of a run after the plan was checked. -/
def deliver (settings : Settings) (request : String) (plan : Plan) (previousCode : Text) :
    Recorded (Except RunCause Outcome) :=
  let ((code, patched), events) := generate settings plan previousCode
  let events := events ++ [.stage Stage.generation.name, .stage Stage.safety.name]
  match Safety.check settings.componentImportPath code with
  | .error faults => (.error (.unsafeSource faults), events)
  | .ok _ =>
    let events := events ++ [.stage Stage.explanation.name]
    match Explanation.explain settings.maxExplanationWords request plan plan.modifications with
    | .error error => (.error (.explanation error), events)
    | .ok explanation => (.ok ⟨plan, code, explanation, patched⟩, events)

def stages (settings : Settings) (intent : Value) (previousPlan : Option Plan)
    (previousCode : Text) : Recorded (Except RunCause Outcome) :=
  match Request.ofValue settings intent with
  | .error fault => (.error (.request fault), [.stage Stage.validation.name])
  | .ok request =>
    let plan := Plan.next request.toList previousPlan
    let events : List Event :=
      [.stage Stage.validation.name, .stage Stage.planning.name, .stage Stage.validation.name]
    match Plan.validate plan with
    | .error error => (.error (.plan error), events)
    | .ok plan =>
      let (result, more) := deliver settings request plan previousCode
      (result, events ++ more)

/-- A run on top of a previous plan and its source, either of which may be missing. -/
def run (settings : Settings) (intent : Value) (previousPlan : Option Plan)
    (previousCode : Option Text) : Recorded (Except RunCause Outcome) :=
  let mode := if previousPlan.isSome then "modify" else "create"
  match stages settings intent previousPlan (previousCode.getD []) with
  | (.ok outcome, events) => (.ok outcome, events ++ [.request mode "success"])
  | (.error cause, events) =>
    (.error cause, events ++ [.request mode "error", .failure cause.stage.name])

end Pipeline
end Wireframe
