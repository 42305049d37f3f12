import Wireframe.FileName
import Wireframe.Invocation
import Wireframe.LogLevel
import Wireframe.Pipeline

/-!
The program on its command line: a run on the files that the command line names, and what the run
leaves. Faults that the program expects end in a message and an exit code; others break it off.
-/
namespace Wireframe
namespace CommandLine

/-- A text with every line break as a single character. -/
def unifyLines : Text → Text
  | [] => []
  | '\r' :: '\n' :: rest => '\n' :: unifyLines rest
  | c :: rest => (if c = '\r' then '\n' else c) :: unifyLines rest

/-- What breaks the program off. -/
inductive Breakdown where
  | logLevel (fault : LogLevelFault)
  | nullInName
deriving DecidableEq, Repr

def Breakdown.message : Breakdown → String
  | .logLevel fault => fault.message
  | .nullInName => "embedded null byte"

inductive CallError where
  | breakdown (cause : Breakdown)
  | file (name : FileName) (error : FileError)
  | invalidJson
  | plan (error : PlanError)
  | run (cause : RunCause)
deriving Repr

def CallError.message : CallError → String
  | .breakdown cause => cause.message
  | .file name error => error.message name
  | .invalidJson => "Invalid JSON"
  | .plan error => error.message
  | .run cause => cause.message

def readFile (files : Files) (name : String) : Except CallError Text :=
  if name.toList.contains '\x00' then .error (.breakdown .nullInName)
  else
    match files (FileName.ofString name) with
    | .ok content => .ok (unifyLines content.toList)
    | .error error => .error (.file (FileName.ofString name) error)

def readPlan (files : Files) (name : String) : Except CallError Plan := do
  let text ← readFile files name
  match Value.decode? text with
  | none => .error .invalidJson
  | some data => (Plan.parse data).mapError .plan

def checkLogLevel (settings : Settings) : Except CallError Unit :=
  match LogLevelFault.ofName? settings.logLevel with
  | some fault => .error (.breakdown (.logLevel fault))
  | none => .ok ()

/-- A call of the pipeline with the files that it names. -/
def call (settings : Settings) (files : Files) (invocation : Invocation) :
    Except CallError Outcome := do
  checkLogLevel settings
  let plan ← invocation.planFile.mapM (readPlan files)
  let code ← invocation.codeFile.mapM (readFile files)
  (Pipeline.run settings (.text invocation.intent) plan code).1.mapError .run

/-- What the program leaves: an exit code and two streams. -/
structure Exit where
  code : Nat
  output : String
  errors : String
deriving DecidableEq, Repr

/-- What becomes of a command line. -/
inductive Result where
  | help
  | misuse
  | badSettings (issues : List ShapeIssue)
  | breakdown (cause : Breakdown)
  | exit (exit : Exit)
deriving Repr

def resultOf (json : Bool) : Except CallError Outcome → Result
  | .error (.breakdown cause) => .breakdown cause
  | .error error => .exit ⟨1, "", "error: " ++ error.message ++ "\n"⟩
  | .ok outcome =>
    if json then .exit ⟨0, String.ofList (Value.encodeWith 2 outcome.toValue) ++ "\n", ""⟩
    else .exit ⟨0, String.ofList outcome.code ++ "\n", outcome.explanation ++ "\n"⟩

/-- Runs a command line. The settings are looked at only for a call. -/
def run (env : Environment) (files : Files) (words : List String) : Result :=
  match Command.read words with
  | .help => .help
  | .misuse => .misuse
  | .call invocation =>
    match Settings.ofEnvironment env with
    | .error issues => .badSettings issues
    | .ok settings => resultOf invocation.json (call settings files invocation)

end CommandLine
end Wireframe
