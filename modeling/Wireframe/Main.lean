import Wireframe.CommandLine

/-!
The program: reads the environment and the files that the command line names, and writes what the
run leaves.
-/
namespace Wireframe

def settingNames : List String :=
  ["log_level", "json_logs", "min_intent_length", "max_intent_length", "max_explanation_words",
   "enable_patching", "patch_strategy", "component_import_path", "component_name", "history_limit"]

def readEnvironment : IO Environment := do
  let names := settingNames.map fun name => Settings.variableStart ++ name
  let entries ← (names ++ names.map String.toUpper).mapM fun name => do
    let value ← IO.getEnv name
    return value.map fun value => (name, value)
  return entries.filterMap id

def readOne (name : FileName) : IO (FileName × Except FileError String) := do
  try
    return (name, .ok (← IO.FS.readFile name.toString))
  catch
    | .noFileOrDirectory .. => return (name, .error .missing)
    | .inappropriateType .. => return (name, .error .notDirectory)
    | .invalidArgument .. => return (name, .error .nameTooLong)
    | _ => return (name, .error .isDirectory)

def readNamed (words : List String) : IO Files := do
  let names :=
    match Command.read words with
    | .call invocation => invocation.planFile.toList ++ invocation.codeFile.toList
    | _ => []
  let found ← names.mapM fun name => readOne (FileName.ofString name)
  return fun name => (found.lookup name).getD (.error .missing)

/-- Runs a command line and answers the exit code. -/
def runProgram (words : List String) : IO UInt32 := do
  match CommandLine.run (← readEnvironment) (← readNamed words) words with
  | .help =>
    IO.print Command.helpText
    return 0
  | .misuse =>
    IO.eprint Command.helpText
    return 2
  | .breakdown cause =>
    IO.eprintln cause.message
    return 1
  | .badSettings issues =>
    for issue in issues do
      IO.eprintln (issue.dotted ++ ": " ++ issue.fault.message)
    return 1
  | .exit left =>
    IO.print left.output
    IO.eprint left.errors
    return left.code.toUInt32

end Wireframe

def main (words : List String) : IO UInt32 :=
  Wireframe.runProgram words
