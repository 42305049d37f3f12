import Wireframe.Text.Basic
import Wireframe.Text.Digit

/-!
Reading a command line. It takes one instruction and options for a previous plan, its source, and
output as JSON. An option may be cut short as long as it is clear which one is meant, its value may
follow as the next word or after `=`, and two dashes on their own end the options.
-/
namespace Wireframe

structure Invocation where
  intent : String
  planFile : Option String
  codeFile : Option String
  json : Bool
deriving DecidableEq, Repr

/-- What a command line asks for. -/
inductive Command where
  | help
  | misuse
  | call (invocation : Invocation)
deriving DecidableEq, Repr

namespace Command

/-- The files that a command line may name. -/
inductive Role where
  | plan
  | code
deriving DecidableEq, Repr

/-- The options. Only those for files take a value. -/
inductive Flag where
  | help
  | json
  | file (role : Role)
deriving DecidableEq, Repr

def longFlags : List (String × Flag) :=
  [("--help", .help), ("--plan", .file .plan), ("--code", .file .code), ("--json", .json)]

def flags : List (String × Flag) :=
  ("-h", .help) :: longFlags

def flag? (name : String) : Option Flag :=
  (flags.find? fun entry => entry.1 == name).map Prod.snd

/-- What a word of a command line is. -/
inductive Word where
  | plain (text : String)
  | dashes
  | flag (flag : Flag)
  /-- An option for a file with its value. -/
  | file (role : Role) (name : String)
  /-- An option with a value that it does not take. -/
  | surplus
  | ambiguous
  | unknown
deriving DecidableEq, Repr

/-- The parts before and after the first `=` of a word. -/
def splitEquals? (word : Text) : Option (String × String) :=
  (Text.cutAt? ['='] word).map fun cut => (String.ofList cut.before, String.ofList cut.after)

/-- A word without a line break at its end. -/
def dropLineBreak (word : Text) : Text :=
  if word.getLast? = some '\n' then word.dropLast else word

/-- A minus and digits, with at most one point, which has digits behind it. A line break may end the
word. -/
def isNegativeNumber (word : Text) : Bool :=
  match dropLineBreak word with
  | '-' :: digits =>
    match digits.dropWhile isDecimalDigit with
    | [] => !digits.isEmpty
    | '.' :: fraction => !fraction.isEmpty && fraction.all isDecimalDigit
    | _ => false
  | _ => false

/-- A long option, possibly with a value after `=`. -/
def longWord (flag : Flag) : Option String → Word
  | none => .flag flag
  | some value =>
    match flag with
    | .file role => .file role value
    | _ => .surplus

/-- The one-letter option for help with more characters after it, each of which has to ask for help
as well. -/
def helpWord (more : Text) : Word :=
  if !more.isEmpty && more.all (· == 'h') then .flag .help else .surplus

/-- The word of a long option that is cut short. -/
def shortened? (name : String) (value : Option String) : Option Word :=
  match longFlags.filter fun entry => name.toList.isPrefixOf entry.1.toList with
  | [] => none
  | [(_, flag)] => some (longWord flag value)
  | _ => some .ambiguous

/-- A word that starts with a dash and is no option is still plain if it is a negative number or
holds a space. -/
def otherWord (word : Text) : Word :=
  if isNegativeNumber word || word.contains ' ' then .plain (String.ofList word) else .unknown

/-- A word that starts with two dashes and is not the name of an option. -/
def doubleDashed (word : Text) : Word :=
  let found :=
    match splitEquals? word with
    | some (name, value) => shortened? name (some value)
    | none => shortened? (String.ofList word) none
  found.getD (otherWord word)

/-- A word that starts with a single dash and is not the name of an option. -/
def singleDashed (word : Text) : Word :=
  match Text.after? ['-', 'h'] word with
  | some ('=' :: more) => helpWord more
  | some more => helpWord more
  | none => otherWord word

def classify (word : String) : Word :=
  if word = "--" then .dashes
  else
    match flag? word with
    | some flag => .flag flag
    | none =>
      if word = "-" || !(['-'].isPrefixOf word.toList) then .plain word
      else if ['-', '-'].isPrefixOf word.toList then doubleDashed word.toList
      else singleDashed word.toList

def classifyAll : List String → List Word
  | [] => []
  | word :: rest =>
    match classify word with
    | .dashes => .dashes :: rest.map .plain
    | known => known :: classifyAll rest

/-- What was read of a command line so far. The flag says whether something did not fit. -/
structure Progress where
  intent : Option String
  planFile : Option String
  codeFile : Option String
  json : Bool
  misfit : Bool
deriving Repr

def Progress.start : Progress := ⟨none, none, none, false, false⟩

def Progress.withFile (role : Role) (name : Option String) (progress : Progress) : Progress :=
  match role with
  | .plan => { progress with planFile := name }
  | .code => { progress with codeFile := name }

/-- The file that a value after `=` names. Two dashes name none. -/
def namedFile? (name : String) : Option String :=
  if name = "--" then none else some name

def finish (progress : Progress) : Command :=
  match progress.intent, progress.misfit with
  | some intent, false => .call ⟨intent, progress.planFile, progress.codeFile, progress.json⟩
  | _, _ => .misuse

def readWords : Progress → List Word → Command
  | progress, [] => finish progress
  | progress, .plain text :: rest =>
    if progress.intent.isSome then readWords { progress with misfit := true } rest
    else
      match rest with
      | .dashes :: rest => readWords { progress with intent := some text } rest
      | rest => readWords { progress with intent := some text } rest
  | progress, .dashes :: rest =>
    let fits := progress.intent.isNone && !rest.isEmpty
    readWords { progress with misfit := progress.misfit || !fits } rest
  | progress, .unknown :: rest => readWords { progress with misfit := true } rest
  | _, .ambiguous :: _ => .misuse
  | _, .surplus :: _ => .misuse
  | _, .flag .help :: _ => .help
  | progress, .flag .json :: rest => readWords { progress with json := true } rest
  | progress, .file role name :: rest =>
    readWords (progress.withFile role (namedFile? name)) rest
  | progress, .flag (.file role) :: .plain name :: rest =>
    readWords (progress.withFile role (some name)) rest
  | _, .flag (.file _) :: _ => .misuse

def read (words : List String) : Command :=
  let words := classifyAll words
  if words.contains .ambiguous then .misuse else readWords .start words

def helpText : String :=
  "usage: intentui [-h] [--plan PLAN] [--code CODE] [--json] intent\n\n"
    ++ "Turn an instruction into UI code\n\n"
    ++ "positional arguments:\n"
    ++ "  intent       Free-text instruction\n\n"
    ++ "options:\n"
    ++ "  -h, --help   show this help message and exit\n"
    ++ "  --plan PLAN  JSON file holding the previous plan\n"
    ++ "  --code CODE  Previously generated code to patch in place\n"
    ++ "  --json       Print the full result as JSON\n"

end Command
end Wireframe
