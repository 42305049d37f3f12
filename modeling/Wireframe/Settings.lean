import Wireframe.Page.Render
import Wireframe.Page.Strategy
import Wireframe.Text.Blank
import Wireframe.Text.Caseless
import Wireframe.Value.Schema

/-!
Settings, read from environment variables. Each field has a variable of its own, whose name is taken
in any case; a field without a variable has its default. All fields are read before any fault is
reported.
-/
namespace Wireframe

structure Settings where
  logLevel : String
  jsonLogs : Bool
  minIntentLength : Nat
  maxIntentLength : Nat
  maxExplanationWords : Nat
  enablePatching : Bool
  strategy : Strategy
  componentImportPath : String
  componentName : String
  historyLimit : Nat
deriving Repr

/-- Variables of the environment with their values. A later variable of the same name counts. -/
abbrev Environment := List (String × String)

namespace Settings

def variableStart : String := "intentui_"

def valueOf? (env : Environment) (field : String) : Option String :=
  let name := (variableStart ++ field).toList
  (env.reverse.find? fun entry => Text.lower entry.1.toList == name).map Prod.snd

def yesWords : List String :=
  ["1", "true", "t", "yes", "y", "on"]

def noWords : List String :=
  ["0", "false", "f", "no", "n", "off"]

def readFlag (text : String) : Except ShapeFault Bool :=
  let word := String.ofList (text.toList.map Char.toLower)
  if yesWords.contains word then .ok true
  else if noWords.contains word then .ok false
  else .error .notBoolean

/-- A character that may surround a number. The information separators may not. -/
def isMargin (c : Char) : Bool :=
  isBlank c && !(0x1c ≤ c.toNat && c.toNat ≤ 0x1f)

/-- The greatest number of characters that a whole number may have, its minus included. -/
def integerLength : Nat := 4300

/-- Digits that write a whole number: at most `room` of them, and a zero in front only if it is the
only digit. -/
def readDigits (room : Nat) (text : Text) : Except ShapeFault Nat :=
  let digits := text.takeWhile Char.isDigit
  if digits.isEmpty || (digits.head? = some '0' && text.length ≠ 1) then .error .notInteger
  else if room < digits.length then .error .integerTooLong
  else if digits.length ≠ text.length then .error .notInteger
  else .ok (digits.foldl (fun n c => n * 10 + (c.toNat - '0'.toNat)) 0)

/-- A whole number in its usual form: digits, possibly after a minus. -/
def readPlainInteger : Text → Except ShapeFault Int
  | '-' :: digits => (readDigits (integerLength - 1) digits).map fun n => -(n : Int)
  | digits => (readDigits integerLength digits).map fun n => (n : Int)

/-- The text without the zeros in front, which low lines may group. The last zero stays before a
point and at the end. A number that starts with another digit has none. -/
def dropPadding? (text : Text) : Option Text :=
  let isPadding (c : Char) : Bool := c == '0' || c == '_'
  let padding := text.takeWhile isPadding
  match text with
  | '0' :: _ =>
    match text.dropWhile isPadding with
    | [] => if padding.getLast? = some '0' then some ['0'] else none
    | c :: rest =>
      if c.isDigit || c == '-' then some (c :: rest)
      else if c == '.' && padding.getLast? = some '0' then some ('0' :: c :: rest)
      else none
  | c :: _ => if c.isDigit then some text else none
  | [] => none

/-- The text without a point and the zeros behind it, of which there is at least one. -/
def dropZeroFraction (text : Text) : Text :=
  let fraction := (text.dropWhile (· ≠ '.')).drop 1
  if !fraction.isEmpty && fraction.all (· == '0') then text.takeWhile (· ≠ '.') else text

/-- The text without the low lines that group its digits. A low line neither starts nor ends the
text nor follows another. The flag says whether one may stand next. -/
def ungroup? : Bool → Text → Option Text
  | mayGroup, [] => if mayGroup then some [] else none
  | mayGroup, c :: rest =>
    if c = '_' then if mayGroup then ungroup? false rest else none
    else (ungroup? true rest).map (c :: ·)

/-- The usual form of a whole number without a sign. -/
def plainMagnitude? (text : Text) : Option Text :=
  (dropPadding? text).bind fun text => ungroup? false (dropZeroFraction text)

/-- The usual form of a whole number that is written with margins, a plus, zeros in front, groups of
digits, or a point with zeros behind it. -/
def plainInteger? (text : Text) : Option Text :=
  match ((text.dropWhile isMargin).reverse.dropWhile isMargin).reverse with
  | '-' :: magnitude => (plainMagnitude? magnitude).map fun digits => '-' :: digits
  | '+' :: magnitude => plainMagnitude? magnitude
  | magnitude => plainMagnitude? magnitude

def readInteger (text : String) : Except ShapeFault Int :=
  match readPlainInteger text.toList, plainInteger? text.toList with
  | .error .notInteger, some plain => readPlainInteger plain
  | result, _ => result

def readPositive (text : String) : Except ShapeFault Nat :=
  match readInteger text with
  | .error fault => .error fault
  | .ok n => if 0 < n then .ok n.toNat else .error .notPositive

def readStrategy (text : String) : Except ShapeFault Strategy :=
  match Strategy.ofName? text with
  | some strategy => .ok strategy
  | none => .error (.notOneOf (Strategy.all.map Strategy.name))

/-- A field that is read from its variable, or has its default. -/
def field {α : Type} (env : Environment) (name : String) (default : α)
    (read : String → Except ShapeFault α) : List ShapeIssue × α :=
  match valueOf? env name with
  | none => ([], default)
  | some text =>
    match read text with
    | .ok value => ([], value)
    | .error fault => ([⟨[name], fault⟩], default)

def readText (text : String) : Except ShapeFault String := .ok text

/-- The settings of an environment, or every fault in it in the order of the fields. -/
def ofEnvironment (env : Environment) : Except (List ShapeIssue) Settings :=
  let logLevel := field env "log_level" "INFO" readText
  let jsonLogs := field env "json_logs" false readFlag
  let minIntentLength := field env "min_intent_length" 3 readPositive
  let maxIntentLength := field env "max_intent_length" 500 readPositive
  let maxExplanationWords := field env "max_explanation_words" 300 readPositive
  let enablePatching := field env "enable_patching" true readFlag
  let strategy := field env "patch_strategy" Strategy.combined readStrategy
  let componentImportPath := field env "component_import_path" "@/components/ui" readText
  let componentName := field env "component_name" "GeneratedUI" readText
  let historyLimit := field env "history_limit" 50 readPositive
  match logLevel.1 ++ jsonLogs.1 ++ minIntentLength.1 ++ maxIntentLength.1
      ++ maxExplanationWords.1 ++ enablePatching.1 ++ strategy.1 ++ componentImportPath.1
      ++ componentName.1 ++ historyLimit.1 with
  | [] =>
    .ok ⟨logLevel.2, jsonLogs.2, minIntentLength.2, maxIntentLength.2, maxExplanationWords.2,
      enablePatching.2, strategy.2, componentImportPath.2, componentName.2, historyLimit.2⟩
  | issues => .error issues

/-- The settings as named values, in the order of the fields. -/
def toProps (settings : Settings) : Props :=
  [("log_level", .text settings.logLevel), ("json_logs", .boolean settings.jsonLogs),
   ("min_intent_length", .integer settings.minIntentLength),
   ("max_intent_length", .integer settings.maxIntentLength),
   ("max_explanation_words", .integer settings.maxExplanationWords),
   ("enable_patching", .boolean settings.enablePatching),
   ("patch_strategy", .text settings.strategy.name),
   ("component_import_path", .text settings.componentImportPath),
   ("component_name", .text settings.componentName),
   ("history_limit", .integer settings.historyLimit)]

def frame (settings : Settings) : Frame :=
  ⟨settings.componentName, settings.componentImportPath⟩

end Settings
end Wireframe
