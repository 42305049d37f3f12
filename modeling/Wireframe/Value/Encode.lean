import Wireframe.Value.Depth
import Wireframe.Number.Written
import Wireframe.Text.Quoted

/-!
Values written as JSON, on one line or on indented lines. Characters beyond ASCII are written as
they are.
-/
namespace Wireframe
namespace Value

def encodeChar (c : Char) : Text :=
  if c = '"' || c = '\\' then ['\\', c]
  else if c = '\u0008' then ['\\', 'b']
  else if c = '\t' then ['\\', 't']
  else if c = '\n' then ['\\', 'n']
  else if c = '\u000c' then ['\\', 'f']
  else if c = '\r' then ['\\', 'r']
  else if c.toNat < 0x20 then '\\' :: 'u' :: Text.hex 4 c.toNat
  else [c]

def encodeText (s : String) : Text :=
  '"' :: s.toList.flatMap encodeChar ++ ['"']

mutual

/-- The value on one line without any blank. -/
def encodeLine (format : RealFormat) : Value → Text
  | .null => "null".toList
  | .boolean true => "true".toList
  | .boolean false => "false".toList
  | .integer n => writeInteger n
  | .real x => writeReal format x
  | .text s => encodeText s
  | .list items => '[' :: encodeLineItems format items ++ [']']
  | .object entries => '\x7b' :: encodeLineEntries format entries ++ ['\x7d']
termination_by structural v => v

def encodeLineItems (format : RealFormat) : List Value → Text
  | [] => []
  | [v] => encodeLine format v
  | v :: rest => encodeLine format v ++ ',' :: encodeLineItems format rest
termination_by structural vs => vs

def encodeLineEntries (format : RealFormat) : List (String × Value) → Text
  | [] => []
  | [(key, v)] => encodeText key ++ ':' :: encodeLine format v
  | (key, v) :: rest =>
    encodeText key ++ ':' :: encodeLine format v ++ ',' :: encodeLineEntries format rest
termination_by structural es => es

end

def newLine (indent : Nat) : Text :=
  '\n' :: Text.spaces indent

mutual

/-- The value with each member of a list or an object on a line of its own, indented by `step` more
than what holds it. Empty lists and objects stay on one line. -/
def encodeIndented (step : Nat) : Nat → Value → Text
  | _, .list [] => ['[', ']']
  | _, .object [] => ['\x7b', '\x7d']
  | indent, .list items =>
    '[' :: encodeIndentedItems step (indent + step) items ++ newLine indent ++ [']']
  | indent, .object entries =>
    '\x7b' :: encodeIndentedEntries step (indent + step) entries ++ newLine indent ++ ['\x7d']
  | _, .null => "null".toList
  | _, .boolean true => "true".toList
  | _, .boolean false => "false".toList
  | _, .integer n => writeInteger n
  | _, .real x => writeReal .plain x
  | _, .text s => encodeText s
termination_by structural _ v => v

def encodeIndentedItems (step : Nat) : Nat → List Value → Text
  | _, [] => []
  | indent, [v] => newLine indent ++ encodeIndented step indent v
  | indent, v :: rest =>
    newLine indent ++ encodeIndented step indent v ++ ',' :: encodeIndentedItems step indent rest
termination_by structural _ vs => vs

def encodeIndentedEntries (step : Nat) : Nat → List (String × Value) → Text
  | _, [] => []
  | indent, [(key, v)] =>
    newLine indent ++ encodeText key ++ ':' :: ' ' :: encodeIndented step indent v
  | indent, (key, v) :: rest =>
    newLine indent ++ encodeText key ++ ':' :: ' ' :: encodeIndented step indent v
      ++ ',' :: encodeIndentedEntries step indent rest
termination_by structural _ es => es

end

mutual

/-- Every whole number in the value fits a machine word of 64 bits, signed or unsigned. -/
def fitsWords : Value → Bool
  | .integer n => -(2 ^ 63) ≤ n && n < 2 ^ 64
  | .list items => itemsFitWords items
  | .object entries => entriesFitWords entries
  | _ => true
termination_by structural v => v

def itemsFitWords : List Value → Bool
  | [] => true
  | v :: rest => fitsWords v && itemsFitWords rest
termination_by structural vs => vs

def entriesFitWords : List (String × Value) → Bool
  | [] => true
  | (_, v) :: rest => fitsWords v && entriesFitWords rest
termination_by structural es => es

end

/-- The deepest level at which the compact number format may be used. -/
def compactDepthLimit : Int := 254

/-- The compact number format applies to the value: all whole numbers fit machine words, and nothing
lies too deep. -/
def isCompact (v : Value) : Bool :=
  v.fitsWords && (tooDeep? compactDepthLimit 0 v).isNone

def encode (v : Value) : Text :=
  encodeLine (if v.isCompact then .compact else .plain) v

/-- The value as JSON. An indentation of zero asks for compact JSON, a positive one for lines, and
a negative one for a single line with numbers in the plain format. -/
def encodeWith (indent : Int) (v : Value) : Text :=
  if indent = 0 then v.encode
  else if 0 < indent then encodeIndented indent.toNat 0 v
  else encodeLine .plain v

end Value
end Wireframe
