import Wireframe.Text.WordChar
import Wireframe.Value.Decode

/-!
The attributes of a tag. An attribute is a name, alone or with a value after `=`. A value stands
between quotes or braces, or it runs up to the next blank. Braces hold JSON, or else text that is
kept as it is. What is no attribute is skipped, and a value that is not closed ends the scan.
-/
namespace Wireframe

/-- An attribute, and where it stands in the scanned text. -/
structure Attribute where
  key : String
  value : Value
  start : Nat
  stop : Nat
deriving Repr

namespace Attribute

def isNameStart (c : Char) : Bool :=
  c.isAlpha || c == '_'

def isNamePart (c : Char) : Bool :=
  isWordChar c || c == '-'

/-- Where a reader stands within a braced value. -/
inductive BraceState where
  | plain
  | quoted (quote : Char)
  | escaped (quote : Char)
deriving DecidableEq, Repr

/-- The text of a braced value after its opening brace, without the closing brace, and what follows
that. Braces between quotes do not count, and `depth` braces are open. -/
def bracedText? : BraceState → Nat → Text → Option (Text × Text)
  | _, _, [] => none
  | state, depth, c :: rest =>
    let goOn (state : BraceState) (depth : Nat) : Option (Text × Text) :=
      (bracedText? state depth rest).map fun (inner, rest) => (c :: inner, rest)
    match state with
    | .escaped quote => goOn (.quoted quote) depth
    | .quoted quote =>
      if c = '\\' then goOn (.escaped quote) depth
      else if c = quote then goOn .plain depth
      else goOn (.quoted quote) depth
    | .plain =>
      if c = '"' || c = '\'' then goOn (.quoted c) depth
      else if c = '\x7b' then goOn .plain (depth + 1)
      else if c = '\x7d' then (if depth ≤ 1 then some ([], rest) else goOn .plain (depth - 1))
      else goOn .plain depth

def bracedValue (inner : Text) : Value :=
  (Value.decode? inner).getD (.text (String.ofList inner))

/-- The value of an attribute after its name, its length, and what follows. `none` stands for a
value that is not closed. -/
def value? : Text → Option (Value × Nat × Text)
  | '=' :: [] => some (.text "", 1, [])
  | '=' :: c :: rest =>
    if c = '"' || c = '\'' then
      match rest.dropWhile (· ≠ c) with
      | [] => none
      | _ :: after =>
        let inner := rest.takeWhile (· ≠ c)
        some (.text (String.ofList inner), inner.length + 3, after)
    else if c = '\x7b' then
      (bracedText? .plain 1 rest).map fun (inner, after) =>
        (bracedValue inner, inner.length + 3, after)
    else
      let word := (c :: rest).takeWhile fun c => !isBlank c
      some (.text (String.ofList word), word.length + 1,
        (c :: rest).dropWhile fun c => !isBlank c)
  | rest => some (.boolean true, 0, rest)

/-- The attributes of a text that starts at a position. The text of a step is shorter than the one
before, so that its length bounds the number of steps. -/
def scanFrom : Nat → Nat → Text → List Attribute
  | 0, _, _ => []
  | _, _, [] => []
  | fuel + 1, position, c :: rest =>
    if isNameStart c then
      let name := c :: rest.takeWhile isNamePart
      match value? (rest.dropWhile isNamePart) with
      | none => []
      | some (value, length, after) =>
        let stop := position + name.length + length
        ⟨String.ofList name, value, position, stop⟩ :: scanFrom fuel stop after
    else scanFrom fuel (position + 1) rest

def scan (text : Text) : List Attribute :=
  scanFrom text.length 0 text

def slice (text : Text) (found : Attribute) : Text :=
  (text.drop found.start).take (found.stop - found.start)

/-- The props that a text of attributes gives. The last value of a repeated key counts. -/
def props (text : Text) : Props :=
  Props.ofEntries ((scan text).map fun found => (found.key, found.value))

end Attribute
end Wireframe
