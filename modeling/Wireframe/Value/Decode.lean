import Wireframe.Value.Basic
import Wireframe.Text.Blank

/-!
Reading JSON strictly. Strings hold no raw control characters and no lone surrogates, numbers have
no leading zeros, and nothing stands after the value. A number with a point or an exponent is a
floating-point number, and one that is too large for it is refused.

Readers answer the value read and the rest of the text. A bound on the number of steps makes them
total; the length of the text is always enough.
-/
namespace Wireframe
namespace Value

/-- The white space that may stand between the parts of a JSON text. -/
def isPadding (c : Char) : Bool :=
  c = ' ' || c = '\t' || c = '\n' || c = '\r'

def skipPadding (text : Text) : Text :=
  text.dropWhile isPadding

def hexDigit? (c : Char) : Option Nat :=
  if '0' ≤ c ∧ c ≤ '9' then some (c.toNat - '0'.toNat)
  else if 'a' ≤ c ∧ c ≤ 'f' then some (c.toNat - 'a'.toNat + 10)
  else if 'A' ≤ c ∧ c ≤ 'F' then some (c.toNat - 'A'.toNat + 10)
  else none

def hexUnit? : Text → Option (Nat × Text)
  | a :: b :: c :: d :: rest => do
    let a ← hexDigit? a
    let b ← hexDigit? b
    let c ← hexDigit? c
    let d ← hexDigit? d
    some (((a * 16 + b) * 16 + c) * 16 + d, rest)
  | _ => none

/-- The character of a numeric escape, after its letter. A high surrogate needs a low one after
it. -/
def numericEscape? (text : Text) : Option (Char × Text) := do
  let (high, rest) ← hexUnit? text
  if 0xd800 ≤ high ∧ high < 0xdc00 then
    let rest ← Text.after? ['\\', 'u'] rest
    let (low, rest) ← hexUnit? rest
    if 0xdc00 ≤ low ∧ low < 0xe000 then
      some (Char.ofNat (0x10000 + (high - 0xd800) * 0x400 + (low - 0xdc00)), rest)
    else none
  else if 0xdc00 ≤ high ∧ high < 0xe000 then none
  else some (Char.ofNat high, rest)

def escape? : Text → Option (Char × Text)
  | [] => none
  | c :: rest =>
    if c = '"' || c = '\\' || c = '/' then some (c, rest)
    else if c = 'b' then some ('\u0008', rest)
    else if c = 'f' then some ('\u000c', rest)
    else if c = 'n' then some ('\n', rest)
    else if c = 'r' then some ('\r', rest)
    else if c = 't' then some ('\t', rest)
    else if c = 'u' then numericEscape? rest
    else none

def string? : Nat → Text → Option (Text × Text)
  | 0, _ => none
  | _, [] => none
  | fuel + 1, c :: rest =>
    if c = '"' then some ([], rest)
    else if c = '\\' then
      match escape? rest with
      | some (c, rest) => (string? fuel rest).map fun (s, rest) => (c :: s, rest)
      | none => none
    else if c.toNat < 0x20 then none
    else (string? fuel rest).map fun (s, rest) => (c :: s, rest)

def ofDigits (digits : Text) : Nat :=
  digits.foldl (fun n c => n * 10 + (c.toNat - '0'.toNat)) 0

/-- The longest run of decimal digits at the start, and the rest. -/
def digitRun (text : Text) : Text × Text :=
  (text.takeWhile Char.isDigit, text.dropWhile Char.isDigit)

/-- The digits of a whole part: a single zero, or digits that do not start with one. -/
def wholePart? : Text → Option (Text × Text)
  | [] => none
  | c :: rest =>
    if c = '0' then some (['0'], rest)
    else if c.isDigit then some (digitRun (c :: rest))
    else none

/-- The digits behind a point. Without a point there are none. -/
def fractionPart? : Text → Option (Text × Text)
  | '.' :: rest =>
    let (digits, rest) := digitRun rest
    if digits.isEmpty then none else some (digits, rest)
  | input => some ([], input)

def exponentSign : Text → Int × Text
  | '-' :: rest => (-1, rest)
  | '+' :: rest => (1, rest)
  | input => (1, input)

def exponentPart? : Text → Option (Option Int × Text)
  | [] => some (none, [])
  | c :: rest =>
    if c = 'e' || c = 'E' then
      let (sign, rest) := exponentSign rest
      let (digits, rest) := digitRun rest
      if digits.isEmpty then none else some (some (sign * ofDigits digits), rest)
    else some (none, c :: rest)

/-- A number without its sign. -/
def magnitude? (negative : Bool) (text : Text) : Option (Value × Text) := do
  let (whole, rest) ← wholePart? text
  let (fraction, rest) ← fractionPart? rest
  let (exponent, rest) ← exponentPart? rest
  if fraction.isEmpty && exponent.isNone then
    let n : Int := ofDigits whole
    some (.integer (if negative then -n else n), rest)
  else
    let x ← Binary64.ofDecimal? negative (ofDigits (whole ++ fraction))
      (exponent.getD 0 - fraction.length)
    some (.real x, rest)

def number? : Text → Option (Value × Text)
  | '-' :: rest => magnitude? true rest
  | input => magnitude? false input

mutual

def value? : Nat → Text → Option (Value × Text)
  | 0, _ => none
  | fuel + 1, input =>
    match skipPadding input with
    | [] => none
    | c :: rest =>
      if c = '\x7b' then
        match skipPadding rest with
        | '\x7d' :: rest => some (.object [], rest)
        | rest => (entries? fuel rest).map fun (es, rest) => (.object (Props.ofEntries es), rest)
      else if c = '[' then
        match skipPadding rest with
        | ']' :: rest => some (.list [], rest)
        | rest => (items? fuel rest).map fun (vs, rest) => (.list vs, rest)
      else if c = '"' then
        (string? rest.length rest).map fun (s, rest) => (.text (String.ofList s), rest)
      else if c = 'n' then
        (Text.after? "ull".toList rest).map fun rest => (.null, rest)
      else if c = 't' then
        (Text.after? "rue".toList rest).map fun rest => (.boolean true, rest)
      else if c = 'f' then
        (Text.after? "alse".toList rest).map fun rest => (.boolean false, rest)
      else number? (c :: rest)

def items? : Nat → Text → Option (List Value × Text)
  | 0, _ => none
  | fuel + 1, input =>
    match value? fuel input with
    | none => none
    | some (v, rest) =>
      match skipPadding rest with
      | ',' :: rest => (items? fuel rest).map fun (vs, rest) => (v :: vs, rest)
      | ']' :: rest => some ([v], rest)
      | _ => none

def entries? : Nat → Text → Option (List (String × Value) × Text)
  | 0, _ => none
  | fuel + 1, input =>
    match skipPadding input with
    | '"' :: rest =>
      match string? rest.length rest with
      | none => none
      | some (key, rest) =>
        match skipPadding rest with
        | ':' :: rest =>
          match value? fuel rest with
          | none => none
          | some (v, rest) =>
            match skipPadding rest with
            | ',' :: rest =>
              (entries? fuel rest).map fun (es, rest) => ((String.ofList key, v) :: es, rest)
            | '\x7d' :: rest => some ([(String.ofList key, v)], rest)
            | _ => none
        | _ => none
    | _ => none

end

def decode? (text : Text) : Option Value :=
  let text := text.trim
  match value? (text.length + 1) text with
  | some (v, rest) => if (skipPadding rest).isEmpty then some v else none
  | none => none

end Value
end Wireframe
