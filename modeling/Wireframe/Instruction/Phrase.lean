import Wireframe.Instruction.Basic

/-!
Phrases that introduce a quoted value. A phrase is a row of pieces before a value between quotes,
and it may ask for a word somewhere after the value. Words are compared without regard to case and
the value is taken as typed. Either quote character may open a value and either may close it.
-/
namespace Wireframe

inductive Piece where
  /-- One of some words, the earlier before the later. The empty word makes a piece optional. -/
  | words (choices : List String)
  /-- Any text, as little of it as possible. -/
  | gap
deriving Repr

/-- A phrase: the pieces before the value, and a word that has to follow the value. -/
structure Phrase where
  lead : List Piece
  follower : Option String
deriving Repr

def isQuote (c : Char) : Bool :=
  c == '"' || c == '\''

/-- A value between quotes at the start of a text, and the rest. The value is not empty and holds no
quote. -/
def quotedValue? : Text → Option (Text × Text)
  | [] => none
  | c :: text =>
    if isQuote c then
      let value := text.takeWhile fun c => !isQuote c
      match text.dropWhile fun c => !isQuote c with
      | [] => none
      | _ :: rest => if value.isEmpty then none else some (value, rest)
    else none

/-- All values between quotes, from the left and without overlap. `skip` characters belong to a
value that was already found. -/
def quotedValuesFrom : Nat → Text → List Text
  | _, [] => []
  | 0, c :: text =>
    match quotedValue? (c :: text) with
    | some (value, _) => value :: quotedValuesFrom (value.length + 1) text
    | none => quotedValuesFrom 0 text
  | skip + 1, _ :: text => quotedValuesFrom skip text

def quotedValues (text : Text) : List Text :=
  quotedValuesFrom 0 text

namespace Phrase

/-- A word occurs in a text, letters being compared without regard to case. -/
def occursCaseless (word : String) (text : Text) : Bool :=
  (Text.firstSuffix? (Text.afterCaseless? word.toList) text).isSome

/-- The value at the end of some pieces that match from the start of the text. -/
def valueAfter? (follower : Option String) : List Piece → Text → Option Text
  | [], text =>
    match quotedValue? text with
    | some (value, rest) =>
      if follower.all fun word => occursCaseless word rest then some value else none
    | none => none
  | .words choices :: pieces, text =>
    choices.findSome? fun word =>
      (Text.afterCaseless? word.toList text).bind (valueAfter? follower pieces)
  | .gap :: pieces, text => Text.firstSuffix? (valueAfter? follower pieces) text

/-- The value of the first place in a text where the phrase matches. -/
def value? (phrase : Phrase) (text : Text) : Option Text :=
  Text.firstSuffix? (valueAfter? phrase.follower phrase.lead) text

/-- The value of the first phrase that matches somewhere. -/
def firstValue? (phrases : List Phrase) (text : Text) : Option String :=
  (phrases.findSome? fun phrase => phrase.value? text).map String.ofList

end Phrase

end Wireframe
