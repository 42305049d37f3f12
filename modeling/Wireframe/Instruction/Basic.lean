import Wireframe.Text.Caseless

/-!
Instructions in free text. What an instruction asks for is decided by the keywords that occur in it,
anywhere and in any case.
-/
namespace Wireframe

abbrev Instruction := Text

namespace Instruction

/-- A word occurs in the instruction, in any case. -/
def mentions (word : String) (instruction : Instruction) : Bool :=
  Text.occurs word.toList (Text.lower instruction)

/-- One of the words occurs in the instruction. -/
def mentionsAny (words : List String) (instruction : Instruction) : Bool :=
  words.any fun word => mentions word instruction

def place? (word : String) (instruction : Instruction) : Option Nat :=
  (Text.cutAt? word.toList (Text.lower instruction)).map Cut.start

end Instruction

/-- What an instruction does to an existing plan. -/
inductive Verb where
  | add
  | remove
  | modify
  | move
  | replace
  | rename
deriving DecidableEq, Repr

namespace Verb

/-- The keywords of each verb. An earlier verb takes precedence over a later one. -/
def keywords : List (Verb × List String) :=
  [(.add, ["add"]), (.remove, ["remove", "delete"]), (.modify, ["change", "modify", "update"]),
   (.move, ["move"]), (.replace, ["replace"]), (.rename, ["rename", "label"])]

def named? (text : Text) : Option Verb :=
  (keywords.find? fun entry => entry.2.any fun word => Text.occurs word.toList text).map Prod.fst

def of? (instruction : Instruction) : Option Verb :=
  named? (Text.lower instruction)

def name : Verb → String
  | .add => "add"
  | .remove => "remove"
  | .modify => "modify"
  | .move => "move"
  | .replace => "replace"
  | .rename => "rename"

end Verb

end Wireframe
