import Wireframe.Page.Render
import Wireframe.Text.WordChar

/-!
Tags in page source. The attributes of an opening tag end at the first `>` that does not stand
inside a quoted or a braced value. Braces nest up to four deep, and JSON strings inside them may
hold any characters.
-/
namespace Wireframe
namespace Page

/-- The deepest nesting of braces in an attribute that a reader follows. -/
def braceDepth : Nat := 4

/-- Where a reader stands within the attributes of a tag. -/
inductive TagState where
  | between
  | quoted (quote : Char)
  | braced (depth : Nat)
  | string (depth : Nat)
  | escape (depth : Nat)
deriving DecidableEq, Repr

/-- The place of a reader after one more character, unless that cannot be read. An escaped line
break is read only across lines. -/
def TagState.step? (acrossLines : Bool) (state : TagState) (c : Char) : Option TagState :=
  match state with
  | .between =>
    if c = '"' || c = '\'' then some (.quoted c)
    else if c = '\x7b' then some (.braced 1)
    else some .between
  | .quoted quote => if c = quote then some .between else some (.quoted quote)
  | .braced depth =>
    if c = '\x7b' then (if depth < braceDepth then some (.braced (depth + 1)) else none)
    else if c = '\x7d' then (if depth ≤ 1 then some .between else some (.braced (depth - 1)))
    else if c = '"' then some (.string depth)
    else some (.braced depth)
  | .string depth =>
    if c = '"' then some (.braced depth)
    else if c = '\\' then some (.escape depth)
    else some (.string depth)
  | .escape depth => if c = '\n' && !acrossLines then none else some (.string depth)

/-- The attributes of an opening tag and what follows its `>`. -/
def splitAttributes? (acrossLines : Bool) : TagState → Text → Option (Text × Text)
  | _, [] => none
  | state, c :: rest =>
    if state = .between ∧ c = '>' then some ([], rest)
    else
      match state.step? acrossLines c with
      | some state =>
        (splitAttributes? acrossLines state rest).map fun (attributes, rest) =>
          (c :: attributes, rest)
      | none => none

/-- An opening tag, and what follows it. -/
structure Opening where
  name : Text
  attributes : Text
  rest : Text
deriving Repr

def Opening.text (tag : Opening) : Text :=
  '<' :: tag.name ++ tag.attributes ++ ['>']

/-- The opening tag at the start of a text. Its name is the longest run of word characters. -/
def opening? (acrossLines : Bool) : Text → Option Opening
  | '<' :: text =>
    let name := text.takeWhile isWordChar
    if name.isEmpty then none
    else
      (splitAttributes? acrossLines .between (text.dropWhile isWordChar)).map
        fun (attributes, rest) => ⟨name, attributes, rest⟩
  | _ => none

structure Pair where
  name : Text
  attributes : Text
  inner : Text
  rest : Text
deriving Repr

def Pair.text (pair : Pair) : Text :=
  '<' :: pair.name ++ pair.attributes ++ '>' :: pair.inner ++ closingTag pair.name

/-- The pair that an opening tag starts when its name is cut after some characters. The rest of the
name then counts as attributes. The pair ends at the first closing tag of the name. -/
def pairNamed? (tag : Opening) (length : Nat) : Option Pair :=
  let name := tag.name.take length
  (Text.cutAt? (closingTag name) tag.rest).map fun cut =>
    ⟨name, tag.name.drop length ++ tag.attributes, cut.before, cut.after⟩

/-- The first of some lengths, from a greatest one down to one, for which there is an answer. -/
def longest? {α : Type} (answer : Nat → Option α) : Nat → Option α
  | 0 => none
  | length + 1 =>
    match answer (length + 1) with
    | some found => some found
    | none => longest? answer length

/-- The pair of tags at the start of a text. A name that is closed nowhere is shortened until it
is. -/
def pair? (text : Text) : Option Pair :=
  match opening? true text with
  | some tag => longest? (pairNamed? tag) tag.name.length
  | none => none

/-- The text starts with a blank or with `>`. -/
def endsTagName : Text → Bool
  | [] => false
  | c :: _ => isBlank c || c == '>'

/-- Recognises a pair of tags of a kind, up to the first closing tag of the kind. -/
def kindPair (kind : Kind) : Reader := fun text =>
  match Text.after? ('<' :: kind.tag) text with
  | none => none
  | some rest =>
    if endsTagName rest then
      match splitAttributes? true .between rest with
      | none => none
      | some (attributes, rest) =>
        (Text.cutAt? (closingTag kind.tag) rest).map fun cut =>
          ('<' :: kind.tag ++ attributes ++ '>' :: cut.before ++ cut.target, cut.after)
    else none

end Page
end Wireframe
