import Wireframe.Page.Tag

/-!
Finding components and landmarks in page source.
-/
namespace Wireframe
namespace Page

/-- Recognises blanks, then some words. The blanks belong to the part recognised. -/
def afterBlanks (isGap : Char → Bool) (words : Text) : Reader := fun text =>
  (Text.after? words (text.dropWhile isGap)).map fun rest => (text.takeWhile isGap ++ words, rest)

def andThen (first second : Reader) : Reader := fun text =>
  match first text with
  | none => none
  | some (start, rest) => (second rest).map fun (more, rest) => (start ++ more, rest)

def isIndent (c : Char) : Bool :=
  c == ' ' || c == '\t'

def blockStart : Reader :=
  andThen (Text.literal "return (".toList) (afterBlanks isBlank "<>\n".toList)

/-- Recognises the end of the rendered block, from the start of its first line. -/
def blockEnd : Reader :=
  andThen (afterBlanks isIndent "</>".toList)
    (andThen (afterBlanks isIndent "\n".toList) (afterBlanks isIndent ");".toList))

def findBlockStart? (code : Text) : Option Cut :=
  Text.find? blockStart code

def findBlockEnd? (code : Text) : Option Cut :=
  Text.findAtLineStart? blockEnd true code

def findKind? (kind : Kind) (code : Text) : Option Cut :=
  Text.find? (kindPair kind) code

/-- The opening tag of the text that a component was recovered from. It is empty if there is
none. -/
def recordedOpening (source : Text) : Text :=
  match opening? false source with
  | some tag => tag.text
  | none => []

/-- The pair of tags of a kind that starts where some opening tag first occurs. -/
def findOpening? (kind : Kind) (tag code : Text) : Option Cut :=
  if tag.isEmpty then none
  else
    match Text.cutAt? tag code with
    | none => none
    | some cut =>
      (kindPair kind (cut.target ++ cut.after)).map fun (target, rest) => ⟨cut.before, target, rest⟩

/-- The place of a component: that of its recorded text, else that of its recorded opening tag,
since its content may have changed, else the first pair of its kind. -/
def locate? (code : Text) (component : Component) : Option Cut :=
  let source := component.source.getD []
  if source.isEmpty then findKind? component.kind code
  else
    ((Text.cutAt? source code).or
      (findOpening? component.kind (recordedOpening source) code)).or
      (findKind? component.kind code)

/-- The text without its last line, if that is blank. -/
def dropIndent (text : Text) : Text :=
  if Text.allBlank (Text.lastLine text) then Text.dropLastLine text else text

/-- The rest of the first line, if that is blank. -/
def lineEnd (text : Text) : Text :=
  if Text.allBlank (Text.firstLine text) then Text.firstLine text else []

/-- The text without the rest of its first line, if that is blank. -/
def dropLineEnd (text : Text) : Text :=
  if Text.allBlank (Text.firstLine text) then Text.dropFirstLine text else text

/-- What is dropped at the end of a line and what is left join to the text. -/
theorem lineEnd_append_dropLineEnd (text : Text) : lineEnd text ++ dropLineEnd text = text := by
  unfold lineEnd dropLineEnd
  split
  · exact Text.firstLine_append_dropFirstLine text
  · rfl

/-- A span of positions widened to whole lines, at either end where nothing else shares the line. -/
def lineSpan (code : Text) (start stop : Nat) : Nat × Nat :=
  let before := code.take start
  (if Text.allBlank (Text.lastLine before) then (Text.dropLastLine before).length else start,
    if Text.allBlank (Text.firstLine (code.drop stop)) then
      code.length - (Text.dropFirstLine (code.drop stop)).length
    else stop)

/-- The place of a position within its line. -/
def column (before : Text) : Nat :=
  (Text.lastLine before).length

end Page
end Wireframe
