import Wireframe.Component.Basic
import Wireframe.Page.Locate

/-!
The safety gate for page source: only tags of the component vocabulary, no inline styles, no
dangerous calls, and exactly one import from the component module.
-/
namespace Wireframe

/-- What page source does against the safety rules. -/
inductive SafetyFault where
  | disallowedTag (name : Text)
  | inlineStyle
  | dangerous (words : String)
  | imports (path : String) (count : Nat)
deriving Repr

namespace SafetyFault

def message : SafetyFault → String
  | .disallowedTag name => "Disallowed tag: " ++ String.ofList name
  | .inlineStyle => "Inline style attribute"
  | .dangerous words => "Dangerous pattern: " ++ words
  | .imports path count =>
    "Expected one import from '" ++ path ++ "', found " ++ toString count

end SafetyFault

namespace Safety

def isTagNamePart (c : Char) : Bool :=
  isWordChar c || c == '.' || c == ':' || c == '-'

/-- The name after the `<` of an opening or a closing tag, if it starts with a Latin letter. -/
def tagName? (text : Text) : Option Text :=
  let text := (Text.after? ['/'] text).getD text
  match text with
  | [] => none
  | c :: rest => if c.isAlpha then some (c :: rest.takeWhile isTagNamePart) else none

def tagNames : Text → List Text
  | [] => []
  | c :: rest =>
    if c = '<' then
      match tagName? rest with
      | some name => name :: tagNames rest
      | none => tagNames rest
    else tagNames rest

/-- The first text is not after the second in the order of code points. -/
def notAfter : Text → Text → Bool
  | [], _ => true
  | _ :: _, [] => false
  | c :: text, d :: other => if c = d then notAfter text other else c < d

/-- The tag names that are no kinds, each once, in the order of code points. -/
def disallowedTags (code : Text) : List Text :=
  ((tagNames code).filter fun name => (Kind.ofTag? name).isNone).eraseDups.mergeSort notAfter

/-- The text starts with a style attribute up to its `=`. -/
def startsStyle (text : Text) : Bool :=
  match Text.after? "style".toList text with
  | none => false
  | some rest =>
    [rest, (Text.after? ['s'] rest).getD rest].any fun rest =>
      (rest.dropWhile isBlank).head? == some '='

/-- A style attribute occurs as a word of its own. The flag says whether a word goes on. -/
def hasStyle : Bool → Text → Bool
  | _, [] => false
  | inWord, c :: rest => (!inWord && startsStyle (c :: rest)) || hasStyle (isWordChar c) rest

def dangerousWords : List String :=
  ["dangerouslySetInnerHTML", "innerHTML", "outerHTML", "eval(", "Function(", "document.write",
   "javascript:"]

/-- What follows an import from a module, at the start of a line, if nothing else is on its last
line. The imported names may stand on several lines. -/
def afterImport? (path : String) (text : Text) : Option Text := do
  let rest ← Text.after? "import \x7b".toList text
  let rest ← Text.after? ("\x7d from '".toList ++ path.toList ++ "';".toList)
    (rest.dropWhile (· ≠ '\x7d'))
  if rest.head?.all (· == '\n') then some rest else none

/-- The number of imports from a module, from the left and without overlap. The flag says whether
the text starts a line. Each step takes at least one character, so that the length of the text
bounds the number of steps. -/
def countImports (path : String) : Nat → Bool → Text → Nat
  | 0, _, _ => 0
  | _, _, [] => 0
  | fuel + 1, startsLine, c :: rest =>
    match if startsLine then afterImport? path (c :: rest) else none with
    | some after => 1 + countImports path fuel false after
    | none => countImports path fuel (c == '\n') rest

def faults (importPath : String) (code : Text) : List SafetyFault :=
  let imports := countImports importPath code.length true code
  (disallowedTags code).map .disallowedTag
    ++ (if hasStyle false code then [.inlineStyle] else [])
    ++ (dangerousWords.filter fun words => Text.occurs words.toList code).map .dangerous
    ++ (if imports = 1 then [] else [.imports importPath imports])

def message (faults : List SafetyFault) : String :=
  "Unsafe output: " ++ "; ".intercalate (faults.map SafetyFault.message)

/-- The source itself if the gate finds no fault with it, or else all its faults. -/
def check (importPath : String) (code : Text) : Except (List SafetyFault) Text :=
  match faults importPath code with
  | [] => .ok code
  | found => .error found

/-- The gate lets source pass as it is. -/
theorem check_eq_ok_iff {importPath : String} {code passed : Text} :
    check importPath code = .ok passed ↔ faults importPath code = [] ∧ passed = code := by
  rw [check]
  cases faults importPath code <;> simp [eq_comm]

end Safety
end Wireframe
