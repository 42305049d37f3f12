import Wireframe.Page.Attribute
import Wireframe.Page.Locate
import Wireframe.Page.Operation

/-!
Applying operations to page source. Each operation changes only the text of its target and keeps
all other text. An operation whose target is not found changes nothing.
-/
namespace Wireframe

inductive PatchError where
  | noBlock
  | noBlockStart
  | noBlockEnd
  | emptyResult
deriving DecidableEq, Repr

namespace PatchError

def message : PatchError → String
  | .noBlock => "Render block not found in previous code"
  | .noBlockStart => "Fragment opener not found"
  | .noBlockEnd => "Fragment closer not found"
  | .emptyResult => "Patching produced empty code"

end PatchError

namespace Page

/-- Puts lines right after the start of the rendered block. -/
def insertAtStart (code lines : Text) : Except PatchError Text :=
  match findBlockStart? code with
  | some cut => .ok (cut.before ++ cut.target ++ lines ++ cut.after)
  | none => .error .noBlockStart

/-- Puts lines right before the end of the rendered block. -/
def insertAtEnd (code lines : Text) : Except PatchError Text :=
  match findBlockEnd? code with
  | some cut => .ok (cut.before ++ lines ++ cut.target ++ cut.after)
  | none => .error .noBlockEnd

/-- Puts lines after the line on which the first navbar ends, or else at the start. -/
def insertAfterNavbar (code lines : Text) : Except PatchError Text :=
  match findKind? .navbar code with
  | some cut =>
    .ok (cut.before ++ cut.target ++ lineEnd cut.after ++ lines ++ dropLineEnd cut.after)
  | none => insertAtStart code lines

def insert (code : Text) (component : Component) (position : Position) : Except PatchError Text :=
  let lines := renderComponent rootIndent component
  match position with
  | .start => insertAtStart code lines
  | .afterNavbar => insertAfterNavbar code lines
  | .finish => insertAtEnd code lines

/-- Removes a component, with the blanks around it on its lines. -/
def delete (code : Text) (target : Component) : Text :=
  match locate? code target with
  | some cut => dropIndent cut.before ++ dropLineEnd cut.after
  | none => code

/-- The texts of attributes by their keys. Of a repeated key the first text is kept. -/
abbrev AttributeTexts := List (String × Text)

/-- Keeps a text under a key that has none. -/
def keepFirst (texts : AttributeTexts) (entry : String × Text) : AttributeTexts :=
  if texts.any fun known => known.1 = entry.1 then texts else texts ++ [entry]

def putText (key : String) (text : Text) : AttributeTexts → AttributeTexts
  | [] => [(key, text)]
  | (k, t) :: rest => if k = key then (k, text) :: rest else (k, t) :: putText key text rest

/-- The attributes after a change. Setting a prop that has no attribute removes it. -/
def changeText (texts : AttributeTexts) (change : Change) : AttributeTexts :=
  let rendered :=
    match change with
    | .set key value => attribute? key value
    | .remove _ => none
  match rendered with
  | some text => putText change.key text texts
  | none => texts.filter fun known => known.1 ≠ change.key

/-- The texts of the attributes of a tag. -/
def attributeTexts (attributes : Text) : AttributeTexts :=
  ((Attribute.scan attributes).map fun found =>
    (found.key, Attribute.slice attributes found)).foldl keepFirst []

def changeOpening (tag : Opening) (changes : List Change) : Text :=
  let texts := changes.foldl changeText (attributeTexts tag.attributes)
  '<' :: tag.name ++ (texts.flatMap fun entry => ' ' :: entry.2) ++ ['>']

def updateProps (code : Text) (target : Component) (changes : List Change) : Text :=
  match locate? code target with
  | none => code
  | some cut =>
    match opening? false (cut.target ++ cut.after) with
    | none => code
    | some tag => cut.before ++ changeOpening tag changes ++ tag.rest

/-- Puts new children between the tags of a component. -/
def updateChildren (code : Text) (target : Component) (children : Forest) : Text :=
  match locate? code target with
  | none => code
  | some cut =>
    let closing := closingTag target.kind.tag
    match opening? false (cut.target ++ cut.after), closing.isSuffixOf cut.target with
    | some tag, true =>
      let indent : Int := column cut.before
      cut.before ++ tag.text ++ '\n' :: renderForest (indent + indentStep) children
        ++ margin indent ++ closing ++ cut.after
    | _, _ => code

/-- Puts a component in the place of another, at the same column. -/
def replace (code : Text) (target replacement : Component) : Text :=
  match locate? code target with
  | none => code
  | some cut =>
    dropIndent cut.before ++ renderComponent (column cut.before) replacement
      ++ dropLineEnd cut.after

def apply (code : Text) : Operation → Except PatchError Text
  | .add component position => insert code component position
  | .remove target => .ok (delete code target)
  | .updateProps target changes => .ok (updateProps code target changes)
  | .updateChildren target children => .ok (updateChildren code target children)
  | .move target position =>
    if (locate? code target).isSome then insert (delete code target) target position
    else .ok code
  | .replace target replacement => .ok (replace code target replacement)

def applyEach : List Operation → Text → Except PatchError Text
  | [], code => .ok code
  | operation :: rest, code =>
    match apply code operation with
    | .ok code => applyEach rest code
    | .error error => .error error

/-- Applies operations to source that has a rendered block. -/
def applyAll (code : Text) (operations : List Operation) : Except PatchError Text :=
  if (findBlockStart? code).isSome && (findBlockEnd? code).isSome then applyEach operations code
  else .error .noBlock

end Page
end Wireframe
