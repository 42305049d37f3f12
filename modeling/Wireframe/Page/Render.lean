import Wireframe.Plan.Basic
import Wireframe.Value.Encode

/-!
Pages: the source text of a plan. Every component is written as an opening and a closing tag, each
on a line of its own, with attributes in the order of the props and two spaces of indentation for
each depth.
-/
namespace Wireframe

/-- The names that the source of a page uses: the exported component, and the module that the
components come from. -/
structure Frame where
  componentName : String
  importPath : String
deriving DecidableEq, Repr

namespace Page

/-- How much deeper a child is indented. -/
def indentStep : Int := 2

def rootIndent : Int := 6

/-- The blanks of an indentation. One below zero has none. -/
def margin (indent : Int) : Text :=
  Text.spaces indent.toNat

/-- A prop as an attribute. `true` is a bare name, `false` is left out, a text without double quotes
stands between double quotes, and any other value is JSON between braces. -/
def attribute? (key : String) (value : Value) : Option Text :=
  match value with
  | .boolean true => some key.toList
  | .boolean false => none
  | .text s =>
    if s.toList.contains '"' then some (key.toList ++ '=' :: '\x7b' :: value.encode ++ ['\x7d'])
    else some (key.toList ++ '=' :: '"' :: s.toList ++ ['"'])
  | value => some (key.toList ++ '=' :: '\x7b' :: value.encode ++ ['\x7d'])

def attributes (props : Props) : Text :=
  (props.filterMap fun entry => attribute? entry.1 entry.2).flatMap fun text => ' ' :: text

def openingTag (kind : Kind) (props : Props) : Text :=
  '<' :: kind.tag ++ attributes props ++ ['>']

def closingTag (name : Text) : Text :=
  '<' :: '/' :: name ++ ['>']

mutual

def renderComponent (indent : Int) : Component → Text
  | ⟨kind, props, children, _⟩ =>
    margin indent ++ openingTag kind props
      ++ '\n' :: renderForest (indent + indentStep) children
      ++ margin indent ++ closingTag kind.tag ++ ['\n']
termination_by structural c => c

def renderForest (indent : Int) : List Component → Text
  | [] => []
  | c :: rest => renderComponent indent c ++ renderForest indent rest
termination_by structural forest => forest

end

def header (frame : Frame) : Text :=
  "import React from 'react';\nimport \x7b ".toList
    ++ (", ".intercalate (Kind.all.map Kind.name)).toList
    ++ " \x7d from '".toList ++ frame.importPath.toList ++ "';\n".toList

def opening (frame : Frame) : Text :=
  header frame ++ "\nexport const ".toList ++ frame.componentName.toList
    ++ " = () => \x7b\n  return (\n    <>\n".toList

def closing (frame : Frame) : Text :=
  "    </>\n  );\n\x7d;\n\nexport default ".toList ++ frame.componentName.toList ++ ";\n".toList

def render (frame : Frame) (plan : Plan) : Text :=
  opening frame ++ renderForest rootIndent plan.components ++ closing frame

end Page
end Wireframe
