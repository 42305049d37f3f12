import Wireframe.Value.Basic
import Wireframe.Number.Written
import Wireframe.Text.Quoted

/-!
The display of a value in a message. A text on its own is shown bare, inside a list or an object it
is shown between quotes.
-/
namespace Wireframe
namespace Value

mutual

def literal : Value → Text
  | .null => "None".toList
  | .boolean true => "True".toList
  | .boolean false => "False".toList
  | .integer n => writeInteger n
  | .real x => writeReal .plain x
  | .text s => Text.quoted s.toList
  | .list items => '[' :: literalItems items ++ [']']
  | .object entries => '\x7b' :: literalEntries entries ++ ['\x7d']
termination_by structural v => v

def literalItems : List Value → Text
  | [] => []
  | [v] => literal v
  | v :: rest => literal v ++ ',' :: ' ' :: literalItems rest
termination_by structural vs => vs

def literalEntries : List (String × Value) → Text
  | [] => []
  | [(key, v)] => Text.quoted key.toList ++ ':' :: ' ' :: literal v
  | (key, v) :: rest =>
    Text.quoted key.toList ++ ':' :: ' ' :: literal v ++ ',' :: ' ' :: literalEntries rest
termination_by structural es => es

end

def display : Value → String
  | .text s => s
  | v => String.ofList v.literal

end Value
end Wireframe
