import Wireframe.Value.Basic

/-!
Faults of data that does not have the shape it should have. A fault stands at a place, which is the
row of field names and list positions that leads to it.
-/
namespace Wireframe

inductive ShapeFault where
  | missing
  | unexpected
  | notText
  | notList
  | notObject
  | notBoolean
  | notInteger
  | integerTooLong
  | notPositive
  | belowOne
  | notOneOf (choices : List String)
  | rejected (reason : String)
deriving Repr

namespace ShapeFault

/-- Choices between quotes, with a word before the last one. -/
def listed : List String → String
  | [] => ""
  | [a] => "'" ++ a ++ "'"
  | [a, b] => "'" ++ a ++ "' or '" ++ b ++ "'"
  | a :: rest => "'" ++ a ++ "', " ++ listed rest

def message : ShapeFault → String
  | .missing => "Field required"
  | .unexpected => "Extra inputs are not permitted"
  | .notText => "Input should be a valid string"
  | .notList => "Input should be a valid list"
  | .notObject => "Input should be a valid dictionary"
  | .notBoolean => "Input should be a valid boolean, unable to interpret input"
  | .notInteger => "Input should be a valid integer, unable to parse string as an integer"
  | .integerTooLong => "Unable to parse input string as an integer, exceeded maximum size"
  | .notPositive => "Input should be greater than 0"
  | .belowOne => "Input should be greater than or equal to 1"
  | .notOneOf choices => "Input should be " ++ listed choices
  | .rejected reason => "Value error, " ++ reason

end ShapeFault

structure ShapeIssue where
  place : List String
  fault : ShapeFault
deriving Repr

namespace ShapeIssue

def dotted (issue : ShapeIssue) : String :=
  ".".intercalate issue.place

/-- The issue seen from a field that holds the data. -/
def under (field : String) (issue : ShapeIssue) : ShapeIssue :=
  { issue with place := field :: issue.place }

end ShapeIssue

end Wireframe
