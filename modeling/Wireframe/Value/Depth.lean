import Wireframe.Value.Basic

/-!
The depth guard. A value lies at a depth, and the members of a list or an object lie one deeper.
-/
namespace Wireframe
namespace Value

/-- The deepest level at which the props of a component may hold a value. -/
def propsDepthLimit : Int := 20

mutual

/-- The depth of the first value that lies deeper than the limit, if there is one. -/
def tooDeep? (limit : Int) : Int → Value → Option Int
  | depth, v =>
    if limit < depth then some depth
    else
      match v with
      | .list items => itemTooDeep? limit (depth + 1) items
      | .object entries => entryTooDeep? limit (depth + 1) entries
      | _ => none
termination_by structural _ v => v

def itemTooDeep? (limit : Int) : Int → List Value → Option Int
  | _, [] => none
  | depth, v :: rest => (tooDeep? limit depth v).or (itemTooDeep? limit depth rest)
termination_by structural _ vs => vs

def entryTooDeep? (limit : Int) : Int → List (String × Value) → Option Int
  | _, [] => none
  | depth, (_, v) :: rest => (tooDeep? limit depth v).or (entryTooDeep? limit depth rest)
termination_by structural _ es => es

end

/-- What is said of a value at a depth beyond the limit. -/
def depthMessage (depth limit : Int) : String :=
  "JSON nesting depth " ++ toString depth ++ " exceeds maximum " ++ toString limit

end Value
end Wireframe
