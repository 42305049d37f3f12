import Wireframe.Value.Basic

/-!
Sameness of values. Numbers of every kind are compared by what they count, a truth value counting
one or zero, and the order of the entries of an object does not matter.
-/
namespace Wireframe
namespace Value

/-- What a numeric value counts, in units of two to the power of minus 1074. -/
def count? : Value → Option Int
  | .boolean b => some (if b then Binary64.unitsPerOne else 0)
  | .integer n => some (n * Binary64.unitsPerOne)
  | .real x => some x.signedUnits
  | _ => none

mutual

/-- The two values are the same, up to the kind of their numbers and the order of their entries. -/
def same : Value → Value → Bool
  | .null, .null => true
  | .text s, .text t => s == t
  | .list xs, .list ys => sameItems xs ys
  | .object es, .object fs => es.length == fs.length && sameEntries es fs
  | .boolean b, w => sameCount (count? (.boolean b)) w
  | .integer n, w => sameCount (count? (.integer n)) w
  | .real x, w => sameCount (count? (.real x)) w
  | _, _ => false
termination_by structural v => v
where
  sameCount (count : Option Int) (w : Value) : Bool :=
    count == w.count?

def sameItems : List Value → List Value → Bool
  | [], [] => true
  | v :: vs, w :: ws => same v w && sameItems vs ws
  | _, _ => false
termination_by structural vs => vs

/-- Every entry has an entry of the same key with the same value on the other side. -/
def sameEntries : List (String × Value) → Props → Bool
  | [], _ => true
  | (key, v) :: rest, other =>
    (match other.get? key with
      | some w => same v w
      | none => false) && sameEntries rest other
termination_by structural es => es

end

end Value
end Wireframe
