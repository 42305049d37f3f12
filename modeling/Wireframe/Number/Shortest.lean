import Wireframe.Number.Binary64

/-!
The shortest decimal that reads back as a given number. For one digit, two digits and so on, the
two neighbours of the number on that decimal grid are tried. The first grid with a neighbour that
reads back wins, and on it the neighbour that is nearer, or the even one of two equally near.
-/
namespace Wireframe

structure Decimal where
  coefficient : Nat
  exponent : Int
deriving DecidableEq, Repr

namespace Decimal

/-- Moves the zeros at the end of the coefficient into the exponent. -/
def normalizeWithin : Nat → Decimal → Decimal
  | 0, d => d
  | fuel + 1, d =>
    if d.coefficient ≠ 0 ∧ d.coefficient % 10 = 0 then
      normalizeWithin fuel ⟨d.coefficient / 10, d.exponent + 1⟩
    else d

/-- The same decimal with no zero at the end of its coefficient. -/
def normalize (d : Decimal) : Decimal :=
  normalizeWithin (Nat.toDigits 10 d.coefficient).length d

def digits (d : Decimal) : List Char :=
  Nat.toDigits 10 d.coefficient

/-- The power of ten of the first digit. -/
def leadingPower (d : Decimal) : Int :=
  d.exponent + d.digits.length - 1

end Decimal

namespace Binary64

/-- The power of ten of the first digit of a positive magnitude. No magnitude has more than 400
zeros behind the point. -/
def leadingPower (x : Binary64) : Int :=
  (Nat.toDigits 10 (x.units * Nat.pow 10 400 / unitsPerOne)).length - 401

/-- The magnitude divided by `10 ^ power`, as a numerator and a denominator. -/
def scaledBy (x : Binary64) (power : Int) : Nat × Nat :=
  if 0 ≤ power then (x.units, unitsPerOne * Nat.pow 10 power.toNat)
  else (x.units * Nat.pow 10 (-power).toNat, unitsPerOne)

def readsBack (x : Binary64) (d : Decimal) : Bool :=
  ofDecimal? x.negative d.coefficient d.exponent == some x

/-- The better neighbour of the number on the grid of multiples of `10 ^ power`, if one reads
back. -/
def onGrid? (x : Binary64) (power : Int) : Option Decimal :=
  let (num, den) := x.scaledBy power
  let lower : Decimal := ⟨num / den, power⟩
  let upper : Decimal := ⟨num / den + 1, power⟩
  let nearest : Decimal := ⟨roundHalfEven num den, power⟩
  if x.readsBack nearest then some nearest
  else if x.readsBack lower then some lower
  else if x.readsBack upper then some upper
  else none

/-- The shortest decimal of a number that reads back, without its sign. Seventeen digits always
suffice. -/
def shortest (x : Binary64) : Decimal :=
  if x.units = 0 then ⟨0, 0⟩
  else
    let lead := x.leadingPower
    let found := (List.range 17).findSome? fun count : Nat => x.onGrid? (lead - count)
    (found.getD ⟨0, 0⟩).normalize

end Binary64

end Wireframe
