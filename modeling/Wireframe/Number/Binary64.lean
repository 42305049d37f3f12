/-!
Finite floating-point numbers of 64 bits, held exactly. The magnitudes are numbered in increasing
order, and each is a whole number of units, where a unit is the smallest positive magnitude,
two to the power of minus 1074. Reading a fraction rounds it to the nearest number, and a fraction
halfway between two goes to the one with an even last bit.
-/
namespace Wireframe

/-- The quotient rounded to the nearest whole number, a half to the even neighbour. -/
def roundHalfEven (num den : Nat) : Nat :=
  let floor := num / den
  let rest := num % den
  if 2 * rest < den then floor
  else if den < 2 * rest then floor + 1
  else floor + floor % 2

/-- Two to the power of 52, the number of ranks between two doublings of the step. -/
def ranksPerStep : Nat := 0x10000000000000

def rankCount : Nat := 2047 * ranksPerStep

/-- A finite number: its sign, and its place among the magnitudes. Zero has both signs. -/
structure Binary64 where
  negative : Bool
  rank : Fin rankCount
deriving DecidableEq, Repr

namespace Binary64

instance : Inhabited Binary64 := ⟨⟨false, ⟨0, by decide⟩⟩⟩

/-- The number of doublings that separate a unit from the step between neighbours at this rank. -/
def scale (rank : Nat) : Nat :=
  rank / ranksPerStep - 1

/-- The whole number that is doubled `scale` times to give the magnitude in units. -/
def significand (rank : Nat) : Nat :=
  if rank < ranksPerStep then rank else rank % ranksPerStep + ranksPerStep

def units (x : Binary64) : Nat :=
  significand x.rank * Nat.pow 2 (scale x.rank)

/-- How many units make one. -/
def unitsPerOne : Nat :=
  Nat.pow 2 1074

/-- The number in units, with its sign. Both zeros give zero. -/
def signedUnits (x : Binary64) : Int :=
  if x.negative then -(x.units : Int) else x.units

/-- The rank of the magnitude nearest to a fraction, without regard to the largest one. -/
def nearestRank (num den : Nat) : Nat :=
  let units := num * unitsPerOne
  let scale := Nat.log2 (units / den) - 52
  scale * ranksPerStep + roundHalfEven units (den * Nat.pow 2 scale)

/-- The number nearest to a fraction, if that is finite. -/
def ofFraction? (negative : Bool) (num den : Nat) : Option Binary64 :=
  let rank := nearestRank num den
  if h : rank < rankCount then some ⟨negative, ⟨rank, h⟩⟩ else none

def zero (negative : Bool) : Binary64 :=
  ⟨negative, ⟨0, by decide⟩⟩

/-- The number nearest to `coefficient * 10 ^ exponent`, if that is finite. Beyond 400 places above
or below one, the size alone decides. -/
def ofDecimal? (negative : Bool) (coefficient : Nat) (exponent : Int) : Option Binary64 :=
  let places : Int := (Nat.toDigits 10 coefficient).length + exponent
  if coefficient = 0 || places < -400 then some (zero negative)
  else if 400 < places then none
  else if 0 ≤ exponent then ofFraction? negative (coefficient * Nat.pow 10 exponent.toNat) 1
  else ofFraction? negative coefficient (Nat.pow 10 (-exponent).toNat)

/-- The number nearest to a whole number, or else zero where that is not finite. -/
def ofInteger (n : Int) : Binary64 :=
  (ofFraction? (n < 0) n.natAbs 1).getD default

def le (x y : Binary64) : Bool :=
  x.signedUnits ≤ y.signedUnits

end Binary64

end Wireframe
