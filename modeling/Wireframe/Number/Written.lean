import Wireframe.Number.Shortest

/-!
Written numbers. Whole numbers are written in decimal digits. A floating-point number is written
with the fewest digits that read back, in positional or in scientific form, and always so that it
can be told from a whole number.
-/
namespace Wireframe

/-- The choices in writing a floating-point number. -/
structure RealFormat where
  /-- The least power of ten of a first digit that is written positionally. -/
  leastPositional : Int
  /-- The least power of ten of a first digit that is again written with an exponent. -/
  leastScientific : Int
  /-- The least number of digits of an exponent. -/
  exponentDigits : Nat
deriving DecidableEq, Repr

namespace RealFormat

/-- The format of a number on its own: positional from `0.0001` to below `1e+16`. -/
def plain : RealFormat := ⟨-4, 16, 2⟩

/-- The format of a number in compact data: positional from `0.00001` to below `1e+16`, and an
exponent of one digit is not padded. -/
def compact : RealFormat := ⟨-5, 16, 1⟩

end RealFormat

def writeInteger (n : Int) : List Char :=
  if n < 0 then '-' :: Nat.toDigits 10 n.natAbs else Nat.toDigits 10 n.natAbs

/-- Decimal digits in positional form. `lead` is the power of ten of the first one. -/
def writePositional (digits : List Char) (lead : Int) : List Char :=
  if lead < 0 then
    '0' :: '.' :: (List.replicate ((-lead).toNat - 1) '0' ++ digits)
  else
    let wholePlaces := lead.toNat + 1
    let whole := digits.take wholePlaces ++ List.replicate (wholePlaces - digits.length) '0'
    let fraction := digits.drop wholePlaces
    whole ++ '.' :: (if fraction.isEmpty then ['0'] else fraction)

/-- Decimal digits in scientific form, with an exponent of at least the given number of digits. -/
def writeScientific (exponentDigits : Nat) (digits : List Char) (lead : Int) : List Char :=
  let fraction := digits.drop 1
  let exponent := Nat.toDigits 10 lead.natAbs
  digits.take 1 ++ (if fraction.isEmpty then [] else '.' :: fraction)
    ++ 'e' :: (if lead < 0 then '-' else '+')
    :: (List.replicate (exponentDigits - exponent.length) '0' ++ exponent)

def writeReal (format : RealFormat) (x : Binary64) : List Char :=
  let d := x.shortest
  let lead := d.leadingPower
  let body :=
    if format.leastPositional ≤ lead && lead < format.leastScientific then
      writePositional d.digits lead
    else writeScientific format.exponentDigits d.digits lead
  if x.negative then '-' :: body else body

end Wireframe
