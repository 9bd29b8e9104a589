import Mannequin.Scalar
import Mannequin.Decimal

/-!
# Double precision scalars

Sixty-four bit floating point numbers are scalars. Arithmetic, comparisons and
square roots are the correctly rounded ones. Messages quote six significant
digits of the exact binary value.
-/

namespace Mannequin.Binary64

/-- The exact magnitude of a finite number as a ratio of two natural numbers. -/
def magnitude (bits : UInt64) : Nat × Nat :=
  let fraction := bits.toNat % Nat.pow 2 52
  let exponent := bits.toNat / Nat.pow 2 52 % Nat.pow 2 11
  let significand := if exponent = 0 then fraction else Nat.pow 2 52 + fraction
  let power := Nat.max exponent 1
  if 1075 ≤ power then (significand * Nat.pow 2 (power - 1075), 1)
  else (significand, Nat.pow 2 (1075 - power))

/-- The text of a number in messages. -/
def text (x : Float) : String :=
  if x.isNaN then "nan"
  else
    let sign := if x.toBits.toNat < Nat.pow 2 63 then "" else "-"
    if x.isFinite then
      let (num, den) := magnitude x.toBits
      sign ++ Decimal.general 6 num den
    else sign ++ "inf"

/-- The number nearest to `digits * 10 ^ exponent`. Numbers that are far
outside the range are answered without forming the power. -/
def ofDecimal (digits : Nat) (exponent : Int) : Float :=
  let top := exponent + (Nat.toDigits 10 digits).length
  if digits = 0 ∨ top < -330 then Float.ofBits 0
  else if 330 < top then Float.ofBits 0x7FF0000000000000
  else Float.ofScientific digits (decide (exponent < 0)) exponent.natAbs

instance : Scalar Float where
  decideLT x y := inferInstanceAs (Decidable (x < y))
  decideLE x y := inferInstanceAs (Decidable (x ≤ y))
  ofDecimal := ofDecimal
  sqrt := Float.sqrt
  sin := Float.sin
  cos := Float.cos
  pi := Float.ofBits 0x400921FB54442D18
  isFinite := Float.isFinite
  text := text

end Mannequin.Binary64
