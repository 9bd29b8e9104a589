/-!
# Decimal text of exact ratios

A non-negative ratio of two natural numbers is written with a fixed number of
significant digits. The digits come from one division that rounds to nearest,
an exact tie going to the even digit, so the text depends on the exact value
alone. Trailing zeros of the fraction are dropped. Numbers far from one are
written with a power of ten of at least two digits.
-/

namespace Mannequin.Decimal

/-- The quotient rounded to the nearest natural number, ties to even. -/
def roundDiv (num den : Nat) : Nat :=
  let q := num / den
  let r := num % den
  if 2 * r < den then q
  else if den < 2 * r then q + 1
  else if q % 2 = 0 then q else q + 1

/-- The exponent `e` with `10 ^ e ≤ num / den < 10 ^ (e + 1)`, for a positive ratio. -/
def leadingExponent (num den : Nat) : Int :=
  if den ≤ num then (Nat.toDigits 10 (num / den)).length - 1
  else Int.negOfNat (Nat.toDigits 10 ((den - 1) / num)).length

/-- The ratio times a power of ten, rounded. -/
def scaledRound (num den : Nat) (exponent : Int) : Nat :=
  if 0 ≤ exponent then roundDiv (num * Nat.pow 10 exponent.toNat) den
  else roundDiv num (den * Nat.pow 10 (-exponent).toNat)

/-- Significant digits of a positive ratio and the exponent of the first one.
Rounding up to the next power of ten moves the exponent. -/
def significand (places num den : Nat) : Nat × Int :=
  let e := leadingExponent num den
  let d := scaledRound num den (places - 1 - e)
  if d = Nat.pow 10 places then (Nat.pow 10 (places - 1), e + 1) else (d, e)

/-- The list without the zeros at its end. -/
def dropTrailingZeros (digits : List Char) : List Char :=
  (digits.reverse.dropWhile (· = '0')).reverse

/-- Digits with a point after the first `whole` of them; no point stands at the end. -/
def pointed (digits : List Char) (whole : Nat) : List Char :=
  match dropTrailingZeros (digits.drop whole) with
  | [] => digits.take whole
  | fraction => digits.take whole ++ '.' :: fraction

/-- A power of ten: sign and at least two digits. -/
def exponentText (e : Int) : List Char :=
  let digits := Nat.toDigits 10 e.natAbs
  let padded := if digits.length < 2 then '0' :: digits else digits
  'e' :: (if e < 0 then '-' else '+') :: padded

/-- The text of a non-negative ratio with `places` significant digits. Powers
of ten from `-4` up to the number of digits are written out positionally. -/
def general (places num den : Nat) : String :=
  if num = 0 then "0"
  else
    let (d, e) := significand places num den
    let digits := Nat.toDigits 10 d
    if e < -4 ∨ (places : Int) ≤ e then String.ofList (pointed digits 1 ++ exponentText e)
    else if e < 0 then
      String.ofList (pointed (List.replicate (-e).toNat '0' ++ digits) 1)
    else String.ofList (pointed digits (e.toNat + 1))

example : general 6 1 10 = "0.1" := by decide +kernel
example : general 6 1234567 1 = "1.23457e+06" := by decide +kernel
example : general 6 1 10000000 = "1e-07" := by decide +kernel
example : general 6 100 1 = "100" := by decide +kernel
example : general 6 9999995 10 = "1e+06" := by decide +kernel

end Mannequin.Decimal
