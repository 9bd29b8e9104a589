import Mathlib.Analysis.SpecialFunctions.Trigonometric.Basic
import Mannequin.Scalar

/-!
# Exact arithmetic

What reflections need of the arithmetic are its laws for signs. They hold in
every ordered field, where a sine that is odd and a cosine that is even complete
them; nothing more is asked of the elementary functions.
-/

namespace Mannequin

/-- Scalars whose arithmetic treats signs exactly. -/
class Scalar.Signed (α : Type) [Scalar α] : Prop where
  neg_neg : ∀ a : α, - -a = a
  neg_zero : -(0 : α) = 0
  zero_mul : ∀ a : α, 0 * a = 0
  mul_zero : ∀ a : α, a * 0 = 0
  mul_one : ∀ a : α, a * 1 = a
  neg_mul : ∀ a b : α, -a * b = -(a * b)
  mul_neg : ∀ a b : α, a * -b = -(a * b)
  neg_div : ∀ a b : α, -a / b = -(a / b)
  neg_add : ∀ a b : α, -(a + b) = -a + -b
  neg_sub : ∀ a b : α, -(a - b) = -a - -b
  sin_neg : ∀ a : α, Scalar.sin (-a) = -Scalar.sin a
  cos_neg : ∀ a : α, Scalar.cos (-a) = Scalar.cos a

attribute [simp] Scalar.Signed.neg_neg Scalar.Signed.neg_zero Scalar.Signed.zero_mul
  Scalar.Signed.mul_zero Scalar.Signed.mul_one Scalar.Signed.neg_mul Scalar.Signed.mul_neg
  Scalar.Signed.neg_div Scalar.Signed.neg_add Scalar.Signed.neg_sub Scalar.Signed.sin_neg
  Scalar.Signed.cos_neg

/-- Exact numbers: an ordered field with some square root, an odd sine, an even cosine
and some half turn. -/
class Exact (α : Type) extends Field α, LinearOrder α, IsStrictOrderedRing α where
  sqrt : α → α
  sin : α → α
  cos : α → α
  pi : α
  text : α → String
  sin_neg : ∀ a, sin (-a) = -sin a
  cos_neg : ∀ a, cos (-a) = cos a

namespace Exact

variable {α : Type} [Exact α]

/-- The number that a decimal stands for. -/
def decimal (digits : Nat) (exponent : Int) : α := digits * 10 ^ exponent

theorem decimal_zero : decimal 0 0 = (0 : α) := by
  rw [decimal, Nat.cast_zero, zero_mul]

theorem decimal_one : decimal 1 0 = (1 : α) := by
  rw [decimal, Nat.cast_one, zpow_zero, mul_one]

/-- Exact numbers are scalars, all of them finite, and decimals are what they say. -/
instance : Scalar α where
  decideLT := inferInstance
  decideLE := inferInstance
  ofDecimal := decimal
  sqrt := sqrt
  sin := sin
  cos := cos
  pi := pi
  isFinite _ := true
  text := text

/-- The numerals of scalars are those of the field. -/
theorem ofNat_zero : @OfNat.ofNat α 0 (Scalar.instOfNat 0) = 0 := decimal_zero

theorem ofNat_one : @OfNat.ofNat α 1 (Scalar.instOfNat 1) = 1 := decimal_one

theorem ofNat_eq (n : ℕ) : @OfNat.ofNat α n (Scalar.instOfNat n) = n := by
  change decimal n 0 = _
  rw [decimal, zpow_zero, mul_one]

theorem ofScientific_eq (digits exponent : ℕ) :
    @OfScientific.ofScientific α Scalar.instOfScientific digits true exponent =
      digits / (10 : ℕ) ^ exponent := by
  change decimal digits (-(exponent : ℤ)) = _
  rw [decimal, zpow_neg, zpow_natCast, ← div_eq_mul_inv, Nat.cast_ofNat]

instance : Scalar.Signed α where
  neg_neg a := neg_neg a
  neg_zero := by
    change -(decimal 0 0 : α) = decimal 0 0
    rw [decimal_zero]
    exact neg_zero
  zero_mul a := by
    change (decimal 0 0 : α) * a = decimal 0 0
    rw [decimal_zero]
    exact zero_mul a
  mul_zero a := by
    change a * (decimal 0 0 : α) = decimal 0 0
    rw [decimal_zero]
    exact mul_zero a
  mul_one a := by
    change a * (decimal 1 0 : α) = a
    rw [decimal_one]
    exact mul_one a
  neg_mul a b := neg_mul a b
  mul_neg a b := mul_neg a b
  neg_div a b := neg_div b a
  neg_add a b := neg_add a b
  neg_sub a b := (neg_sub a b).trans (neg_sub_neg a b).symm
  sin_neg := sin_neg
  cos_neg := cos_neg

/-- The real numbers are exact. Messages do not show them. -/
noncomputable instance : Exact ℝ where
  sqrt := Real.sqrt
  sin := Real.sin
  cos := Real.cos
  pi := Real.pi
  text _ := "real"
  sin_neg := Real.sin_neg
  cos_neg := Real.cos_neg

end Exact

end Mannequin
