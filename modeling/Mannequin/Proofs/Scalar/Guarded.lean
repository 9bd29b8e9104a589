import Mannequin.Proofs.Scalar.Exact

/-!
# Guarded arithmetic

Over the real numbers a division by zero and the root of a negative number have values that no
computation should rely on. Guarded numbers are the real numbers with one more that stands for
them: these operations give it, and all arithmetic keeps it. A computation that gives a real
number when it is run on guarded ones has divided by nothing that is zero, and it has taken the
root of nothing negative.
-/

namespace Mannequin

/-- A real number, or what an operation without a value gives. -/
inductive Guarded where
  | defined (value : ℝ)
  | undefined

namespace Guarded

/-- An operation that needs two numbers. -/
def combine (f : ℝ → ℝ → Guarded) : Guarded → Guarded → Guarded
  | defined a, defined b => f a b
  | _, _ => undefined

/-- An operation that needs one number. -/
def apply (f : ℝ → Guarded) : Guarded → Guarded
  | defined a => f a
  | undefined => undefined

/-- A comparison of two numbers; it does not hold of what is undefined. -/
def Compares (r : ℝ → ℝ → Prop) : Guarded → Guarded → Prop
  | defined a, defined b => r a b
  | _, _ => False

noncomputable def divide (a b : ℝ) : Guarded := if b = 0 then undefined else defined (a / b)

noncomputable def root (a : ℝ) : Guarded := if a < 0 then undefined else defined √a

noncomputable instance : Scalar Guarded where
  add := combine fun a b => defined (a + b)
  sub := combine fun a b => defined (a - b)
  mul := combine fun a b => defined (a * b)
  div := combine divide
  neg := apply fun a => defined (-a)
  lt := Compares (· < ·)
  le := Compares (· ≤ ·)
  decideLT _ _ := Classical.propDecidable _
  decideLE _ _ := Classical.propDecidable _
  ofDecimal digits exponent := defined (Exact.decimal digits exponent)
  sqrt := apply root
  sin := apply fun a => defined (Real.sin a)
  cos := apply fun a => defined (Real.cos a)
  pi := defined Real.pi
  isFinite
    | defined _ => true
    | undefined => false
  text _ := "guarded"

variable {a b : ℝ}

theorem defined_add : defined a + defined b = defined (a + b) := rfl

theorem defined_sub : defined a - defined b = defined (a - b) := rfl

theorem defined_mul : defined a * defined b = defined (a * b) := rfl

theorem ofNat_eq (n : ℕ) : @OfNat.ofNat Guarded n (Scalar.instOfNat n) = defined n :=
  congrArg defined (Exact.ofNat_eq n)

theorem defined_lt : defined a < defined b ↔ a < b := Iff.rfl

theorem defined_le : defined a ≤ defined b ↔ a ≤ b := Iff.rfl

theorem defined_div (h : b ≠ 0) : defined a / defined b = defined (a / b) := if_neg h

theorem sqrt_defined (h : 0 ≤ a) : Scalar.sqrt (defined a) = defined √a := if_neg (not_lt.mpr h)

theorem abs_defined : Scalar.abs (defined a) = defined (Scalar.abs a) := by
  rw [Scalar.abs, Scalar.abs, apply_ite defined]
  exact if_congr Iff.rfl rfl rfl

end Guarded

end Mannequin
