/-!
# Scalars

All geometry is computed over one type of scalars. The class lists the
operations that the computations use and nothing more, so the same definitions
run on floating point numbers and can be read over an exact field.

No law is assumed. Every expression of the library fixes the order of its
operations, and comparisons are taken as the scalar type gives them: a
comparison with an undefined number is false.
-/

namespace Mannequin

/-- Numbers with the arithmetic, comparisons and elementary functions that
placing a character needs. -/
class Scalar (α : Type) extends Add α, Sub α, Mul α, Div α, Neg α, LT α, LE α where
  decideLT : (x y : α) → Decidable (x < y)
  decideLE : (x y : α) → Decidable (x ≤ y)
  /-- The scalar nearest to `digits * 10 ^ exponent`. -/
  ofDecimal : (digits : Nat) → (exponent : Int) → α
  sqrt : α → α
  sin : α → α
  cos : α → α
  pi : α
  isFinite : α → Bool
  /-- The number as it is quoted in messages. -/
  text : α → String

namespace Scalar

variable {α : Type} [Scalar α]

instance (priority := low) (n : Nat) : OfNat α n := ⟨ofDecimal n 0⟩

instance (priority := low) : OfScientific α where
  ofScientific digits negative exponent :=
    ofDecimal digits (if negative then -(exponent : Int) else exponent)

instance (priority := low) (x y : α) : Decidable (x < y) := decideLT x y

instance (priority := low) (x y : α) : Decidable (x ≤ y) := decideLE x y

/-- The scalar nearest to an integer. -/
def ofInt (n : Int) : α :=
  if n < 0 then -ofDecimal n.natAbs 0 else ofDecimal n.natAbs 0

/-- Numerical equality. Both zeros are equal, an undefined number equals nothing. -/
def Agree (x y : α) : Prop := x ≤ y ∧ y ≤ x

instance (x y : α) : Decidable (Agree x y) := inferInstanceAs (Decidable (_ ∧ _))

/-- The distance from zero. -/
def abs (x : α) : α := if x < 0 then -x else x

/-- The nearest point of the interval from `low` to `high`. -/
def clamp (low high x : α) : α :=
  if x < low then low else if high < x then high else x

/-- A finite number that is not zero or below. -/
def IsPositive (x : α) : Prop := isFinite x = true ∧ ¬ x ≤ 0

instance (x : α) : Decidable (IsPositive x) := inferInstanceAs (Decidable (_ ∧ _))

/-- An angle in degrees, in radians. -/
def radians (degrees : α) : α := degrees * pi / 180

end Scalar

end Mannequin
