import Mannequin.Proofs.Scalar.Exact
import Mannequin.Scalar.Binary64

/-!
# Comparisons

What checks on lengths need of the scalars is little: comparisons can be chained, and one
is a positive number. This holds of exact numbers, and of floating point numbers, where an
undefined number compares with nothing and infinities are the ends of the order.
-/

namespace Mannequin

/-- Scalars whose comparisons can be chained, and whose one is a finite number above zero. -/
class Scalar.Ordered (α : Type) [Scalar α] : Prop where
  le_trans : ∀ a b c : α, a ≤ b → b ≤ c → a ≤ c
  isPositive_one : IsPositive (1 : α)

namespace Scalar

variable {α : Type} [Scalar α]

/-- A finite number that is not below a positive one is positive. -/
theorem IsPositive.of_le [Ordered α] {a b : α} (ha : IsPositive a) (hab : a ≤ b)
    (hb : isFinite b = true) : IsPositive b :=
  ⟨hb, fun hzero => ha.2 (Ordered.le_trans a b 0 hab hzero)⟩

end Scalar

/-! ### Exact numbers -/

namespace Scalar

variable {α : Type} [Exact α]

theorem isPositive_iff {x : α} : IsPositive x ↔ 0 < x := by
  change (true = true ∧ ¬ x ≤ Exact.decimal 0 0) ↔ 0 < x
  rw [Exact.decimal_zero, not_le, and_iff_right rfl]

theorem IsPositive.mul {x y : α} (hx : IsPositive x) (hy : IsPositive y) : IsPositive (x * y) :=
  isPositive_iff.mpr (mul_pos (isPositive_iff.mp hx) (isPositive_iff.mp hy))

instance : Ordered α where
  le_trans _ _ _ := le_trans
  isPositive_one := by
    refine isPositive_iff.mpr ?_
    change 0 < (Exact.decimal 1 0 : α)
    rw [Exact.decimal_one]
    exact zero_lt_one

end Scalar

/-! ### Floating point numbers -/

namespace Binary64

open Float.Model

/-- Where a number stands in the order: by its sign, its exponent and its mantissa. -/
def rank : UnpackedFloat → Option (ℤ × ℤ × ℤ)
  | .notANumber => none
  | .infinity .negative => some (-2, 0, 0)
  | .finite .negative mantissa exponent _ => some (-1, -exponent, -mantissa)
  | .zero _ => some (0, 0, 0)
  | .finite .positive mantissa exponent _ => some (1, exponent, mantissa)
  | .infinity .positive => some (2, 0, 0)

/-- One place in the order is not above another. -/
def NotAbove (a b : ℤ × ℤ × ℤ) : Prop :=
  a.1 < b.1 ∨ a.1 = b.1 ∧ (a.2.1 < b.2.1 ∨ a.2.1 = b.2.1 ∧ a.2.2 ≤ b.2.2)

theorem NotAbove.trans {a b c : ℤ × ℤ × ℤ} (hab : NotAbove a b) (hbc : NotAbove b c) :
    NotAbove a c := by
  unfold NotAbove at *
  omega

theorem isLE_then_compare {e e' : ℤ} {m m' : ℕ} :
    ((compare e e').then (compare m m')).isLE = true ↔ e < e' ∨ e = e' ∧ m ≤ m' := by
  rw [Ordering.isLE_then_iff_or, compare_lt_iff_lt, compare_eq_iff_eq, Nat.isLE_compare]

theorem swap_then_compare {e e' : ℤ} {m m' : ℕ} :
    ((compare e e').then (compare m m')).swap = (compare e' e).then (compare m' m) := by
  rw [Ordering.swap_then, ← Std.OrientedOrd.eq_swap, ← Std.OrientedOrd.eq_swap]

/-- Numbers that can be compared have a place in the order. -/
theorem exists_rank_of_le {x y : UnpackedFloat} (h : x.le y = true) :
    ∃ a b, rank x = some a ∧ rank y = some b := by
  rcases x with ⟨⟨⟩⟩ | _ | _ | ⟨⟨⟩, m, e, hm⟩ <;> rcases y with ⟨⟨⟩⟩ | _ | _ | ⟨⟨⟩, m', e', hm'⟩ <;>
    first | exact ⟨_, _, rfl, rfl⟩ | cases h

/-- Numbers compare as their places do. Only numbers of one sign are compared by more than
their kinds. -/
theorem le_iff_notAbove {x y : UnpackedFloat} {a b : ℤ × ℤ × ℤ} (ha : rank x = some a)
    (hb : rank y = some b) : x.le y = true ↔ NotAbove a b := by
  rcases x with ⟨⟨⟩⟩ | _ | _ | ⟨⟨⟩, m, e, hm⟩ <;> rcases y with ⟨⟨⟩⟩ | _ | _ | ⟨⟨⟩, m', e', hm'⟩ <;>
    cases ha <;> cases hb <;>
    try first
      | exact iff_of_true rfl (by simp [NotAbove])
      | exact iff_of_false Bool.false_ne_true (by simp [NotAbove])
  case finite.negative.finite.negative =>
    change ((compare e e').then (compare m m')).swap.isLE = true ↔ _
    rw [swap_then_compare, isLE_then_compare]
    simp [NotAbove, eq_comm (a := e)]
  case finite.positive.finite.positive =>
    change ((compare e e').then (compare m m')).isLE = true ↔ _
    rw [isLE_then_compare]
    simp [NotAbove]

theorem le_trans {x y z : UnpackedFloat} (hxy : x.le y = true) (hyz : y.le z = true) :
    x.le z = true := by
  obtain ⟨a, b, ha, hb⟩ := exists_rank_of_le hxy
  obtain ⟨_, c, -, hc⟩ := exists_rank_of_le hyz
  rw [le_iff_notAbove ha hb] at hxy
  rw [le_iff_notAbove hb hc] at hyz
  rw [le_iff_notAbove ha hc]
  exact hxy.trans hyz

theorem le_iff (x y : Float) : x ≤ y ↔ x.toModel.unpack.le y.toModel.unpack = true :=
  decide_eq_true_iff

instance : Scalar.Ordered Float where
  le_trans a b c hab hbc :=
    (le_iff a c).mpr (le_trans ((le_iff a b).mp hab) ((le_iff b c).mp hbc))
  isPositive_one := by decide +kernel

end Binary64

end Mannequin
