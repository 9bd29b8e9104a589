import Mannequin.Proofs.Scalar.Ordered

/-!
# Comparing finite numbers

Of two finite numbers that are not in order one way, the other way is strict. Over floating
point numbers this needs both of them to be numbers, and it says nothing of equal ones: the
two zeros are in order both ways.
-/

namespace Mannequin

/-- Scalars whose finite numbers can all be compared. -/
class Scalar.Total (α : Type) [Scalar α] : Prop where
  lt_of_not_le : ∀ a b : α, isFinite a = true → isFinite b = true → ¬ a ≤ b → b < a
  le_of_lt : ∀ a b : α, a < b → a ≤ b

/-- Scalars whose finite numbers stand in a line: one that is below another is not above it. -/
class Scalar.Linear (α : Type) [Scalar α] : Prop extends Scalar.Total α, Scalar.Ordered α where
  not_le_of_lt : ∀ a b : α, a < b → ¬ b ≤ a

namespace Scalar

variable {α : Type} [Scalar α] [Scalar.Total α] {a b : α}

theorem le_of_not_lt (ha : isFinite a = true) (hb : isFinite b = true) (h : ¬ b < a) : a ≤ b := by
  by_contra hle
  exact h (Total.lt_of_not_le a b ha hb hle)

end Scalar

/-! ### Exact numbers -/

namespace Exact

variable {α : Type} [Exact α]

theorem agree_iff {a b : α} : Scalar.Agree a b ↔ a = b :=
  ⟨fun h => le_antisymm h.1 h.2, fun h => h ▸ ⟨le_refl a, le_refl a⟩⟩

instance : Scalar.Linear α where
  lt_of_not_le _ _ _ _ := lt_of_not_ge
  le_of_lt _ _ := le_of_lt
  not_le_of_lt _ _ := not_le_of_gt

end Exact

/-! ### Floating point numbers -/

namespace Binary64

open Float.Model

theorem lt_iff (x y : Float) : x < y ↔ x.toModel.unpack.lt y.toModel.unpack = true :=
  decide_eq_true_iff

/-- Numbers compare one way round as they do the other way round. -/
theorem compare_swap (x y : UnpackedFloat) : y.compare x = (x.compare y).map Ordering.swap := by
  rcases x with ⟨⟨⟩⟩ | _ | _ | ⟨⟨⟩, m, e, hm⟩ <;> rcases y with ⟨⟨⟩⟩ | _ | _ | ⟨⟨⟩, m', e', hm'⟩ <;>
    try rfl
  case finite.negative.finite.negative =>
    exact congrArg (fun order => some order.swap) swap_then_compare.symm
  case finite.positive.finite.positive => exact congrArg some swap_then_compare.symm

theorem not_le_of_lt {x y : Float} (h : x < y) : ¬ y ≤ x := by
  rw [lt_iff, UnpackedFloat.lt, beq_iff_eq] at h
  rw [le_iff, UnpackedFloat.le, compare_swap, h]
  exact Bool.false_ne_true

/-- Finite numbers can be compared. -/
theorem exists_compare {x y : UnpackedFloat} (hx : x.isFinite = true) (hy : y.isFinite = true) :
    ∃ order, x.compare y = some order := by
  rcases x with _ | _ | _ | ⟨⟨⟩, m, e, hm⟩ <;> cases hx <;>
    rcases y with _ | _ | _ | ⟨⟨⟩, m', e', hm'⟩ <;> cases hy <;> exact ⟨_, rfl⟩

instance : Scalar.Linear Float where
  not_le_of_lt _ _ := not_le_of_lt
  lt_of_not_le a b ha hb h := by
    rw [le_iff, UnpackedFloat.le] at h
    rw [lt_iff, UnpackedFloat.lt, compare_swap]
    obtain ⟨order, horder⟩ := exists_compare ha hb
    rw [horder] at h ⊢
    cases order with
    | gt => rfl
    | _ => exact absurd rfl h
  le_of_lt a b h := by
    rw [lt_iff, UnpackedFloat.lt, beq_iff_eq] at h
    rw [le_iff, UnpackedFloat.le, h]
    rfl

/-- Numbers from zero to one are finite. -/
theorem isFinite_of_mem_unit {x : Float} (hlow : 0 ≤ x) (hhigh : x ≤ 1) : x.isFinite = true := by
  rw [le_iff] at hlow hhigh
  have hone : UnpackedFloat.le (.infinity .positive) (1 : Float).toModel.unpack = false := by
    decide +kernel
  have hzero : UnpackedFloat.le (0 : Float).toModel.unpack (.infinity .negative) = false := by
    decide +kernel
  change x.toModel.unpack.isFinite = true
  cases hx : x.toModel.unpack with
  | notANumber =>
      rw [hx] at hhigh
      cases hhigh
  | infinity s =>
      rw [hx] at hlow hhigh
      cases s with
      | negative => cases hzero.symm.trans hlow
      | positive => cases hone.symm.trans hhigh
  | _ => rfl

end Binary64

end Mannequin
