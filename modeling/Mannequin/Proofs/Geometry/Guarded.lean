import Mannequin.Proofs.Geometry.Basis
import Mannequin.Proofs.Scalar.Guarded

/-!
# Guarded rotations

The rotation that is found from a basis has length one and sends the axes to it. It is found in
guarded arithmetic too, so on the way to it nothing is divided by zero and no root is taken of a
negative number. Lengths are roots of sums of squares, and what is too short is not divided by its
length; the component that a rotation is recovered from is not small.
-/

namespace Mannequin

open Guarded

namespace Vec3

/-- The vector as guarded arithmetic has it. -/
def guarded (v : Vec3 ℝ) : Vec3 Guarded := ⟨defined v.x, defined v.y, defined v.z⟩

theorem guarded_cross (v w : Vec3 ℝ) : v.guarded.cross w.guarded = (v.cross w).guarded := rfl

theorem guarded_dot (v w : Vec3 ℝ) : v.guarded.dot w.guarded = defined (v.dot w) := rfl

theorem dot_self_nonneg (v : Vec3 ℝ) : 0 ≤ v.dot v :=
  add_nonneg (add_nonneg (mul_self_nonneg v.x) (mul_self_nonneg v.y)) (mul_self_nonneg v.z)

theorem guarded_length (v : Vec3 ℝ) : v.guarded.length = defined v.length := by
  rw [length, guarded_dot]
  exact sqrt_defined v.dot_self_nonneg

theorem guarded_normalize (v : Vec3 ℝ) : v.guarded.normalize = v.normalize.guarded := by
  rw [normalize, normalize, guarded_length, apply_ite guarded]
  refine if_ctx_congr defined_le (fun _ => rfl) fun hlong => ?_
  exact congrArg v.guarded.scale (defined_div (Exact.pos_of_measurable hlong).ne')

end Vec3

namespace Quat

/-- The quaternion as guarded arithmetic has it. -/
def guarded (q : Quat ℝ) : Quat Guarded := ⟨defined q.w, defined q.x, defined q.y, defined q.z⟩

theorem square_nonneg (q : Quat ℝ) : 0 ≤ q.square :=
  add_nonneg (add_nonneg (add_nonneg (mul_self_nonneg q.w) (mul_self_nonneg q.x))
    (mul_self_nonneg q.y)) (mul_self_nonneg q.z)

theorem guarded_length (q : Quat ℝ) : q.guarded.length = defined q.length :=
  sqrt_defined q.square_nonneg

theorem guarded_normalize (q : Quat ℝ) : q.guarded.normalize = q.normalize.guarded := by
  rw [normalize, normalize, guarded_length, apply_ite guarded]
  refine if_ctx_congr defined_le (fun _ => rfl) fun hlong => ?_
  exact congrArg q.guarded.scale (defined_div (Exact.pos_of_measurable hlong).ne')

/-- What the components are divided by. -/
theorem guarded_divisor {k : ℝ} (hk : 1 ≤ k) :
    Scalar.sqrt (defined k) * defined (2 : ℕ) = defined (√k * (2 : ℕ)) ∧ √k * (2 : ℕ) ≠ 0 := by
  have hpos : 0 < k := lt_of_lt_of_le one_pos hk
  have hroot : 0 < √k := Real.sqrt_pos.mpr hpos
  exact ⟨by rw [sqrt_defined hpos.le, defined_mul], by positivity⟩

/-- Each branch divides by twice the root of its pivot. -/
theorem guarded_ofBasis (x y z : Vec3 ℝ) :
    ofBasis x.guarded y.guarded z.guarded = (ofBasis x y z).guarded := by
  have hpivot := one_le_pivot x y z
  have htraced : x.x + y.y + z.z + 1 = 1 + x.x + y.y + z.z := by ring
  rw [ofBasis, ofBasis, ← guarded_normalize]
  congr 1
  simp only [pivot, Vec3.guarded, Guarded.ofNat_eq, Exact.ofNat_eq, Nat.cast_zero, Nat.cast_one,
    defined_add, defined_sub, defined_lt, htraced] at hpivot ⊢
  by_cases htrace : 0 < x.x + y.y + z.z
  · simp only [htrace, if_true] at hpivot ⊢
    obtain ⟨hdivisor, hne⟩ := guarded_divisor (k := 1 + x.x + y.y + z.z) hpivot
    simp only [hdivisor, defined_div hne]
    rfl
  · by_cases hx : y.y < x.x ∧ z.z < x.x
    · simp only [htrace, hx, and_self, if_true, if_false] at hpivot ⊢
      obtain ⟨hdivisor, hne⟩ := guarded_divisor (k := 1 + x.x - y.y - z.z) hpivot
      simp only [hdivisor, defined_div hne]
      rfl
    · by_cases hy : z.z < y.y
      · simp only [htrace, hx, hy, if_true, if_false] at hpivot ⊢
        obtain ⟨hdivisor, hne⟩ := guarded_divisor (k := 1 + y.y - x.x - z.z) hpivot
        simp only [hdivisor, defined_div hne]
        rfl
      · simp only [htrace, hx, hy, if_false] at hpivot ⊢
        obtain ⟨hdivisor, hne⟩ := guarded_divisor (k := 1 + z.z - x.x - y.y) hpivot
        simp only [hdivisor, defined_div hne]
        rfl

/-- The rotation of a basis has length one and sends the axes to the basis. Whichever component is
the pivot, the number that its root is taken of is positive, and so is what all components are
divided by; the quaternion that this gives has length one before it is normalized. So the
rotation is found without a division by zero and without a root of a negative number. -/
theorem ofBasis_turns_axes {x y z : Vec3 ℝ} (h : RightHanded x y z) :
    let found := recovered x y z (pivot x y z)
    let radicand := products x y z (pivot x y z) (pivot x y z)
    (ofBasis x y z).length = 1 ∧ (ofBasis x y z).rotate ⟨1, 0, 0⟩ = x ∧
      (ofBasis x y z).rotate ⟨0, 1, 0⟩ = y ∧ (ofBasis x y z).rotate ⟨0, 0, 1⟩ = z ∧
      0 < radicand ∧ 0 < √radicand * (2 : ℕ) ∧ found.length = 1 ∧ ofBasis x y z = found.normalize ∧
      ofBasis x.guarded y.guarded z.guarded = (ofBasis x y z).guarded := by
  intro found radicand
  have hradicand : 0 < radicand := lt_of_lt_of_le one_pos (one_le_pivot x y z)
  have hdivisor : 0 < √radicand * (2 : ℕ) :=
    mul_pos (Real.sqrt_pos.mpr hradicand) (Nat.cast_pos.mpr Nat.two_pos)
  have hfound : found.square = 1 := (recovers_recovered h hradicand).square
  have hrecovers := recovers_ofBasis h
  obtain ⟨hx, hy, hz⟩ := hrecovers.rotate
  refine ⟨?_, hx, hy, hz, hradicand, hdivisor, ?_, ofBasis_eq x y z, guarded_ofBasis x y z⟩
  · rw [length_eq, hrecovers.square, Real.sqrt_one]
  · rw [length_eq, hfound, Real.sqrt_one]

/-- Every axis is sent to the next one. The trace is zero, and no other component is larger than
the last. -/
theorem ofBasis_turns_axes_cycle :
    let x : Vec3 ℝ := ⟨0, 1, 0⟩
    let y : Vec3 ℝ := ⟨0, 0, 1⟩
    let z : Vec3 ℝ := ⟨1, 0, 0⟩
    RightHanded x y z ∧ pivot x y z = 3 ∧ (ofBasis x y z).length = 1 ∧
      (ofBasis x y z).rotate ⟨1, 0, 0⟩ = x ∧ (ofBasis x y z).rotate ⟨0, 1, 0⟩ = y ∧
      (ofBasis x y z).rotate ⟨0, 0, 1⟩ = z := by
  intro x y z
  have h : RightHanded x y z := by
    constructor
    case handed => ext <;> norm_num [x, y, z, Vec3.cross]
    all_goals norm_num [x, y, z, Vec3.dot]
  obtain ⟨hlength, hx, hy, hz, -⟩ := ofBasis_turns_axes h
  exact ⟨h, by norm_num [pivot, x, y, z], hlength, hx, hy, hz⟩

end Quat

end Mannequin
