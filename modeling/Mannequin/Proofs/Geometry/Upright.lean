import Mannequin.Proofs.Geometry.Guarded

/-!
# Upright frames

The frame of a bone looks along the bone and holds its `Y` axis as high as the bone allows: of
all directions across the bone it is the closest to the world's `Y` axis, and the `X` axis is
level. Only a bone that runs along the world's `Y` axis leaves no such direction; there the
world's `Z` axis is held up instead. Either way the direction sideways has a length that can be
divided by.
-/

namespace Mannequin

attribute [local instance] instOfNatAtLeastTwo

section

variable {α : Type} [Scalar α]

namespace Vec3

/-- What is held up for a bone along an axis. -/
def held (z : Vec3 α) : Vec3 α :=
  if 1 - 1e-6 < Scalar.abs (z.dot ⟨0, 1, 0⟩) then ⟨0, 0, if 0 < z.y then -1 else 1⟩
  else ⟨0, 1, 0⟩

/-- The direction across an axis and what is held up for it. -/
def sideways (z : Vec3 α) : Vec3 α := z.held.cross z

end Vec3

theorem Quat.ofAxis_eq (z : Vec3 α) :
    ofAxis z = ofBasis z.sideways.normalize (z.cross z.sideways.normalize) z := rfl

end

namespace Vec3

variable {a v w : Vec3 ℝ}

/-- A direction across an axis that is closer to what is up than any other one across it. -/
structure ClosestAcross (a up y : Vec3 ℝ) : Prop where
  unit : y.length = 1
  across : a.dot y = 0
  closest : ∀ v : Vec3 ℝ, v.length = 1 → a.dot v = 0 → v ≠ y → (y - up).length < (v - up).length

theorem dot_comm (v w : Vec3 ℝ) : v.dot w = w.dot v := by
  simp only [dot]
  ring

theorem dot_scale (v w : Vec3 ℝ) (s : ℝ) : v.dot (w.scale s) = v.dot w * s := by
  simp only [dot, scale]
  ring

/-- The direction of a vector. -/
theorem length_direction (h : 0 < v.length) : (v.scale (1 / v.length)).length = 1 := by
  have hsquare : v.length * v.length = v.dot v := Real.mul_self_sqrt v.dot_self_nonneg
  rw [length_eq_one, dot_scale, dot_comm, dot_scale, ← hsquare]
  field_simp

theorem normalize_eq_scale (h : 1e-12 < v.length) : v.normalize = v.scale (1 / v.length) := by
  rw [normalize, if_neg]
  · rw [Exact.ofNat_one]
  · rw [Exact.ofScientific_eq, not_le]
    norm_num at h ⊢
    exact h

theorem dot_normalize (h : 1e-12 < v.length) : v.normalize.dot v.normalize = 1 := by
  rw [normalize_eq_scale h, ← length_eq_one]
  exact length_direction (lt_trans (by norm_num) h)

/-- The square of the distance of two directions. -/
theorem dot_sub_self (hv : v.dot v = 1) (hw : w.dot w = 1) :
    (v - w).dot (v - w) = 2 - 2 * v.dot w := by
  simp only [dot, sub_x, sub_y, sub_z] at *
  linear_combination hv + hw

theorem dot_le_one (hv : v.dot v = 1) (hw : w.dot w = 1) : v.dot w ≤ 1 := by
  have hdistance := (v - w).dot_self_nonneg
  rw [dot_sub_self hv hw] at hdistance
  linarith

/-- Different directions have an angle between them. -/
theorem dot_lt_one (hv : v.dot v = 1) (hw : w.dot w = 1) (h : v ≠ w) : v.dot w < 1 := by
  refine lt_of_le_of_ne (dot_le_one hv hw) fun hone => h ?_
  have hdistance := dot_sub_self hv hw
  have hx := mul_self_nonneg (v.x - w.x)
  have hy := mul_self_nonneg (v.y - w.y)
  have hz := mul_self_nonneg (v.z - w.z)
  rw [hone, dot, sub_x, sub_y, sub_z] at hdistance
  ext <;> rw [← sub_eq_zero, ← mul_self_eq_zero] <;> linarith

/-! ### Sideways -/

theorem abs_eq (b : ℝ) : Scalar.abs b = |b| := by
  rw [Scalar.abs, Exact.ofNat_zero]
  split
  case isTrue h => exact (abs_of_neg h).symm
  case isFalse h => exact (abs_of_nonneg (not_lt.mp h)).symm

theorem dot_sideways (a : Vec3 ℝ) : a.dot a.sideways = 0 := by
  simp only [sideways, dot, cross]
  ring

/-- An axis that is not steep leaves the `Y` axis to be held up. -/
theorem held_eq (a : Vec3 ℝ) : a.held =
    if 1 - 1e-6 < |a.y| then ⟨0, 0, if 0 < a.y then -1 else 1⟩ else ⟨0, 1, 0⟩ := by
  have hbound : @OfScientific.ofScientific ℝ Scalar.instOfScientific 1 true 6 = 1e-6 := by
    rw [Exact.ofScientific_eq]
    norm_num
  have hdot : a.dot ⟨0, 1, 0⟩ = a.y := by
    simp [dot]
  simp only [held, Exact.ofNat_zero, Exact.ofNat_one, hdot, abs_eq, hbound]

theorem sideways_of_level (h : |a.y| ≤ 1 - 1e-6) : a.sideways = ⟨a.z, 0, -a.x⟩ := by
  rw [sideways, held_eq, if_neg (not_lt.mpr h)]
  ext <;> simp [cross]

theorem sideways_of_steep (h : 1 - 1e-6 < |a.y|) :
    ∃ c : ℝ, c * c = 1 ∧ a.sideways = ⟨-(c * a.y), c * a.x, 0⟩ := by
  refine ⟨if 0 < a.y then -1 else 1, ?_, ?_⟩
  · split <;> norm_num
  · rw [sideways, held_eq, if_pos h]
    ext <;> simp [cross]

theorem measurable_sideways (ha : a.length = 1) : 1e-12 < a.sideways.length := by
  have hunit := length_eq_one.mp ha
  simp only [dot] at hunit
  apply Real.lt_sqrt_of_sq_lt
  rcases le_or_gt |a.y| (1 - 1e-6) with h | h
  · have hy : a.y * a.y ≤ (1 - 1e-6) * (1 - 1e-6) := by
      rw [← abs_mul_abs_self]
      exact mul_self_le_mul_self (abs_nonneg a.y) h
    rw [sideways_of_level h]
    simp only [dot]
    norm_num at hy ⊢
    linarith
  · have hy : (1 - 1e-6) * (1 - 1e-6) ≤ a.y * a.y := by
      rw [← abs_mul_abs_self a.y]
      exact mul_self_le_mul_self (by norm_num) h.le
    obtain ⟨c, hc, hsideways⟩ := sideways_of_steep h
    have hdot : a.sideways.dot a.sideways = a.x * a.x + a.y * a.y := by
      rw [hsideways]
      simp only [dot]
      linear_combination (a.x * a.x + a.y * a.y) * hc
    rw [hdot]
    have hx := mul_self_nonneg a.x
    norm_num at hy ⊢
    linarith

/-- For an axis that is not steep the direction sideways is level, and it is the right one of the
two: the direction beside it points up. -/
theorem normalize_sideways (ha : a.length = 1) (h : |a.y| ≤ 1 - 1e-6) :
    a.sideways.normalize.y = 0 ∧ 0 < (a.cross a.sideways.normalize).y := by
  have hlong := measurable_sideways ha
  have hpos : 0 < a.sideways.length := lt_trans (by norm_num) hlong
  have hsquare : 0 < a.sideways.dot a.sideways := Real.sqrt_pos.mp hpos
  have hfactor : 0 < 1 / a.sideways.length := one_div_pos.mpr hpos
  rw [normalize_eq_scale hlong]
  generalize 1 / a.sideways.length = factor at hfactor
  rw [sideways_of_level h] at hsquare ⊢
  simp only [dot, cross, scale] at hsquare ⊢
  have hup : a.z * (a.z * factor) - a.x * (-a.x * factor) =
      (a.z * a.z + 0 * 0 + -a.x * -a.x) * factor := by
    ring
  refine ⟨zero_mul factor, ?_⟩
  rw [hup]
  exact mul_pos hsquare hfactor

theorem guarded_held (a : Vec3 ℝ) : a.guarded.held = a.held.guarded := by
  have habs : Scalar.abs (a.guarded.dot ⟨0, 1, 0⟩) = _ := Guarded.abs_defined
  rw [held, held, apply_ite guarded, habs]
  refine if_ctx_congr Guarded.defined_lt (fun _ => ?_) fun _ => rfl
  exact Vec3.ext rfl rfl
    ((if_congr Iff.rfl rfl rfl).trans (apply_ite Guarded.defined _ _ _).symm)

theorem guarded_sideways (a : Vec3 ℝ) : a.guarded.sideways = a.sideways.guarded := by
  rw [sideways, sideways, guarded_held, guarded_cross]

/-- The direction across a level axis and the level direction beside it is the highest one. -/
theorem closestAcross_of_level {x : Vec3 ℝ} (ha : a.dot a = 1) (hx : x.dot x = 1)
    (hax : a.dot x = 0) (hlevel : x.y = 0) (hup : 0 < (a.cross x).y) :
    a.ClosestAcross ⟨0, 1, 0⟩ (a.cross x) := by
  have hframe := RightHanded.of_cross hx ha hax
  have hheight : ∀ v : Vec3 ℝ, v.dot ⟨0, 1, 0⟩ = v.y := by
    intro v
    simp [dot]
  have hworld : (⟨0, 1, 0⟩ : Vec3 ℝ).dot ⟨0, 1, 0⟩ = 1 := hheight _
  refine ⟨length_eq_one.mpr hframe.unit_y, (dot_comm _ _).trans hframe.right_yz, ?_⟩
  intro v hv hav hne
  have hunit := length_eq_one.mp hv
  have hangle := dot_lt_one hunit hframe.unit_y hne
  -- What `v` has across the axis besides its part along the product is along `x`, which is level.
  have hvy : v.y = v.dot (a.cross x) * (a.cross x).y := by
    simp only [dot, cross] at *
    grind
  have hlower : v.y < (a.cross x).y := by
    rw [hvy]
    exact mul_lt_of_lt_one_left hup hangle
  apply Real.sqrt_lt_sqrt (dot_self_nonneg _)
  rw [dot_sub_self hframe.unit_y hworld, dot_sub_self hunit hworld, hheight, hheight]
  linarith

end Vec3

namespace Quat

variable {a : Vec3 ℝ}

theorem guarded_ofAxis (a : Vec3 ℝ) : ofAxis a.guarded = (ofAxis a).guarded := by
  rw [ofAxis_eq, ofAxis_eq, Vec3.guarded_sideways, Vec3.guarded_normalize, Vec3.guarded_cross,
    guarded_ofBasis]

/-- The directions that the axes are sent to. -/
theorem rightHanded_ofAxis (ha : a.length = 1) :
    RightHanded a.sideways.normalize (a.cross a.sideways.normalize) a := by
  have hlong := Vec3.measurable_sideways ha
  apply RightHanded.of_cross (Vec3.dot_normalize hlong) (Vec3.length_eq_one.mp ha)
  rw [Vec3.normalize_eq_scale hlong, Vec3.dot_scale, Vec3.dot_sideways, zero_mul]

/-- What the rotation of an axis does to the axes of the world. -/
theorem rotate_ofAxis (ha : a.length = 1) :
    (ofAxis a).rotate ⟨1, 0, 0⟩ = a.sideways.normalize ∧
      (ofAxis a).rotate ⟨0, 1, 0⟩ = a.cross a.sideways.normalize ∧
      (ofAxis a).rotate ⟨0, 0, 1⟩ = a :=
  (recovers_ofBasis (rightHanded_ofAxis ha)).rotate

/-- The rotation of a direction sends a vector along `Z` to the vector of its length. -/
theorem rotate_ofAxis_direction {d : Vec3 ℝ} (h : 0 < d.length) :
    (ofAxis (d.scale (1 / d.length))).rotate ⟨0, 0, d.length⟩ = d := by
  have haxis : (⟨0, 0, d.length⟩ : Vec3 ℝ) = (⟨0, 0, 1⟩ : Vec3 ℝ).scale d.length := by
    ext <;> simp [Vec3.scale]
  rw [haxis, rotate_scale, (rotate_ofAxis (Vec3.length_direction h)).2.2]
  ext <;> simp [Vec3.scale, h.ne']

/-- The quaternion of an axis before it is normalized. -/
noncomputable def found (a : Vec3 ℝ) : Quat ℝ :=
  let x := a.sideways.normalize
  recovered x (a.cross x) a (pivot x (a.cross x) a)

/-- The rotation of an axis sends `Z` to it. Unless the axis is steep it sends `X` to a level
direction and `Y` to the highest one across the axis. For every axis it is found without a
division by zero, without a root of a negative number, and from a direction and a quaternion
that are both long enough to be normalized. -/
theorem ofAxis_upright (ha : a.length = 1) :
    (ofAxis a).length = 1 ∧ (ofAxis a).rotate ⟨0, 0, 1⟩ = a ∧
      (|a.y| ≤ 1 - 1e-6 → ((ofAxis a).rotate ⟨1, 0, 0⟩).y = 0 ∧
        a.ClosestAcross ⟨0, 1, 0⟩ ((ofAxis a).rotate ⟨0, 1, 0⟩)) ∧
      ofAxis a.guarded = (ofAxis a).guarded ∧ 1e-12 < a.sideways.length ∧
      ofAxis a = (found a).normalize ∧ 1e-12 < (found a).length := by
  have hframe := rightHanded_ofAxis ha
  have hlong := Vec3.measurable_sideways ha
  obtain ⟨hx, hy, hz⟩ := rotate_ofAxis ha
  have hfound : (found a).square = 1 :=
    (recovers_recovered hframe (lt_of_lt_of_le one_pos (one_le_pivot _ _ _))).square
  refine ⟨?_, hz, fun hlevel => ?_, guarded_ofAxis a, hlong, ofBasis_eq _ _ _, ?_⟩
  · rw [length_eq, square_ofAxis, Real.sqrt_one]
  · obtain ⟨hflat, hup⟩ := Vec3.normalize_sideways ha hlevel
    rw [hx, hy]
    exact ⟨hflat, Vec3.closestAcross_of_level hframe.unit_z hframe.unit_x hframe.right_zx hflat hup⟩
  · rw [length_eq, hfound, Real.sqrt_one]
    norm_num

/-- An axis that points backward. The trace of its rotation is negative, so another component
than the scalar part is the pivot. -/
theorem ofAxis_upright_backward :
    let a : Vec3 ℝ := ⟨2 / 3, 1 / 3, -2 / 3⟩
    a.length = 1 ∧ |a.y| ≤ 1 - 1e-6 ∧ (ofAxis a).rotate ⟨0, 0, 1⟩ = a ∧
      ((ofAxis a).rotate ⟨1, 0, 0⟩).y = 0 ∧
      a.ClosestAcross ⟨0, 1, 0⟩ ((ofAxis a).rotate ⟨0, 1, 0⟩) ∧
      ofAxis a.guarded = (ofAxis a).guarded := by
  intro a
  have ha : a.length = 1 := by
    rw [Vec3.length_eq_one]
    norm_num [a, Vec3.dot]
  have hlevel : |a.y| ≤ 1 - 1e-6 := by norm_num [a, abs_of_pos]
  obtain ⟨-, hz, hupright, hguarded, -⟩ := ofAxis_upright ha
  obtain ⟨hx, hy⟩ := hupright hlevel
  exact ⟨ha, hlevel, hz, hx, hy, hguarded⟩

end Quat

end Mannequin
