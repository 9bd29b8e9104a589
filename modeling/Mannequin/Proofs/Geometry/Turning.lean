import Mathlib
import Mannequin.Proofs.Geometry.Reflection

/-!
# Turning vectors

A quaternion of length one turns vectors, and the product of two of them turns as the right
factor and then the left one do. So the placement of a piece scales it, turns it about the
fixed axes, then as the frame of its bone is turned, and moves it to the bone, however many
quaternions and matrices this is computed with.
-/

namespace Mannequin

/- Numerals of scalars are read as numbers once they are unfolded; those that are written here
are numbers from the start. -/
attribute [local instance] instOfNatAtLeastTwo

section

variable {α : Type} [Exact α]

/-! ### Linear maps -/

namespace Quat

theorem rotate_add (q : Quat α) (v w : Vec3 α) : q.rotate (v + w) = q.rotate v + q.rotate w := by
  ext <;> simp only [rotate, Vec3.cross, Vec3.scale, Vec3.add_x, Vec3.add_y, Vec3.add_z] <;> ring

theorem rotate_scale (q : Quat α) (v : Vec3 α) (s : α) :
    q.rotate (v.scale s) = (q.rotate v).scale s := by
  ext <;> simp only [rotate, Vec3.cross, Vec3.scale, Vec3.add_x, Vec3.add_y, Vec3.add_z] <;> ring

end Quat

/-- The matrix of a placement scales a point, turns it and moves it. -/
theorem Transform.transformPoint_matrix (t : Transform α) (p : Vec3 α) :
    t.matrix.transformPoint p = t.position + t.rotation.rotate (t.scale.hadamard p) := by
  ext <;> simp [matrix, Mat4.transformPoint, Mat4.mul_def, Mat4.mulVec, Mat4.translation,
    Mat4.identity, Mat4.rotation, Mat4.scaling, Quat.rotate, Vec3.cross, Vec3.scale,
    Vec3.hadamard, Exact.ofNat_eq] <;> ring

/-! ### Products -/

namespace Quat

/-- The square of the length. -/
def square (q : Quat α) : α := q.w * q.w + q.x * q.x + q.y * q.y + q.z * q.z

theorem square_identity : (identity : Quat α).square = 1 := by
  simp [square, identity, Exact.ofNat_zero, Exact.ofNat_one]

theorem square_mul (p q : Quat α) : (p * q).square = p.square * q.square := by
  simp only [square, mul_def, mul]
  ring

/-- A vector between a quaternion and its conjugate. -/
def sandwich (q : Quat α) (v : Vec3 α) : Vec3 α :=
  ⟨(q.w * q.w + q.x * q.x - q.y * q.y - q.z * q.z) * v.x +
     2 * (q.x * q.y - q.w * q.z) * v.y + 2 * (q.x * q.z + q.w * q.y) * v.z,
   2 * (q.x * q.y + q.w * q.z) * v.x +
     (q.w * q.w - q.x * q.x + q.y * q.y - q.z * q.z) * v.y + 2 * (q.y * q.z - q.w * q.x) * v.z,
   2 * (q.x * q.z - q.w * q.y) * v.x + 2 * (q.y * q.z + q.w * q.x) * v.y +
     (q.w * q.w - q.x * q.x - q.y * q.y + q.z * q.z) * v.z⟩

theorem sandwich_mul (p q : Quat α) (v : Vec3 α) :
    (p * q).sandwich v = p.sandwich (q.sandwich v) := by
  ext <;> simp only [sandwich, mul_def, mul] <;> ring

theorem rotate_eq_sandwich {q : Quat α} (h : q.square = 1) (v : Vec3 α) :
    q.rotate v = q.sandwich v := by
  rw [square] at h
  ext <;> simp only [rotate, sandwich, Vec3.cross, Vec3.scale, Vec3.add_x, Vec3.add_y,
    Vec3.add_z, Exact.ofNat_eq, Nat.cast_ofNat]
  · linear_combination -v.x * h
  · linear_combination -v.y * h
  · linear_combination -v.z * h

/-- A product turns as its factors do, the right one first. Only quaternions of length one
compose: the formula for turning is not homogeneous in them. -/
theorem rotate_mul {p q : Quat α} (hp : p.square = 1) (hq : q.square = 1) (v : Vec3 α) :
    (p * q).rotate v = p.rotate (q.rotate v) := by
  have hproduct : (p * q).square = 1 := by rw [square_mul, hp, hq, mul_one]
  rw [rotate_eq_sandwich hproduct, rotate_eq_sandwich hp, rotate_eq_sandwich hq, sandwich_mul]

/-- Turning keeps lengths and angles. -/
theorem dot_rotate {q : Quat α} (h : q.square = 1) (v w : Vec3 α) :
    (q.rotate v).dot (q.rotate w) = v.dot w := by
  have hsandwich : (q.sandwich v).dot (q.sandwich w) = q.square * q.square * v.dot w := by
    simp only [sandwich, square, Vec3.dot]
    ring
  rw [rotate_eq_sandwich h, rotate_eq_sandwich h, hsandwich, h, one_mul, one_mul]

end Quat

end

/-! ### Lengths -/

/-- What is not too short to be measured has a length. -/
theorem Exact.pos_of_measurable {a : ℝ}
    (h : ¬ a ≤ @OfScientific.ofScientific ℝ Scalar.instOfScientific 1 true 12) : 0 < a := by
  rw [Exact.ofScientific_eq, not_le] at h
  exact lt_trans (by norm_num) h

namespace Vec3

theorem length_eq_one {v : Vec3 ℝ} : v.length = 1 ↔ v.dot v = 1 := Real.sqrt_eq_one

theorem normalize_of_length {v : Vec3 ℝ} (h : v.length = 1) : v.normalize = v := by
  rw [normalize, h, if_neg]
  · ext <;> simp [scale, Exact.ofNat_eq]
  · rw [Exact.ofScientific_eq]
    norm_num

end Vec3

namespace Quat

theorem length_eq (q : Quat ℝ) : q.length = √q.square := rfl

theorem normalize_of_square {q : Quat ℝ} (h : q.square = 1) : q.normalize = q := by
  rw [normalize, length_eq, h, Real.sqrt_one, if_neg]
  · ext <;> simp [scale, Exact.ofNat_eq]
  · rw [Exact.ofScientific_eq]
    norm_num

/-- What is normalized has length one: without a measurable length it gives the identity. -/
theorem square_normalize (q : Quat ℝ) : q.normalize.square = 1 := by
  rw [normalize]
  split
  case isTrue => exact square_identity
  case isFalse hlong =>
    have hpos : 0 < q.length := Exact.pos_of_measurable hlong
    have hsquare : q.length * q.length = q.square :=
      Real.mul_self_sqrt (Real.sqrt_pos.mp hpos).le
    have hscale : (q.scale (1 / q.length)).square = q.square * (1 / q.length * (1 / q.length)) := by
      simp only [square, scale]
      ring
    rw [Exact.ofNat_eq, Nat.cast_one, hscale, ← hsquare]
    field_simp

end Quat

/-! ### Turns about the fixed axes -/

namespace Vec3

/-- The vector turned about the `X` axis by an angle in radians. -/
noncomputable def turnX (angle : ℝ) (v : Vec3 ℝ) : Vec3 ℝ :=
  ⟨v.x, Real.cos angle * v.y - Real.sin angle * v.z, Real.sin angle * v.y + Real.cos angle * v.z⟩

/-- The vector turned about the `Y` axis by an angle in radians. -/
noncomputable def turnY (angle : ℝ) (v : Vec3 ℝ) : Vec3 ℝ :=
  ⟨Real.cos angle * v.x + Real.sin angle * v.z, v.y, Real.cos angle * v.z - Real.sin angle * v.x⟩

/-- The vector turned about the `Z` axis by an angle in radians. -/
noncomputable def turnZ (angle : ℝ) (v : Vec3 ℝ) : Vec3 ℝ :=
  ⟨Real.cos angle * v.x - Real.sin angle * v.y, Real.sin angle * v.x + Real.cos angle * v.y, v.z⟩

/-- The vector turned about `X`, then about `Y` and then about `Z`, by angles in degrees. -/
noncomputable def turnBy : Option (Vec3 ℝ) → Vec3 ℝ → Vec3 ℝ
  | none, v => v
  | some degrees, v =>
    ((v.turnX (degrees.x * Real.pi / 180)).turnY (degrees.y * Real.pi / 180)).turnZ
      (degrees.z * Real.pi / 180)

end Vec3

namespace Quat

open Real

theorem ofAxisAngle_eq {axis : Vec3 ℝ} (h : axis.length = 1) (angle : ℝ) :
    ofAxisAngle axis angle = ⟨cos (angle / 2), axis.x * sin (angle / 2), axis.y * sin (angle / 2),
      axis.z * sin (angle / 2)⟩ := by
  have hhalf : angle * @OfScientific.ofScientific ℝ Scalar.instOfScientific 5 true 1 =
      angle / 2 := by
    rw [Exact.ofScientific_eq]
    norm_num
    ring
  rw [ofAxisAngle, Vec3.normalize_of_length h, hhalf]
  rfl

theorem square_ofAxisAngle {axis : Vec3 ℝ} (h : axis.length = 1) (angle : ℝ) :
    (ofAxisAngle axis angle).square = 1 := by
  have hunit := Vec3.length_eq_one.mp h
  rw [Vec3.dot] at hunit
  rw [ofAxisAngle_eq h, square]
  linear_combination sin (angle / 2) ^ 2 * hunit + sin_sq_add_cos_sq (angle / 2)

theorem double_half (angle : ℝ) : cos angle = 1 - 2 * sin (angle / 2) ^ 2 ∧
    sin angle = 2 * sin (angle / 2) * cos (angle / 2) := by
  have hangle : angle = 2 * (angle / 2) := by ring
  constructor
  · rw [hangle, cos_two_mul, cos_sq', ← hangle]
    ring
  · rw [hangle, sin_two_mul, ← hangle]

theorem length_axes : (⟨1, 0, 0⟩ : Vec3 ℝ).length = 1 ∧ (⟨0, 1, 0⟩ : Vec3 ℝ).length = 1 ∧
    (⟨0, 0, 1⟩ : Vec3 ℝ).length = 1 := by
  simp [Vec3.length_eq_one, Vec3.dot]

/-- A turn keeps the part of a vector along the axis and turns the rest of it around the axis. -/
theorem rotate_ofAxisAngle {axis : Vec3 ℝ} (h : axis.length = 1) (angle : ℝ) (v : Vec3 ℝ) :
    (ofAxisAngle axis angle).rotate v = v.scale (cos angle) + (axis.cross v).scale (sin angle) +
      axis.scale (axis.dot v * (1 - cos angle)) := by
  have hunit := Vec3.length_eq_one.mp h
  obtain ⟨hcos, hsin⟩ := double_half angle
  rw [Vec3.dot] at hunit
  rw [ofAxisAngle_eq h, hcos, hsin]
  ext <;> simp only [rotate, Vec3.cross, Vec3.dot, Vec3.scale, Vec3.add_x, Vec3.add_y, Vec3.add_z,
    Exact.ofNat_eq, Nat.cast_ofNat]
  · linear_combination (-2 * sin (angle / 2) ^ 2 * v.x) * hunit
  · linear_combination (-2 * sin (angle / 2) ^ 2 * v.y) * hunit
  · linear_combination (-2 * sin (angle / 2) ^ 2 * v.z) * hunit

theorem rotate_ofAxisAngle_x (angle : ℝ) (v : Vec3 ℝ) :
    (ofAxisAngle ⟨1, 0, 0⟩ angle).rotate v = v.turnX angle := by
  rw [rotate_ofAxisAngle length_axes.1]
  ext <;> simp [Vec3.turnX, Vec3.cross, Vec3.dot, Vec3.scale] <;> ring

theorem rotate_ofAxisAngle_y (angle : ℝ) (v : Vec3 ℝ) :
    (ofAxisAngle ⟨0, 1, 0⟩ angle).rotate v = v.turnY angle := by
  rw [rotate_ofAxisAngle length_axes.2.1]
  ext <;> simp [Vec3.turnY, Vec3.cross, Vec3.dot, Vec3.scale] <;> ring

theorem rotate_ofAxisAngle_z (angle : ℝ) (v : Vec3 ℝ) :
    (ofAxisAngle ⟨0, 0, 1⟩ angle).rotate v = v.turnZ angle := by
  rw [rotate_ofAxisAngle length_axes.2.2]
  ext <;> simp [Vec3.turnZ, Vec3.cross, Vec3.dot, Vec3.scale] <;> ring

theorem ofEuler_eq (angles : Vec3 ℝ) : ofEuler angles =
    ofAxisAngle ⟨0, 0, 1⟩ angles.z *
      (ofAxisAngle ⟨0, 1, 0⟩ angles.y * ofAxisAngle ⟨1, 0, 0⟩ angles.x) := by
  simp only [ofEuler, Exact.ofNat_zero, Exact.ofNat_one]

theorem square_ofDegrees (degrees : Option (Vec3 ℝ)) : (ofDegrees degrees).square = 1 := by
  obtain ⟨hx, hy, hz⟩ := length_axes
  cases degrees with
  | none => exact square_identity
  | some r =>
      rw [ofDegrees, ofEuler_eq, square_mul, square_mul, square_ofAxisAngle hx,
        square_ofAxisAngle hy, square_ofAxisAngle hz, mul_one, mul_one]

/-- Turning by three angles is turning about the fixed axes, one after the other. -/
theorem rotate_ofDegrees (degrees : Option (Vec3 ℝ)) (v : Vec3 ℝ) :
    (ofDegrees degrees).rotate v = v.turnBy degrees := by
  cases degrees with
  | none =>
      ext <;> simp [ofDegrees, Vec3.turnBy, identity, rotate, Vec3.cross, Vec3.scale,
        Exact.ofNat_eq]
  | some r =>
      obtain ⟨hx, hy, hz⟩ := length_axes
      have hradians : ∀ a : ℝ, Scalar.radians a = a * Real.pi / 180 := by
        intro a
        rw [Scalar.radians, Exact.ofNat_eq]
        rfl
      have hyx : (ofAxisAngle ⟨0, 1, 0⟩ (Scalar.radians r.y) *
          ofAxisAngle ⟨1, 0, 0⟩ (Scalar.radians r.x)).square = 1 := by
        rw [square_mul, square_ofAxisAngle hy, square_ofAxisAngle hx, mul_one]
      rw [ofDegrees, ofEuler_eq, rotate_mul (square_ofAxisAngle hz _) hyx,
        rotate_mul (square_ofAxisAngle hy _) (square_ofAxisAngle hx _), rotate_ofAxisAngle_x,
        rotate_ofAxisAngle_y, rotate_ofAxisAngle_z, hradians, hradians, hradians, Vec3.turnBy]

end Quat

/-! ### Placements -/

theorem Quat.square_ofAxis (z : Vec3 ℝ) : (ofAxis z).square = 1 := square_normalize _

namespace BoneFrame

variable {name : String} {head tail : Vec3 ℝ} {epsilon : ℝ} {frame : BoneFrame ℝ}

theorem square_orientation (h : ofEnds name head tail epsilon = .ok frame) :
    frame.orientation.square = 1 := by
  rw [ofEnds_eq_ok h]
  exact Quat.square_ofAxis _

/-- A frame keeps distances, in bone lengths. -/
theorem length_point_sub (h : frame.orientation.square = 1) (offset offset' : Vec3 ℝ) :
    (frame.point offset' - frame.point offset).length =
      ((offset' - offset).scale frame.length).length := by
  have hoffset : offset'.scale frame.length =
      offset.scale frame.length + (offset' - offset).scale frame.length := by
    ext <;> simp only [Vec3.scale, Vec3.add_x, Vec3.add_y, Vec3.add_z, Vec3.sub_x, Vec3.sub_y,
      Vec3.sub_z] <;> ring
  have hpoint : frame.point offset' - frame.point offset =
      frame.orientation.rotate ((offset' - offset).scale frame.length) := by
    rw [point, point, hoffset, Quat.rotate_add]
    ext <;> simp
  rw [hpoint, Vec3.length, Vec3.length, Quat.dot_rotate h]

/-- Turns inside of a frame need no normalization. -/
theorem rotate_rotation (hframe : frame.orientation.square = 1) (degrees : Option (Vec3 ℝ))
    (v : Vec3 ℝ) :
    (frame.rotation degrees).rotate v = frame.orientation.rotate (v.turnBy degrees) := by
  have hdegrees := Quat.square_ofDegrees degrees
  have hproduct : (frame.orientation * Quat.ofDegrees degrees).square = 1 := by
    rw [Quat.square_mul, hframe, hdegrees, mul_one]
  rw [rotation, Quat.normalize_of_square hproduct, Quat.rotate_mul hframe hdegrees,
    Quat.rotate_ofDegrees]

/-- The matrix of a placement in the frame of a bone scales a point, turns it about the fixed
axes, moves it by the offset in bone lengths, and takes all this from the frame to the bone. -/
theorem transformPoint_place (h : ofEnds name head tail epsilon = .ok frame) (offset : Vec3 ℝ)
    (degrees : Option (Vec3 ℝ)) (scale p : Vec3 ℝ) :
    (frame.place offset degrees scale).matrix.transformPoint p =
      head + frame.orientation.rotate
        (offset.scale frame.length + (scale.hadamard p).turnBy degrees) := by
  have hhead : frame.head = head := by rw [ofEnds_eq_ok h]
  rw [Transform.transformPoint_matrix, place, rotate_rotation (square_orientation h), point, hhead,
    Quat.rotate_add]
  ext <;> simp [add_assoc]

/-- Ends that are far enough apart have a frame. -/
theorem exists_ofEnds (name : String) (h : epsilon ≤ (tail - head).length) :
    ∃ frame, ofEnds name head tail epsilon = .ok frame := by
  have hfinite : (head.isFinite && tail.isFinite) = true := rfl
  rw [ofEnds, if_pos hfinite, if_pos h]
  exact ⟨_, rfl⟩

/-- An arm of length five. -/
theorem exists_arm : ∃ frame, ofEnds "arm" (⟨1, 2, 3⟩ : Vec3 ℝ) ⟨4, 2, 7⟩ (1 / 1000) = .ok frame ∧
    frame.length = 5 := by
  have hlength : ((⟨4, 2, 7⟩ : Vec3 ℝ) - ⟨1, 2, 3⟩).length = 5 := by
    change √_ = _
    rw [Real.sqrt_eq_iff_mul_self_eq_of_pos (by norm_num)]
    norm_num [Vec3.dot]
  have hfar : 1 / 1000 ≤ ((⟨4, 2, 7⟩ : Vec3 ℝ) - ⟨1, 2, 3⟩).length := by
    rw [hlength]
    norm_num
  obtain ⟨frame, hframe⟩ := exists_ofEnds "arm" hfar
  exact ⟨frame, hframe, by rw [ofEnds_eq_ok hframe, hlength]⟩

/-- A rod at an arm: it is turned by a right angle and starts at a fifth of the arm. -/
theorem transformPoint_place_arm : ∃ frame,
    ofEnds "arm" (⟨1, 2, 3⟩ : Vec3 ℝ) ⟨4, 2, 7⟩ (1 / 1000) = .ok frame ∧ frame.length = 5 ∧
      (frame.place ⟨0, 0, 1 / 5⟩ (some ⟨0, 90, 0⟩) ⟨1, 1, 2⟩).matrix.transformPoint ⟨0, 0, 1⟩ =
        ⟨1, 2, 3⟩ + frame.orientation.rotate ⟨2, 0, 1⟩ := by
  obtain ⟨frame, hframe, hlength⟩ := exists_arm
  have hright : (90 * Real.pi / 180 : ℝ) = Real.pi / 2 := by ring
  have hrod : (⟨0, 0, 1 / 5⟩ : Vec3 ℝ).scale 5 +
      ((⟨1, 1, 2⟩ : Vec3 ℝ).hadamard ⟨0, 0, 1⟩).turnBy (some ⟨0, 90, 0⟩) = ⟨2, 0, 1⟩ := by
    ext <;> simp [Vec3.scale, Vec3.hadamard, Vec3.turnBy, Vec3.turnX, Vec3.turnY, Vec3.turnZ,
      hright]
  refine ⟨frame, hframe, hlength, ?_⟩
  rw [transformPoint_place hframe, hlength, hrod]

end BoneFrame

end Mannequin
