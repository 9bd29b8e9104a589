import Mannequin.Blueprint.Reflection
import Mannequin.Frame
import Mannequin.Proofs.Scalar.Exact

/-!
# Reflected frames

The mirror negates `X`. A rotation has an opposite, which does to mirrored vectors
what the rotation does to vectors: its quaternion has the last two components
negated, or is the negative of that, since both turn in the same way. Products and
turns by reflected angles, and the frames of mirrored bones, are opposite.
-/

namespace Mannequin

variable {α : Type} [Scalar α] [Scalar.Signed α]

namespace Vec3

/-- The image on the other side. -/
def mirror (v : Vec3 α) : Vec3 α := ⟨-v.x, v.y, v.z⟩

/-- The negative of the image on the other side, as the sideways axis of a frame has it. -/
def turned (v : Vec3 α) : Vec3 α := ⟨v.x, -v.y, -v.z⟩

/-- The opposite vector. -/
def negate (v : Vec3 α) : Vec3 α := ⟨-v.x, -v.y, -v.z⟩

@[simp] theorem reflectOffset_eq (v : Vec3 α) : v.reflectOffset = v.mirror := by
  ext <;> simp [reflectOffset, hadamard, mirror]

theorem mirror_add (v w : Vec3 α) : (v + w).mirror = v.mirror + w.mirror := by
  ext <;> simp [mirror]

theorem mirror_sub (v w : Vec3 α) : (v - w).mirror = v.mirror - w.mirror := by
  ext <;> simp [mirror]

theorem mirror_scale (v : Vec3 α) (s : α) : (v.scale s).mirror = v.mirror.scale s := by
  ext <;> simp [mirror, scale]

theorem turned_scale (v : Vec3 α) (s : α) : (v.scale s).turned = v.turned.scale s := by
  ext <;> simp [turned, scale]

theorem length_mirror (v : Vec3 α) : v.mirror.length = v.length := by
  simp [length, dot, mirror]

theorem length_turned (v : Vec3 α) : v.turned.length = v.length := by
  simp [length, dot, turned]

theorem normalize_turned (v : Vec3 α) : v.turned.normalize = v.normalize.turned := by
  rw [normalize, normalize, length_turned]
  split
  · simp [zero, turned]
  · rw [turned_scale]

theorem cross_turned_mirror (u v : Vec3 α) : u.turned.cross v.mirror = (u.cross v).mirror := by
  ext <;> simp [cross, turned, mirror]

theorem cross_mirror_turned (u v : Vec3 α) : u.mirror.cross v.turned = (u.cross v).mirror := by
  ext <;> simp [cross, turned, mirror]

/-- A vector across the body has a turned product with mirrored vectors. -/
theorem cross_mirror (y z : α) (v : Vec3 α) :
    (⟨0, y, z⟩ : Vec3 α).cross v.mirror = ((⟨0, y, z⟩ : Vec3 α).cross v).turned := by
  ext <;> simp [cross, turned, mirror]

theorem cross_negate_left (u v : Vec3 α) : u.negate.cross v = (u.cross v).negate := by
  ext <;> simp [cross, negate]

theorem cross_negate_negate (u v : Vec3 α) : u.negate.cross v.negate = u.cross v := by
  ext <;> simp [cross, negate]

theorem negate_scale (v : Vec3 α) (s : α) : (v.scale s).negate = v.negate.scale s := by
  ext <;> simp [negate, scale]

theorem negate_scale_neg (v : Vec3 α) (s : α) : v.negate.scale (-s) = v.scale s := by
  ext <;> simp [negate, scale]

end Vec3

namespace Quat

/-- The rotation on the other side. -/
def flip (q : Quat α) : Quat α := ⟨q.w, q.x, -q.y, -q.z⟩

/-- The quaternion with all components negated. It turns in the same way. -/
def neg (q : Quat α) : Quat α := ⟨-q.w, -q.x, -q.y, -q.z⟩

/-- Two rotations are opposite: one is the other on the other side, up to the sign of
the quaternion. -/
def Opposite (p q : Quat α) : Prop := q = p.flip ∨ q = p.flip.neg

theorem flip_mul (p q : Quat α) : (p * q).flip = p.flip * q.flip := by
  ext <;> simp [mul_def, mul, flip]

theorem neg_mul (p q : Quat α) : p.neg * q = (p * q).neg := by
  ext <;> simp [mul_def, mul, neg]

theorem mul_neg (p q : Quat α) : p * q.neg = (p * q).neg := by
  ext <;> simp [mul_def, mul, neg]

theorem neg_neg (q : Quat α) : q.neg.neg = q := by
  ext <;> simp [neg]

theorem length_flip (q : Quat α) : q.flip.length = q.length := by
  simp [length, flip]

theorem length_neg (q : Quat α) : q.neg.length = q.length := by
  simp [length, neg]

theorem flip_scale (q : Quat α) (s : α) : (q.scale s).flip = q.flip.scale s := by
  ext <;> simp [flip, scale]

theorem neg_scale (q : Quat α) (s : α) : (q.scale s).neg = q.neg.scale s := by
  ext <;> simp [neg, scale]

theorem rotate_neg (q : Quat α) (v : Vec3 α) : q.neg.rotate v = q.rotate v := by
  have hpart : (⟨q.neg.x, q.neg.y, q.neg.z⟩ : Vec3 α) = (⟨q.x, q.y, q.z⟩ : Vec3 α).negate := rfl
  simp only [rotate]
  rw [hpart, Vec3.cross_negate_left, ← Vec3.negate_scale, Vec3.cross_negate_negate]
  exact congrArg (v + · + _) (Vec3.negate_scale_neg _ q.w)

theorem rotate_flip (q : Quat α) (v : Vec3 α) :
    q.flip.rotate v.mirror = (q.rotate v).mirror := by
  have hcross := Vec3.cross_turned_mirror (⟨q.x, q.y, q.z⟩ : Vec3 α) v
  have hpart : (⟨q.flip.x, q.flip.y, q.flip.z⟩ : Vec3 α) = (⟨q.x, q.y, q.z⟩ : Vec3 α).turned := rfl
  simp only [rotate]
  rw [hpart, hcross, ← Vec3.mirror_scale, Vec3.cross_turned_mirror, Vec3.mirror_add,
    Vec3.mirror_add, Vec3.mirror_scale _ q.w]
  rfl

namespace Opposite

variable {p q p' q' : Quat α}

theorem identity : Opposite (identity : Quat α) Quat.identity := by
  left
  ext <;> simp [flip, Quat.identity]

theorem mul (h : Opposite p q) (h' : Opposite p' q') : Opposite (p * p') (q * q') := by
  rcases h with rfl | rfl <;> rcases h' with rfl | rfl
  · exact .inl (flip_mul p p').symm
  · exact .inr (by rw [mul_neg, flip_mul])
  · exact .inr (by rw [neg_mul, flip_mul])
  · exact .inl (by rw [neg_mul, mul_neg, neg_neg, flip_mul])

theorem length (h : Opposite p q) : q.length = p.length := by
  rcases h with rfl | rfl
  · exact length_flip p
  · rw [length_neg, length_flip]

theorem normalize (h : Opposite p q) : Opposite p.normalize q.normalize := by
  rw [Quat.normalize, Quat.normalize, h.length]
  split
  · exact identity
  · rcases h with rfl | rfl
    · exact .inl (flip_scale p _).symm
    · exact .inr (by rw [flip_scale, neg_scale])

/-- An opposite rotation does to mirrored vectors what the rotation does to vectors. -/
theorem rotate (h : Opposite p q) (v : Vec3 α) : q.rotate v.mirror = (p.rotate v).mirror := by
  rcases h with rfl | rfl
  · exact rotate_flip p v
  · rw [rotate_neg, rotate_flip]

end Opposite

/-! ### Rotations from vectors and angles -/

private theorem sub_div_neg (a b s : α) : (-a - -b) / s = -((a - b) / s) := by
  rw [← Scalar.Signed.neg_sub, Scalar.Signed.neg_div]

private theorem add_div_neg (a b s : α) : (-a + -b) / s = -((a + b) / s) := by
  rw [← Scalar.Signed.neg_add, Scalar.Signed.neg_div]

/-- The branch that recovers a rotation is the same on the other side. -/
theorem opposite_ofBasis (x y z : Vec3 α) :
    Opposite (ofBasis x y z) (ofBasis x.turned y.mirror z.mirror) := by
  simp only [ofBasis, Vec3.turned, Vec3.mirror]
  apply Opposite.normalize
  by_cases htrace : 0 < x.x + y.y + z.z
  · simp only [htrace, if_true]
    left
    ext <;> simp [flip, sub_div_neg]
  · by_cases hx : y.y < x.x ∧ z.z < x.x
    · simp only [htrace, hx, and_self, if_true, if_false]
      left
      ext <;> simp [flip, add_div_neg]
    · by_cases hy : z.z < y.y
      · simp only [htrace, hx, hy, if_true, if_false]
        right
        ext <;> simp [flip, neg, add_div_neg, sub_div_neg]
      · simp only [htrace, hx, hy, if_false]
        right
        ext <;> simp [flip, neg, add_div_neg, sub_div_neg]

/-- The frame of a mirrored axis is opposite, whichever direction is held up. -/
theorem opposite_ofAxis (z : Vec3 α) : Opposite (ofAxis z) (ofAxis z.mirror) := by
  have hheld : ∀ a b : α,
      let x := ((⟨0, a, b⟩ : Vec3 α).cross z).normalize
      let x' := ((⟨0, a, b⟩ : Vec3 α).cross z.mirror).normalize
      Opposite (ofBasis x (z.cross x) z) (ofBasis x' (z.mirror.cross x') z.mirror) := by
    intro a b x x'
    have hx : x' = x.turned := by
      simp only [x, x']
      rw [Vec3.cross_mirror, Vec3.normalize_turned]
    rw [hx, Vec3.cross_mirror_turned]
    exact opposite_ofBasis x (z.cross x) z
  have hdot : z.mirror.dot ⟨0, 1, 0⟩ = z.dot ⟨0, 1, 0⟩ := by
    simp [Vec3.dot, Vec3.mirror]
  rw [ofAxis, ofAxis, hdot]
  split
  · exact hheld 0 _
  · exact hheld 1 0

theorem ofAxisAngle_x (angle : α) :
    (ofAxisAngle ⟨1, 0, 0⟩ angle).flip = ofAxisAngle ⟨1, 0, 0⟩ angle := by
  have hy : (⟨1, 0, 0⟩ : Vec3 α).normalize.y = 0 := by
    rw [Vec3.normalize]
    split <;> simp [Vec3.zero, Vec3.scale]
  have hz : (⟨1, 0, 0⟩ : Vec3 α).normalize.z = 0 := by
    rw [Vec3.normalize]
    split <;> simp [Vec3.zero, Vec3.scale]
  simp [ofAxisAngle, flip, hy, hz]

/-- A turn about an axis that lies in the mirror is reversed on the other side. -/
theorem ofAxisAngle_neg (y z angle : α) :
    ofAxisAngle ⟨0, y, z⟩ (-angle) = (ofAxisAngle ⟨0, y, z⟩ angle).flip := by
  have hx : (⟨0, y, z⟩ : Vec3 α).normalize.x = 0 := by
    rw [Vec3.normalize]
    split <;> simp [Vec3.zero, Vec3.scale]
  simp [ofAxisAngle, flip, hx]

theorem opposite_ofDegrees (degrees : Option (Vec3 α)) :
    Opposite (ofDegrees degrees) (ofDegrees (degrees.map Vec3.reflectAngles)) := by
  cases degrees with
  | none => exact .identity
  | some r =>
      left
      simp only [ofDegrees, Option.map_some, ofEuler, Vec3.reflectAngles, Vec3.hadamard]
      have hneg : ∀ a : α, Scalar.radians (a * -1) = -Scalar.radians a := by
        intro a
        simp [Scalar.radians]
      rw [hneg, hneg, Scalar.Signed.mul_one, ofAxisAngle_neg, ofAxisAngle_neg, flip_mul, flip_mul,
        ofAxisAngle_x]

end Quat

/-! ### Frames and placements -/

/-- Two frames are opposite: the second is that of the mirrored bone. -/
structure BoneFrame.Opposite (f g : BoneFrame α) : Prop where
  head : g.head = f.head.mirror
  length : g.length = f.length
  orientation : Quat.Opposite f.orientation g.orientation

/-- Two placements are opposite: the second is at the mirrored point, of the same size,
and turns mirrored vectors into the mirrored images. -/
structure Transform.Opposite (t u : Transform α) : Prop where
  position : u.position = t.position.mirror
  scale : u.scale = t.scale
  rotation : ∀ v, u.rotation.rotate v.mirror = (t.rotation.rotate v).mirror

namespace BoneFrame

omit [Scalar.Signed α] in
theorem ofEnds_eq_ok {name : String} {head tail : Vec3 α} {epsilon : α} {f : BoneFrame α}
    (h : ofEnds name head tail epsilon = .ok f) :
    f = { name, head, tail
          axis := (tail - head).scale (1 / (tail - head).length)
          length := (tail - head).length
          orientation := Quat.ofAxis ((tail - head).scale (1 / (tail - head).length)) } := by
  simp only [ofEnds] at h
  split at h
  · split at h
    · cases h
      rfl
    · cases h
  · cases h

omit [Scalar.Signed α] in
theorem le_length_of_ofEnds {name : String} {head tail : Vec3 α} {epsilon : α}
    {f : BoneFrame α} (h : ofEnds name head tail epsilon = .ok f) : epsilon ≤ f.length := by
  simp only [ofEnds] at h
  split at h
  · split at h
    case isTrue hle =>
      cases h
      exact hle
    case isFalse => cases h
  · cases h

/-- The frames of mirrored ends are opposite. -/
theorem opposite_ofEnds {name name' : String} {head tail : Vec3 α} {epsilon epsilon' : α}
    {f g : BoneFrame α} (hf : ofEnds name head tail epsilon = .ok f)
    (hg : ofEnds name' head.mirror tail.mirror epsilon' = .ok g) : Opposite f g := by
  rw [ofEnds_eq_ok hf, ofEnds_eq_ok hg]
  rw [← Vec3.mirror_sub, Vec3.length_mirror, ← Vec3.mirror_scale]
  exact ⟨rfl, rfl, Quat.opposite_ofAxis _⟩

namespace Opposite

variable {f g : BoneFrame α}

theorem point (h : Opposite f g) (offset : Vec3 α) :
    g.point offset.mirror = (f.point offset).mirror := by
  rw [BoneFrame.point, BoneFrame.point, h.head, h.length, ← Vec3.mirror_scale,
    h.orientation.rotate, Vec3.mirror_add]

theorem rotation (h : Opposite f g) (degrees : Option (Vec3 α)) :
    Quat.Opposite (f.rotation degrees) (g.rotation (degrees.map Vec3.reflectAngles)) :=
  (h.orientation.mul (Quat.opposite_ofDegrees degrees)).normalize

theorem place (h : Opposite f g) (offset : Vec3 α) (degrees : Option (Vec3 α)) (scale : Vec3 α) :
    (f.place offset degrees scale).Opposite
      (g.place offset.mirror (degrees.map Vec3.reflectAngles) scale) :=
  ⟨h.point offset, rfl, (h.rotation degrees).rotate⟩

end Opposite

end BoneFrame

end Mannequin
