import Mannequin.Geometry.Vec3

/-!
# Rotations

Rotations are unit quaternions, the scalar part first. They are made from an
axis and an angle, from three angles about the fixed axes, or from the images of
the axes, and they act on vectors.
-/

namespace Mannequin

/-- A quaternion, the scalar part first. -/
@[ext]
structure Quat (α : Type) where
  w : α
  x : α
  y : α
  z : α
  deriving DecidableEq

namespace Quat

variable {α : Type} [Scalar α]

def identity : Quat α := ⟨1, 0, 0, 0⟩

/-- The product: the right factor turns first. -/
def mul (a b : Quat α) : Quat α :=
  ⟨a.w * b.w - a.x * b.x - a.y * b.y - a.z * b.z,
   a.w * b.x + a.x * b.w + a.y * b.z - a.z * b.y,
   a.w * b.y - a.x * b.z + a.y * b.w + a.z * b.x,
   a.w * b.z + a.x * b.y - a.y * b.x + a.z * b.w⟩

instance : Mul (Quat α) := ⟨mul⟩

def length (q : Quat α) : α :=
  Scalar.sqrt (q.w * q.w + q.x * q.x + q.y * q.y + q.z * q.z)

/-- All components multiplied by one factor. -/
def scale (q : Quat α) (s : α) : Quat α := ⟨q.w * s, q.x * s, q.y * s, q.z * s⟩

/-- The unit quaternion of the same direction; one without a measurable length
gives the identity. -/
def normalize (q : Quat α) : Quat α :=
  if q.length ≤ 1e-12 then identity else q.scale (1 / q.length)

/-- The turn about an axis by an angle in radians. -/
def ofAxisAngle (axis : Vec3 α) (angle : α) : Quat α :=
  let n := axis.normalize
  let half := angle * 0.5
  let s := Scalar.sin half
  ⟨Scalar.cos half, n.x * s, n.y * s, n.z * s⟩

/-- The turns about the fixed axes by angles in radians, about `x` first and about `z` last. -/
def ofEuler (angles : Vec3 α) : Quat α :=
  ofAxisAngle ⟨0, 0, 1⟩ angles.z * (ofAxisAngle ⟨0, 1, 0⟩ angles.y * ofAxisAngle ⟨1, 0, 0⟩ angles.x)

/-- The rotation that sends the axes to three given vectors. It is recovered
from the sums and differences of the components of these vectors, divided by
the largest of its own components. -/
def ofBasis (c0 c1 c2 : Vec3 α) : Quat α :=
  let trace := c0.x + c1.y + c2.z
  normalize <|
    if 0 < trace then
      let s := Scalar.sqrt (trace + 1) * 2
      ⟨0.25 * s, (c1.z - c2.y) / s, (c2.x - c0.z) / s, (c0.y - c1.x) / s⟩
    else if c1.y < c0.x ∧ c2.z < c0.x then
      let s := Scalar.sqrt (1 + c0.x - c1.y - c2.z) * 2
      ⟨(c1.z - c2.y) / s, 0.25 * s, (c1.x + c0.y) / s, (c2.x + c0.z) / s⟩
    else if c2.z < c1.y then
      let s := Scalar.sqrt (1 + c1.y - c0.x - c2.z) * 2
      ⟨(c2.x - c0.z) / s, (c1.x + c0.y) / s, 0.25 * s, (c2.y + c1.z) / s⟩
    else
      let s := Scalar.sqrt (1 + c2.z - c0.x - c1.y) * 2
      ⟨(c0.y - c1.x) / s, (c2.x + c0.z) / s, (c2.y + c1.z) / s, 0.25 * s⟩

/-- The image of a vector: `v + 2 w (u × v) + 2 u × (u × v)` for the vector part `u`. -/
def rotate (q : Quat α) (v : Vec3 α) : Vec3 α :=
  let u : Vec3 α := ⟨q.x, q.y, q.z⟩
  let t := (u.cross v).scale 2
  v + t.scale q.w + u.cross t

theorem mul_def (a b : Quat α) : a * b = a.mul b := rfl

end Quat

end Mannequin
