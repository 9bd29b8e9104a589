import Mannequin.Field
import Mannequin.Geometry.Mat4

/-!
# Bone frames

A bone runs from its head to its tail. Its frame measures it: the local `Z`
axis lies along the bone, and the local `Y` axis stays as close to the world's
`Y` axis as the bone allows. Recipes give offsets in bone lengths and rotations
in degrees; a frame turns them into placements in the world.
-/

namespace Mannequin

/-- Why a bone has no frame. -/
inductive FrameFault where
  | notFinite
  | degenerate (bone length bound : String)
  deriving DecidableEq, Repr

instance : Cause FrameFault where
  kind _ := .range
  message
    | .notFinite => "bone head/tail must be finite"
    | .degenerate bone length bound =>
      "degenerate bone '" ++ bone ++ "': length " ++ length ++ " is below " ++ bound

/-- The local frame of one bone. -/
structure BoneFrame (α : Type) where
  name : String
  head : Vec3 α
  tail : Vec3 α
  /-- The direction of the bone. -/
  axis : Vec3 α
  length : α
  orientation : Quat α
  deriving DecidableEq

variable {α : Type} [Scalar α]

namespace Quat

/-- The rotation that sends `Z` to an axis. Along the world's `Y` axis, where
no other direction is left to hold up, the world's `Z` axis takes its place. -/
def ofAxis (z : Vec3 α) : Quat α :=
  let up : Vec3 α :=
    if 1 - 1e-6 < Scalar.abs (z.dot ⟨0, 1, 0⟩) then ⟨0, 0, if 0 < z.y then -1 else 1⟩
    else ⟨0, 1, 0⟩
  let x := (up.cross z).normalize
  ofBasis x (z.cross x) z

/-- The turns by three angles in degrees; no angles, no turn. -/
def ofDegrees : Option (Vec3 α) → Quat α
  | none => identity
  | some r => ofEuler ⟨Scalar.radians r.x, Scalar.radians r.y, Scalar.radians r.z⟩

end Quat

namespace BoneFrame

/-- Where the bones of a skeleton are found. -/
def location (name : String) : Location := .key (.root "skeleton") name

/-- The frame of a bone whose ends are finite and at least `epsilon` apart. -/
def ofEnds (name : String) (head tail : Vec3 α) (epsilon : α) : Except Error (BoneFrame α) :=
  if head.isFinite && tail.isFinite then
    let delta := tail - head
    let length := delta.length
    if epsilon ≤ length then
      let axis := delta.scale (1 / length)
      .ok { name, head, tail, axis, length, orientation := Quat.ofAxis axis }
    else
      refuse (FrameFault.degenerate name (Scalar.text length) (Scalar.text epsilon))
        (location name).render
  else refuse FrameFault.notFinite (location name).render

/-- The point at an offset in bone lengths from the head. -/
def point (frame : BoneFrame α) (offset : Vec3 α) : Vec3 α :=
  frame.head + frame.orientation.rotate (offset.scale frame.length)

/-- A rotation in degrees inside the frame. -/
def rotation (frame : BoneFrame α) (degrees : Option (Vec3 α)) : Quat α :=
  (frame.orientation * Quat.ofDegrees degrees).normalize

/-- The placement at an offset in bone lengths with a rotation in degrees. -/
def place (frame : BoneFrame α) (offset : Vec3 α) (degrees : Option (Vec3 α)) (scale : Vec3 α) :
    Transform α :=
  ⟨frame.point offset, frame.rotation degrees, scale⟩

end BoneFrame

namespace Transform

/-- The placement at a point of the world with a rotation in degrees. -/
def absolute (position : Vec3 α) (degrees : Option (Vec3 α)) (scale : Vec3 α) : Transform α :=
  ⟨position, (Quat.ofDegrees degrees).normalize, scale⟩

end Transform

end Mannequin
