import Mannequin.Scalar

/-!
# Vectors

Vectors of three scalars with the products that placing geometry needs.
Sums are taken from left to right.
-/

namespace Mannequin

/-- A vector or a point in space. -/
@[ext]
structure Vec3 (α : Type) where
  x : α
  y : α
  z : α
  deriving DecidableEq

namespace Vec3

variable {α : Type} [Scalar α]

def zero : Vec3 α := ⟨0, 0, 0⟩

/-- The vector with all components one. -/
def ones : Vec3 α := ⟨1, 1, 1⟩

instance : Add (Vec3 α) := ⟨fun a b => ⟨a.x + b.x, a.y + b.y, a.z + b.z⟩⟩

instance : Sub (Vec3 α) := ⟨fun a b => ⟨a.x - b.x, a.y - b.y, a.z - b.z⟩⟩

/-- All components multiplied by one factor. -/
def scale (a : Vec3 α) (s : α) : Vec3 α := ⟨a.x * s, a.y * s, a.z * s⟩

/-- The product component by component. -/
def hadamard (a b : Vec3 α) : Vec3 α := ⟨a.x * b.x, a.y * b.y, a.z * b.z⟩

def dot (a b : Vec3 α) : α := a.x * b.x + a.y * b.y + a.z * b.z

def cross (a b : Vec3 α) : Vec3 α :=
  ⟨a.y * b.z - a.z * b.y, a.z * b.x - a.x * b.z, a.x * b.y - a.y * b.x⟩

def length (a : Vec3 α) : α := Scalar.sqrt (a.dot a)

/-- The unit vector of the same direction; a vector without a measurable length gives zero. -/
def normalize (a : Vec3 α) : Vec3 α :=
  if a.length ≤ 1e-12 then zero else a.scale (1 / a.length)

/-- Whether all components are finite. -/
def isFinite (a : Vec3 α) : Bool :=
  Scalar.isFinite a.x && Scalar.isFinite a.y && Scalar.isFinite a.z

@[simp] theorem add_x (a b : Vec3 α) : (a + b).x = a.x + b.x := rfl

@[simp] theorem add_y (a b : Vec3 α) : (a + b).y = a.y + b.y := rfl

@[simp] theorem add_z (a b : Vec3 α) : (a + b).z = a.z + b.z := rfl

@[simp] theorem sub_x (a b : Vec3 α) : (a - b).x = a.x - b.x := rfl

@[simp] theorem sub_y (a b : Vec3 α) : (a - b).y = a.y - b.y := rfl

@[simp] theorem sub_z (a b : Vec3 α) : (a - b).z = a.z - b.z := rfl

end Vec3

end Mannequin
