import Mannequin.Blueprint.BoneMesh

/-!
# Reflected definitions

A definition that is used on the opposite side of the body is reflected. The
frame of the opposite bone has its local `X` axis reversed, so offsets along `X`
change sign, and turns about `Y` and `Z` change direction.
-/

namespace Mannequin

variable {α : Type} [Scalar α]

namespace Vec3

/-- An offset on the other side. -/
def reflectOffset (v : Vec3 α) : Vec3 α := v.hadamard ⟨-1, 1, 1⟩

/-- Angles of turns about the axes, on the other side. -/
def reflectAngles (v : Vec3 α) : Vec3 α := v.hadamard ⟨1, -1, -1⟩

end Vec3

namespace Blueprint

def Primitive.reflect (p : Primitive α) : Primitive α :=
  { p with offset := p.offset.reflectOffset, rotation := p.rotation.map Vec3.reflectAngles }

def Extrusion.reflect (e : Extrusion α) : Extrusion α :=
  { e with start := e.start.reflectOffset, stop := e.stop.reflectOffset }

def Asset.reflect (a : Asset α) : Asset α :=
  { a with offset := a.offset.reflectOffset, rotation := a.rotation.map Vec3.reflectAngles }

def Attachment.reflect : Attachment α → Attachment α
  | .primitive shape => .primitive shape.reflect
  | .extrude shape => .extrude shape.reflect
  | .asset shape => .asset shape.reflect

def Shape.reflect : Shape α → Shape α
  | .primitive shape => .primitive shape.reflect
  | .asset shape => .asset shape.reflect

def PartOperation.reflect (o : PartOperation α) : PartOperation α :=
  { o with target := o.target.reflect }

def Part.reflect (p : Part α) : Part α :=
  { base := p.base.reflect, operations := p.operations.map PartOperation.reflect }

def Step.reflect (s : Step α) : Step α :=
  { s with translate := s.translate.reflectOffset, rotate := -s.rotate, tiltY := -s.tiltY }

/-- The definition for the opposite side. -/
def BoneMesh.reflect (m : BoneMesh α) : BoneMesh α :=
  { m with
    translate := m.translate.reflectOffset
    rotate := m.rotate.map Vec3.reflectAngles
    twist := -m.twist
    attachments := m.attachments.map Attachment.reflect
    steps := m.steps.map Step.reflect
    part := m.part.map Part.reflect }

end Blueprint

end Mannequin
