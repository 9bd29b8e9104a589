import Mannequin.Blueprint.BoneMesh
import Mannequin.Character.Piece
import Mannequin.Character.Rings
import Mannequin.Settings

/-!
# Bone meshes

The mesh on a bone with everything placed in the world: the segment or the part
in its place, the attachments, and the modifiers that finish it.
-/

namespace Mannequin

/-- A boolean operation on a part, its operand placed. -/
structure PartOperation (α : Type) where
  op : BoolOp
  target : Piece α
  deriving DecidableEq

/-- A part with its shapes placed. -/
structure Part (α : Type) where
  base : Piece α
  operations : List (PartOperation α)
  deriving DecidableEq

/-- The mesh on a bone, placed in the world. -/
structure BoneMesh (α : Type) where
  bone : String
  parent : Option String
  frame : BoneFrame α
  profile : Profile
  radius : Extent α
  /-- The scale holds the two radii and the height of the segment. -/
  segment : Transform α
  field : Deformation α
  capStart : Bool
  capEnd : Bool
  connectStart : ConnectMode
  connectEnd : ConnectMode
  part : Option (Part α)
  attachments : List (Piece α)
  modifiers : List (Blueprint.Modifier α)
  material : Option Nat
  deriving DecidableEq

variable {α : Type} [Scalar α]

namespace BoneMesh

/-- The radius of the cross-section at height `t` that the taper leaves. -/
def radiusAt (m : BoneMesh α) (t : α) : α := m.radius.x * m.field.taperScale t

/-- Where the definition of a bone's mesh is found. -/
def location (bone : String) : Location := .key (.root "bone_meshes") bone

end BoneMesh

namespace Blueprint

/-- The part with its shapes placed. -/
def Part.place (p : Part α) (frame : BoneFrame α) : Mannequin.Part α :=
  { base := p.base.place frame
    operations := p.operations.map fun o => ⟨o.op, o.target.place frame⟩ }

/-- Place attachments in order, the first of them at a given index. -/
def placeAttachments (loc : Location) (frame : BoneFrame α) (epsilon : α) (index : Nat) :
    List (Attachment α) → Except Error (List (Piece α))
  | [] => .ok []
  | a :: rest => do
    let piece ← a.place (.item loc index) frame epsilon
    let others ← placeAttachments loc frame epsilon (index + 1) rest
    return piece :: others

/-- The mesh of a definition on a bone. -/
def BoneMesh.place (m : BoneMesh α) (bone : String) (parent : Option String)
    (frame : BoneFrame α) (settings : Settings α) : Except Error (Mannequin.BoneMesh α) := do
  let loc := Mannequin.BoneMesh.location bone
  let radius ← Length.measure (.key loc "profile_radius") frame.length m.radius
  let drawing ← Step.draw loc m.steps
  let field ← Deformation.build loc m.taper m.bulge m.twist drawing.rings
  let attachments ←
    placeAttachments (.key loc "attachments") frame settings.degenerateEpsilon 0 m.attachments
  return {
    bone
    parent
    frame
    profile := m.profile
    radius
    segment :=
      frame.place m.translate m.rotate ⟨radius.x, radius.y, frame.length * drawing.height⟩
    field
    capStart := m.capStart
    capEnd := m.capEnd
    connectStart := m.connectStart
    connectEnd := m.connectEnd
    part := m.part.map (·.place frame)
    attachments
    modifiers := m.modifiers
    material := m.material }

end Blueprint

end Mannequin
