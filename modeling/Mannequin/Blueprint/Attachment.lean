import Mannequin.Blueprint.Vocabulary
import Mannequin.Length
import Mannequin.Profile

/-!
# Attachments

An attachment is a piece of geometry fixed to a bone: a primitive, an outline
extruded between two points, or an external asset. Offsets and dimensions are in
bone lengths, rotations in degrees.
-/

namespace Mannequin.Blueprint

/-- A primitive fixed to a bone. -/
structure Primitive (α : Type) where
  kind : PrimitiveKind
  dimensions : Vec3 α
  offset : Vec3 α
  rotation : Option (Vec3 α)
  material : Option Nat
  deriving DecidableEq

/-- An outline extruded from one point to another. -/
structure Extrusion (α : Type) where
  profile : Profile
  start : Vec3 α
  stop : Vec3 α
  radius : Length α
  taper : α
  deriving DecidableEq

/-- An external asset fixed to a bone. -/
structure Asset (α : Type) where
  path : String
  offset : Vec3 α
  rotation : Option (Vec3 α)
  scale : α
  deriving DecidableEq

/-- A piece of geometry fixed to a bone. -/
inductive Attachment (α : Type) where
  | primitive (shape : Primitive α)
  | extrude (shape : Extrusion α)
  | asset (shape : Asset α)
  deriving DecidableEq

variable {α : Type} [Scalar α]

/-- The index of a material slot, if one is given. -/
def slotIndex (loc : Location) (value : Json α) : Except Error (Option Nat) :=
  Field.given loc value "material_index" Field.count

namespace Primitive

/-- Read a primitive. -/
def ofJson (loc : Location) (value : Json α) : Except Error (Primitive α) := do
  Field.knownMembers loc ["primitive", "dimensions", "offset", "rotation", "material_index"] value
  if value.has "dimensions" = false then refuse BlueprintFault.noDimensions loc.render
  let kind ← PrimitiveKind.ofJson (.key loc "primitive") (value.member "primitive")
  let dimensions ← Field.positiveVector (.key loc "dimensions") (value.member "dimensions")
  let offset ← Field.vectorOrZero loc value "offset"
  let rotation ← Field.given loc value "rotation" Field.vector
  let material ← slotIndex loc value
  return { kind, dimensions, offset, rotation, material }

end Primitive

namespace Extrusion

/-- Read an extrusion. -/
def ofJson (loc : Location) (value : Json α) : Except Error (Extrusion α) := do
  Field.knownMembers loc ["profile", "start", "end", "profile_radius", "taper"] value
  if value.has "start" = false ∨ value.has "end" = false then
    refuse BlueprintFault.noSpan loc.render
  let profile ← Profile.ofJson (.key loc "profile") Profile.standardSegments
    (value.member "profile")
  let start ← Field.vector (.key loc "start") (value.member "start")
  let stop ← Field.vector (.key loc "end") (value.member "end")
  let radius ← Field.given loc value "profile_radius" Length.ofJson
  let taper ← Field.given loc value "taper" Field.positiveNumber
  return { profile, start, stop, radius := radius.getD (.relative 0.05), taper := taper.getD 1 }

end Extrusion

namespace Asset

/-- White space that does not make a path. -/
def isBlank (c : Char) : Bool := c = ' ' || c = '\t' || c = '\r' || c = '\n'

/-- Read an asset. -/
def ofJson (loc : Location) (value : Json α) : Except Error (Asset α) := do
  Field.knownMembers loc ["asset", "offset", "rotation", "scale"] value
  let path ← Field.string (.key loc "asset") (value.member "asset")
  if path.toList.all isBlank then refuse BlueprintFault.blankAsset (Location.key loc "asset").render
  let offset ← Field.vectorOrZero loc value "offset"
  let rotation ← Field.given loc value "rotation" Field.vector
  let scale ← Field.given loc value "scale" Field.positiveNumber
  return { path, offset, rotation, scale := scale.getD 1 }

end Asset

namespace Attachment

/-- Read an attachment. Exactly one member says which kind it is. -/
def ofJson (loc : Location) (value : Json α) : Except Error (Attachment α) := do
  Field.object loc value
  match value.has "primitive", value.member? "extrude", value.has "asset" with
  | true, none, false => primitive <$> Primitive.ofJson loc value
  | false, some body, false =>
    if value.members.size ≠ 1 then refuse BlueprintFault.extrudeNotAlone loc.render
    else
      Field.object (.key loc "extrude") body
      extrude <$> Extrusion.ofJson (.key loc "extrude") body
  | false, none, true => asset <$> Asset.ofJson loc value
  | _, _, _ => refuse BlueprintFault.attachmentKind loc.render

end Attachment

end Mannequin.Blueprint
