import Mannequin.Blueprint.Modifier
import Mannequin.Blueprint.Part
import Mannequin.Blueprint.Step
import Mannequin.Deformation

/-!
# Bone mesh definitions

The definition of the mesh on one bone: the outline of its segment and how it
changes along the bone, or the part that takes its place; what is attached to
it; and the modifiers that finish it.
-/

namespace Mannequin.Blueprint

/-- The mesh on a bone. -/
structure BoneMesh (α : Type) where
  profile : Profile
  radius : Length α
  capStart : Bool
  capEnd : Bool
  taper : α
  /-- In the order of the definition. -/
  bulge : List (BulgePoint α)
  /-- Degrees over the whole segment. -/
  twist : α
  translate : Vec3 α
  rotate : Option (Vec3 α)
  attachments : List (Attachment α)
  modifiers : List (Modifier α)
  material : Option Nat
  steps : List (Step α)
  connectStart : ConnectMode
  connectEnd : ConnectMode
  part : Option (Part α)
  deriving DecidableEq

variable {α : Type} [Scalar α]

/-- Read a bulge point. -/
def bulgePoint (loc : Location) : Json α → Except Error (BulgePoint α)
  | .arr [position, scale] => do
    let position ← Field.number (.item loc 0) position
    let scale ← Field.positiveNumber (.item loc 1) scale
    return { position, scale }
  | .arr _ => refuse BlueprintFault.bulgePair loc.render
  | value => do
    Field.knownMembers loc ["at", "scale"] value
    if value.has "at" = false ∨ value.has "scale" = false then
      refuse BlueprintFault.bulgeMembers loc.render
    let position ← Field.number (.key loc "at") (value.member "at")
    let scale ← Field.positiveNumber (.key loc "scale") (value.member "scale")
    return { position, scale }

namespace BoneMesh

/-- The members of a definition. -/
def memberNames : List String :=
  ["profile", "profile_radius", "cap_start", "cap_end", "taper", "bulge", "twist", "translate",
   "rotate", "attachments", "modifiers", "material_index", "extrusion_steps", "connect_start",
   "connect_end", "part"]

/-- Demand that a part stands alone: it takes the place of the segment, so
nothing may say how the segment is drawn. -/
def partAlone (loc : Location) (value : Json α) (steps : List (Step α)) : Except Error Unit :=
  if steps.isEmpty = false then refuse BlueprintFault.partWithSteps loc.render
  else if value.has "taper" ∨ value.has "bulge" ∨ value.has "twist" then
    refuse BlueprintFault.partWithDeformation loc.render
  else .ok ()

/-- Read a definition. -/
def ofJson (loc : Location) (defaultSegments : Nat) (value : Json α) :
    Except Error (BoneMesh α) := do
  Field.knownMembers loc memberNames value
  let profile ← Profile.ofJson (.key loc "profile") defaultSegments (value.member "profile")
  let radius ← Field.given loc value "profile_radius" Length.ofJson
  let capStart ← Field.optional loc value "cap_start" Field.flag
  let capEnd ← Field.optional loc value "cap_end" Field.flag
  let taper ← Field.optional loc value "taper" Field.positiveNumber
  let twist ← Field.optional loc value "twist" Field.number
  let bulge ← list loc value "bulge" .bulgeList bulgePoint
  let translate ← Field.vectorOrZero loc value "translate"
  let rotate ← Field.given loc value "rotate" Field.vector
  let attachments ← list loc value "attachments" (.notList "attachments") Attachment.ofJson
  let modifiers ← list loc value "modifiers" (.notList "modifiers") Modifier.ofJson
  let material ← slotIndex loc value
  let steps ← list loc value "extrusion_steps" (.notList "extrusion_steps") Step.ofJson
  let connectStart ← Field.optional loc value "connect_start" ConnectMode.ofJson
  let connectEnd ← Field.optional loc value "connect_end" ConnectMode.ofJson
  let part ← Field.given loc value "part" Part.ofJson
  if part.isSome then partAlone loc value steps
  return {
    profile
    radius := radius.getD (.relative 0.1)
    capStart := capStart.getD true
    capEnd := capEnd.getD true
    taper := taper.getD 1
    bulge
    twist := twist.getD 0
    translate
    rotate
    attachments
    modifiers
    material
    steps
    connectStart := connectStart.getD .segmented
    connectEnd := connectEnd.getD .segmented
    part }

end BoneMesh

end Mannequin.Blueprint
