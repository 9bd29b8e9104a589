import Mannequin.Blueprint.Vocabulary

/-!
# Extrusion steps

A segment can be drawn step by step. Each step extrudes its upper ring along the
bone and changes it on top of all steps before. Distances are in bone lengths,
angles in degrees. A bare number is a step that only extrudes.
-/

namespace Mannequin.Blueprint

/-- One extrusion of the upper ring. -/
structure Step (α : Type) where
  extrude : α
  scaleX : α
  scaleY : α
  translate : Vec3 α
  /-- The turn about the bone. -/
  rotate : α
  tiltX : α
  tiltY : α
  /-- The bulge to the sides, along the local `X` axis. -/
  bulgeSide : α
  /-- The bulge to the front, along the local `Y` axis. -/
  bulgeFront : α
  deriving DecidableEq

namespace Step

variable {α : Type} [Scalar α]

/-- The step that only extrudes. -/
def plain (extrude : α) : Step α := ⟨extrude, 1, 1, Vec3.zero, 0, 0, 0, 1, 1⟩

/-- Read two numbers, or one that counts for both. -/
def pair (read : Location → Json α → Except Error α) (loc : Location) :
    Json α → Except Error (α × α)
  | .arr [x, y] => do
    let x ← read (.item loc 0) x
    let y ← read (.item loc 1) y
    return (x, y)
  | .arr _ => refuse BlueprintFault.pairSize loc.render
  | value => do
    let x ← read loc value
    return (x, x)

/-- Read a step that is an object. -/
def ofObject (loc : Location) (value : Json α) : Except Error (Step α) := do
  Field.knownMembers loc ["extrude", "scale", "translate", "rotate", "tilt", "bulge"] value
  if value.has "extrude" = false then refuse BlueprintFault.noExtrude loc.render
  let extrude ← Field.positiveNumber (.key loc "extrude") (value.member "extrude")
  let scale ← Field.optional loc value "scale" (pair Field.positiveNumber)
  let translate ← Field.vectorOrZero loc value "translate"
  let rotate ← Field.optional loc value "rotate" Field.number
  let tilt ← Field.optional loc value "tilt" (pair Field.number)
  let bulge ← Field.optional loc value "bulge" (pair Field.positiveNumber)
  let (scaleX, scaleY) := scale.getD (1, 1)
  let (tiltX, tiltY) := tilt.getD (0, 0)
  let (bulgeSide, bulgeFront) := bulge.getD (1, 1)
  return { extrude, scaleX, scaleY, translate, rotate := rotate.getD 0, tiltX, tiltY, bulgeSide,
           bulgeFront }

/-- Read a step. -/
def ofJson (loc : Location) (value : Json α) : Except Error (Step α) :=
  match value with
  | .int _ => plain <$> Field.positiveNumber loc value
  | .real _ => plain <$> Field.positiveNumber loc value
  | _ => ofObject loc value

end Step

end Mannequin.Blueprint
