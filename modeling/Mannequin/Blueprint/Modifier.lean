import Mannequin.Blueprint.Vocabulary

/-!
# Modifiers

A modifier changes a finished bone mesh: it rounds its edges, divides its faces,
or combines it with a named shape.
-/

namespace Mannequin.Blueprint

/-- A change to a finished mesh. -/
inductive Modifier (α : Type) where
  | bevel (width : α) (segments : Nat)
  | subdivide (cuts : Nat)
  /-- Combine with the bool shape of a name. -/
  | boolean (op : BoolOp) (target : String)
  deriving DecidableEq

namespace Modifier

variable {α : Type} [Scalar α]

/-- Read the body of a bevel. -/
def bevelOfJson (loc : Location) (body : Json α) : Except Error (Modifier α) := do
  Field.knownMembers loc ["width", "segments"] body
  let width ← Field.positiveNumber (.key loc "width") (body.member "width")
  let segments ← Field.optional loc body "segments" Field.count
  if segments = some 0 then refuse BlueprintFault.fewSegments (Location.key loc "segments").render
  return bevel width (segments.getD 1)

/-- Read the body of a subdivision. -/
def subdivideOfJson (loc : Location) (body : Json α) : Except Error (Modifier α) := do
  Field.knownMembers loc ["cuts"] body
  let cuts ← Field.count (.key loc "cuts") (body.member "cuts")
  if cuts = 0 then refuse BlueprintFault.fewCuts (Location.key loc "cuts").render
  return subdivide cuts

/-- Read the body of a boolean operation. -/
def booleanOfJson (loc : Location) (body : Json α) : Except Error (Modifier α) := do
  Field.knownMembers loc ["operation", "target"] body
  let op ← Field.optional loc body "operation" BoolOp.ofJson
  let target ← Field.string (.key loc "target") (body.member "target")
  return boolean (op.getD .difference) target

/-- Read a modifier. Its only member says which kind it is. -/
def ofJson (loc : Location) (value : Json α) : Except Error (Modifier α) := do
  Field.object loc value
  match value.members.entries with
  | [("bevel", body)] => bevelOfJson (.key loc "bevel") body
  | [("subdivide", body)] => subdivideOfJson (.key loc "subdivide") body
  | [("bool", body)] => booleanOfJson (.key loc "bool") body
  | _ => refuse BlueprintFault.modifierKind loc.render

end Modifier

end Mannequin.Blueprint
