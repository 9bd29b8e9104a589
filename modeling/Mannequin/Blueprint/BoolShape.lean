import Mannequin.Blueprint.Vocabulary

/-!
# Bool shapes

A named primitive that boolean modifiers combine with bone meshes. With an
anchor its position and dimensions are in lengths of that bone, without one they
are in units of the world.
-/

namespace Mannequin.Blueprint

/-- A named primitive for boolean modifiers. -/
structure BoolShape (α : Type) where
  kind : PrimitiveKind
  dimensions : Vec3 α
  position : Vec3 α
  rotation : Option (Vec3 α)
  /-- The bone that the shape is anchored to. -/
  bone : Option String
  deriving DecidableEq

namespace BoolShape

variable {α : Type} [Scalar α]

/-- Read a shape. -/
def ofJson (loc : Location) (value : Json α) : Except Error (BoolShape α) := do
  Field.knownMembers loc ["primitive", "dimensions", "position", "rotation", "bone"] value
  if value.has "dimensions" = false ∨ value.has "position" = false then
    refuse BlueprintFault.noPlacement loc.render
  let kind ← PrimitiveKind.ofJson (.key loc "primitive") (value.member "primitive")
  let dimensions ← Field.positiveVector (.key loc "dimensions") (value.member "dimensions")
  let position ← Field.vector (.key loc "position") (value.member "position")
  let rotation ← Field.given loc value "rotation" Field.vector
  let bone ← Field.given loc value "bone" Field.string
  return { kind, dimensions, position, rotation, bone }

end BoolShape

end Mannequin.Blueprint
