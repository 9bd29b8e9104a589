import Mannequin.Blueprint.Attachment

/-!
# Parts

A part is a modelled piece that takes the place of a bone's segment: a base
shape, and boolean operations that are applied to it in order. Its shapes are
primitives and assets.
-/

namespace Mannequin.Blueprint

/-- A shape of a part. -/
inductive Shape (α : Type) where
  | primitive (shape : Primitive α)
  | asset (shape : Asset α)
  deriving DecidableEq

/-- A boolean operation on a part. -/
structure PartOperation (α : Type) where
  op : BoolOp
  target : Shape α
  deriving DecidableEq

/-- A piece that takes the place of a segment. -/
structure Part (α : Type) where
  base : Shape α
  operations : List (PartOperation α)
  deriving DecidableEq

variable {α : Type} [Scalar α]

/-- Read a list of a definition. A list that is left out is empty. -/
def list {β : Type} (loc : Location) (value : Json α) (name : String) (fault : BlueprintFault)
    (read : Location → Json α → Except Error β) : Except Error (List β) :=
  match value.member? name with
  | none => .ok []
  | some (.arr items) => Field.items (.key loc name) read 0 items
  | some _ => refuse fault (Location.key loc name).render

namespace Shape

/-- Read a shape. Exactly one member says which kind it is. -/
def ofJson (loc : Location) (value : Json α) : Except Error (Shape α) := do
  Field.object loc value
  match value.has "primitive", value.has "asset" with
  | true, false => primitive <$> Primitive.ofJson loc value
  | false, true => asset <$> Asset.ofJson loc value
  | _, _ => refuse BlueprintFault.shapeKind loc.render

end Shape

namespace PartOperation

/-- Read an operation; a union unless it says otherwise. -/
def ofJson (loc : Location) (value : Json α) : Except Error (PartOperation α) := do
  Field.knownMembers loc ["op", "target"] value
  match value.member? "target" with
  | none => refuse BlueprintFault.noTarget loc.render
  | some shape =>
    let op ← Field.optional loc value "op" BoolOp.ofJson
    let target ← Shape.ofJson (.key loc "target") shape
    return { op := op.getD .union, target }

end PartOperation

namespace Part

/-- Read a part. -/
def ofJson (loc : Location) (value : Json α) : Except Error (Part α) := do
  Field.knownMembers loc ["base", "operations"] value
  match value.member? "base" with
  | none => refuse BlueprintFault.noBase loc.render
  | some shape =>
    let base ← Shape.ofJson (.key loc "base") shape
    let operations ← list loc value "operations" (.notList "operations") PartOperation.ofJson
    return { base, operations }

end Part

end Mannequin.Blueprint
