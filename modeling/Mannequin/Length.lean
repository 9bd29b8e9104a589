import Mannequin.Field

/-!
# Lengths

A length is written before its bone is known: as a multiple of the bone length,
as a pair of multiples, or in absolute units. Measuring it against a bone gives
the two radii of a cross-section.
-/

namespace Mannequin

/-- A length as it is written. -/
inductive Length (α : Type) where
  | relative (factor : α)
  | pair (first second : α)
  | absolute (value : α)
  deriving DecidableEq

/-- A measured length. A single one has two equal components and is not paired. -/
structure Extent (α : Type) where
  x : α
  y : α
  paired : Bool
  deriving DecidableEq

/-- Why a value is no length. -/
inductive LengthFault where
  | boolean
  | pairSize (size : Nat)
  | members
  | notLength (typeName : String)
  deriving DecidableEq, Repr

instance : Cause LengthFault where
  kind _ := .shape
  message
    | .boolean => "length must be a number, got boolean"
    | .pairSize size => "length pair must have exactly 2 elements, got " ++ toString size
    | .members => "length object must carry exactly one key 'absolute'"
    | .notLength typeName =>
      "length must be a number, a [x, y] pair or \x7babsolute: n\x7d, got " ++ typeName

namespace Length

variable {α : Type} [Scalar α]

/-- The length that a value writes. -/
def ofJson (loc : Location) (value : Json α) : Except Error (Length α) :=
  match value with
  | .bool _ => refuse LengthFault.boolean loc.render
  | .int _ => relative <$> Field.number loc value
  | .real _ => relative <$> Field.number loc value
  | .arr [first, second] => do
    let first ← Field.number (.item loc 0) first
    let second ← Field.number (.item loc 1) second
    return pair first second
  | .arr items => refuse (LengthFault.pairSize items.length) loc.render
  | .obj _ =>
    if value.members.size = 1 ∧ value.has "absolute" then
      absolute <$> Field.number (.key loc "absolute") (value.member "absolute")
    else refuse LengthFault.members loc.render
  | other => refuse (LengthFault.notLength other.typeName) loc.render

/-- A product that is a finite number above zero. -/
def scaled (loc : Location) (x factor : α) : Except Error α := do
  Field.positive loc (x * factor)
  return x * factor

/-- The length measured against a bone. -/
def measure (loc : Location) (boneLength : α) (length : Length α) : Except Error (Extent α) := do
  Field.positive (.root (loc.render ++ " (bone length)")) boneLength
  match length with
  | relative factor =>
    let x ← scaled loc factor boneLength
    return ⟨x, x, false⟩
  | pair first second =>
    let x ← scaled (.item loc 0) first boneLength
    let y ← scaled (.item loc 1) second boneLength
    return ⟨x, y, true⟩
  | absolute value =>
    let x ← scaled (.key loc "absolute") value 1
    return ⟨x, x, false⟩

/-- Read a length and measure it against a bone. -/
def measureJson (loc : Location) (boneLength : α) (value : Json α) : Except Error (Extent α) := do
  let length ← ofJson loc value
  measure loc boneLength length

end Length

end Mannequin
