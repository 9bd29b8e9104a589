import Mannequin.Error
import Mannequin.Location
import Mannequin.Json
import Mannequin.Geometry.Vec3

/-!
# Checked fields

Readers for single fields of a recipe. Each takes the location of the field, so
a refusal names the field it belongs to. Truth values are never numbers, and a
number that is read is finite.
-/

namespace Mannequin

/-- Why a field is refused. -/
inductive FieldFault where
  /-- The field holds a value of another type. -/
  | expected (what got : String)
  | notTriple
  | unknownField (name : String)
  | notFinite (number : String)
  | notPositive (number : String)
  | tooLarge (n : Int)
  | negative (n : Int)
  deriving DecidableEq, Repr

instance : Cause FieldFault where
  kind
    | .expected _ _ => .shape
    | .notTriple => .shape
    | .unknownField _ => .shape
    | .notFinite _ => .range
    | .notPositive _ => .range
    | .tooLarge _ => .range
    | .negative _ => .range
  message
    | .expected what got => "expected " ++ what ++ ", got " ++ got
    | .notTriple => "expected an array of 3 numbers"
    | .unknownField name => "unknown field '" ++ name ++ "'"
    | .notFinite number => "expected a finite number, got " ++ number
    | .notPositive number => "expected a positive number, got " ++ number
    | .tooLarge n => "integer out of range: " ++ toString n
    | .negative n => "expected a non-negative integer, got " ++ toString n

namespace Field

variable {α : Type} [Scalar α]

/-- Counts and indices are below this bound. -/
def countLimit : Int := Int.pow 2 32

/-- Demand a finite number. -/
def finite (loc : Location) (x : α) : Except Error Unit :=
  if Scalar.isFinite x then .ok ()
  else refuse (FieldFault.notFinite (Scalar.text x)) loc.render

/-- Demand a finite number above zero. -/
def positive (loc : Location) (x : α) : Except Error Unit := do
  finite loc x
  if x ≤ 0 then refuse (FieldFault.notPositive (Scalar.text x)) loc.render

/-- A finite number. -/
def number (loc : Location) (value : Json α) : Except Error α :=
  match value.number? with
  | some x => do
    finite loc x
    return x
  | none => refuse (FieldFault.expected "a number" value.typeName) loc.render

/-- A finite number above zero. -/
def positiveNumber (loc : Location) (value : Json α) : Except Error α := do
  let x ← number loc value
  positive loc x
  return x

/-- A count or an index. -/
def count (loc : Location) : Json α → Except Error Nat
  | .int n =>
    if n < 0 then refuse (FieldFault.negative n) loc.render
    else if n < countLimit then .ok n.toNat
    else refuse (FieldFault.tooLarge n) loc.render
  | value => refuse (FieldFault.expected "an integer" value.typeName) loc.render

/-- A truth value. -/
def flag (loc : Location) : Json α → Except Error Bool
  | .bool b => .ok b
  | value => refuse (FieldFault.expected "a boolean" value.typeName) loc.render

/-- A string. -/
def string (loc : Location) : Json α → Except Error String
  | .str s => .ok s
  | value => refuse (FieldFault.expected "a string" value.typeName) loc.render

/-- A list of three finite numbers. -/
def vector (loc : Location) : Json α → Except Error (Vec3 α)
  | .arr [x, y, z] => do
    let x ← number (.item loc 0) x
    let y ← number (.item loc 1) y
    let z ← number (.item loc 2) z
    return ⟨x, y, z⟩
  | _ => refuse FieldFault.notTriple loc.render

/-- Demand an object. -/
def object (loc : Location) : Json α → Except Error Unit
  | .obj _ => .ok ()
  | value => refuse (FieldFault.expected "an object" value.typeName) loc.render

/-- Demand an object whose members all have known names. -/
def knownMembers (loc : Location) (known : List String) (value : Json α) : Except Error Unit := do
  object loc value
  match value.members.names.find? (fun name => !known.contains name) with
  | some name => refuse (FieldFault.unknownField name) loc.render
  | none => return ()

variable {β : Type}

/-- Read a member that may be absent. -/
def optional (loc : Location) (value : Json α) (name : String)
    (read : Location → Json α → Except Error β) : Except Error (Option β) :=
  match value.member? name with
  | some member => some <$> read (.key loc name) member
  | none => .ok none

/-- Read a member that may be absent or null. -/
def given (loc : Location) (value : Json α) (name : String)
    (read : Location → Json α → Except Error β) : Except Error (Option β) :=
  match value.given? name with
  | some member => some <$> read (.key loc name) member
  | none => .ok none

/-- Read the items of a list, the first of them at a given index. -/
def items (loc : Location) (read : Location → Json α → Except Error β) (index : Nat) :
    List (Json α) → Except Error (List β)
  | [] => .ok []
  | value :: rest => do
    let item ← read (.item loc index) value
    let others ← items loc read (index + 1) rest
    return item :: others

/-- A vector of three finite numbers above zero. -/
def positiveVector (loc : Location) (value : Json α) : Except Error (Vec3 α) := do
  let v ← vector loc value
  positive (.item loc 0) v.x
  positive (.item loc 1) v.y
  positive (.item loc 2) v.z
  return v

/-- A vector that may be absent or null; then it is zero. -/
def vectorOrZero (loc : Location) (value : Json α) (name : String) : Except Error (Vec3 α) := do
  let v ← given loc value name vector
  return v.getD Vec3.zero

end Field

end Mannequin
