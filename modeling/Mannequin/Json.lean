import Mannequin.Scalar
import Mannequin.NameMap

/-!
# JSON values

Values as recipes write them. Integers are kept apart from other numbers,
because counts and indices accept integers only. An object keeps its members as
they were written; they are looked at through a name map, in which the last of
several members of one name counts.
-/

namespace Mannequin

/-- A JSON value over a type of scalars. -/
inductive Json (α : Type) where
  | null
  | bool (value : Bool)
  | int (value : Int)
  | real (value : α)
  | str (value : String)
  | arr (items : List (Json α))
  | obj (members : List (String × Json α))

namespace Json

variable {α : Type}

instance : Inhabited (Json α) := ⟨null⟩

/-- The name of a value's type in messages. -/
def typeName : Json α → String
  | null => "null"
  | bool _ => "boolean"
  | int _ => "number"
  | real _ => "number"
  | str _ => "string"
  | arr _ => "array"
  | obj _ => "object"

def isNull : Json α → Bool
  | null => true
  | _ => false

/-- The members of an object by name; other values have none. -/
def members : Json α → NameMap (Json α)
  | obj written => NameMap.ofList written
  | _ => ∅

/-- The member of a name, if the value is an object that has it. -/
def member? (value : Json α) (name : String) : Option (Json α) := value.members.get? name

/-- The member of a name, null if there is none. -/
def member (value : Json α) (name : String) : Json α := (value.member? name).getD null

/-- Whether the value is an object with a member of the name. -/
def has (value : Json α) (name : String) : Bool := (value.member? name).isSome

/-- The member of a name unless it is absent or null. -/
def given? (value : Json α) (name : String) : Option (Json α) :=
  (value.member? name).filter (!·.isNull)

/-- The number a value stands for. -/
def number? [Scalar α] : Json α → Option α
  | int n => some (Scalar.ofInt n)
  | real x => some x
  | _ => none

end Json

end Mannequin
