/-!
# Locations

A location leads from a named root of the input down through members of
objects and items of lists. Its rendering is the path that errors carry.
-/

namespace Mannequin

/-- A place in the input. -/
inductive Location where
  | root (name : String)
  | key (parent : Location) (name : String)
  | item (parent : Location) (index : Nat)
  deriving DecidableEq, Repr

namespace Location

/-- A member of the object at a path. Below an empty path the member's name stands alone. -/
def joinKey (path name : String) : String :=
  if path = "" then name else path ++ "." ++ name

/-- An item of the list at a path. -/
def joinIndex (path : String) (index : Nat) : String :=
  path ++ "[" ++ toString index ++ "]"

/-- The path of a location. -/
def render : Location → String
  | root name => name
  | key parent name => joinKey parent.render name
  | item parent index => joinIndex parent.render index

@[simp] theorem render_root (name : String) : (root name).render = name := rfl

@[simp] theorem render_key (parent : Location) (name : String) :
    (key parent name).render = joinKey parent.render name := rfl

@[simp] theorem render_item (parent : Location) (index : Nat) :
    (item parent index).render = joinIndex parent.render index := rfl

end Location

end Mannequin
