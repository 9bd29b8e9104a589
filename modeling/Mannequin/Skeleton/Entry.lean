import Mannequin.Skeleton

/-!
# Skeleton entries

A recipe lists bones as entries. An entry may leave out the ends and the parent
of its bone, and it may name another bone that it mirrors.
-/

namespace Mannequin

/-- An entry for a bone. An empty parent makes the bone a root. -/
structure BoneEntry (α : Type) where
  name : String
  head : Option (Vec3 α)
  tail : Option (Vec3 α)
  parent : Option String
  /-- The bone this one is the mirror image of. -/
  mirror : Option String
  deriving DecidableEq

namespace BoneEntry

variable {α : Type} [Scalar α]

/-- A name, unless it is empty. -/
def nonempty? (name : String) : Option String := if name = "" then none else some name

/-- Read an entry. -/
def ofJson (loc : Location) (value : Json α) : Except Error (BoneEntry α) := do
  Field.knownMembers loc ["bone", "head", "tail", "parent", "mirror"] value
  match value.member? "bone" with
  | none => refuse SkeletonFault.noName loc.render
  | some bone =>
    let name ← Field.string (.key loc "bone") bone
    if name = "" then refuse SkeletonFault.emptyName (Location.key loc "bone").render
    let head ← Field.optional loc value "head" Field.vector
    let tail ← Field.optional loc value "tail" Field.vector
    let parent ← Field.given loc value "parent" Field.string
    let mirror ← Field.given loc value "mirror" Field.string
    return { name, head, tail, parent, mirror := mirror.bind nonempty? }

/-- The bone of an entry on its own. -/
def bone (entry : BoneEntry α) : Bone α :=
  { name := entry.name
    parent := entry.parent.bind nonempty?
    head := entry.head.getD Vec3.zero
    tail := entry.tail.getD ⟨0, 0, 0.1⟩ }

/-- A bone with what an entry says about it. -/
def override (entry : BoneEntry α) (bone : Bone α) : Bone α :=
  { bone with
    parent := match entry.parent with
      | some parent => nonempty? parent
      | none => bone.parent
    head := entry.head.getD bone.head
    tail := entry.tail.getD bone.tail }

end BoneEntry

end Mannequin
