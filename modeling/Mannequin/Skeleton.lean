import Mannequin.Frame

/-!
# Skeletons

A skeleton is a list of bones with different names, each with its frame. Bones
are added one at a time; a bone that has no frame or whose name is taken is not
added.
-/

namespace Mannequin

/-- A bone. Roots have no parent. -/
structure Bone (α : Type) where
  name : String
  parent : Option String
  head : Vec3 α
  tail : Vec3 α
  deriving DecidableEq

/-- A bone with its frame. -/
structure Joint (α : Type) where
  bone : Bone α
  frame : BoneFrame α
  deriving DecidableEq

/-- The bones of a character, in order. -/
structure Skeleton (α : Type) where
  joints : List (Joint α)
  deriving DecidableEq

/-- Why bones make no skeleton. -/
inductive SkeletonFault where
  | notList (typeName : String)
  | noName
  | emptyName
  | duplicate (name : String)
  | unknownPreset (name : String) (known : List String)
  deriving DecidableEq, Repr

instance : Cause SkeletonFault where
  kind _ := .shape
  message
    | .notList typeName => "skeleton must be a list, got " ++ typeName
    | .noName => "bone entry requires 'bone'"
    | .emptyName => "bone name must not be empty"
    | .duplicate name => "duplicate bone '" ++ name ++ "'"
    | .unknownPreset name known =>
      "unknown skeleton preset '" ++ name ++ "' (known: " ++ ", ".intercalate known ++ ")"

namespace Skeleton

variable {α : Type}

def empty : Skeleton α := ⟨[]⟩

def bones (s : Skeleton α) : List (Bone α) := s.joints.map Joint.bone

def frames (s : Skeleton α) : List (BoneFrame α) := s.joints.map Joint.frame

/-- The names of the bones, in order. -/
def names (s : Skeleton α) : List String := s.bones.map Bone.name

def joint? (s : Skeleton α) (name : String) : Option (Joint α) :=
  s.joints.find? fun joint => joint.bone.name = name

def bone? (s : Skeleton α) (name : String) : Option (Bone α) := (s.joint? name).map Joint.bone

def frame? (s : Skeleton α) (name : String) : Option (BoneFrame α) :=
  (s.joint? name).map Joint.frame

def contains (s : Skeleton α) (name : String) : Bool := (s.joint? name).isSome

/-- Add a bone at the end. -/
def add [Scalar α] (s : Skeleton α) (bone : Bone α) (epsilon : α) : Except Error (Skeleton α) :=
  if s.contains bone.name then
    refuse (SkeletonFault.duplicate bone.name) (BoneFrame.location bone.name).render
  else do
    let frame ← BoneFrame.ofEnds bone.name bone.head bone.tail epsilon
    return ⟨s.joints ++ [⟨bone, frame⟩]⟩

/-- Add bones in order. -/
def addAll [Scalar α] (s : Skeleton α) (bones : List (Bone α)) (epsilon : α) :
    Except Error (Skeleton α) :=
  bones.foldlM (fun s bone => s.add bone epsilon) s

end Skeleton

end Mannequin
