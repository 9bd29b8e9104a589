import Mannequin.Journal
import Mannequin.Skeleton.Entry
import Mannequin.Skeleton.Preset

/-!
# Assembling a skeleton

A skeleton is assembled from base bones and a list of entries. An entry that
names a base bone changes what it says about it, any other plain entry adds a
bone. Then the mirror entries add the images of bones that are already there,
in order.

A parent that is not among the plain bones is dropped, and an entry whose
mirrored bone is missing is skipped; both are warnings.
-/

namespace Mannequin.Skeleton

variable {α : Type} [Scalar α]

/-- The base bones with the entries laid over them, then the bones that entries
add. A second entry for an added bone is refused. -/
def overlay (base added : List (Bone α)) : List (BoneEntry α) → Except Error (List (Bone α))
  | [] => .ok (base ++ added)
  | entry :: rest =>
    if base.any fun bone => bone.name = entry.name then
      overlay (base.map fun bone => if bone.name = entry.name then entry.override bone else bone)
        added rest
    else if added.any fun bone => bone.name = entry.name then
      refuse (SkeletonFault.duplicate entry.name) (BoneFrame.location entry.name).render
    else overlay base (added ++ [entry.bone]) rest

/-- Tell that a bone has lost its parent. -/
def reportParent (bone parent : String) : Journaled Unit :=
  Journaled.noteAs ("bone '" ++ bone ++ "': parent '" ++ parent ++ "' not found")
    ⟨bone, "parent '" ++ parent ++ "' not found"⟩

/-- A bone whose parent is dropped if it is not one of the given names. -/
def settleParent (names : List String) (bone : Bone α) : Journaled (Bone α) :=
  match bone.parent with
  | none => return bone
  | some parent =>
    if parent ∈ names then return bone
    else do
      reportParent bone.name parent
      return { bone with parent := none }

/-- Drop the parents that are not in the skeleton. -/
def settleParents (s : Skeleton α) : Journaled (Skeleton α) := do
  let joints ← s.joints.mapM fun joint => do
    return { joint with bone := ← settleParent s.names joint.bone }
  return ⟨joints⟩

/-- The image of a point on the other side. -/
def mirrorPoint (p : Vec3 α) : Vec3 α := ⟨-p.x, p.y, p.z⟩

/-- The image of a bone under a new name, among the bones that there are. Its parent is
the opposite of the source's parent if this is one of them, or else the same. -/
def imageOf (contains : String → Bool) (name : String) (source : Bone α) : Bone α :=
  { name
    parent := source.parent.map fun parent =>
      if contains (Side.mirrorName parent) then Side.mirrorName parent else parent
    head := mirrorPoint source.head
    tail := mirrorPoint source.tail }

/-- The image of a bone of a skeleton under a new name. -/
def mirrorBone (s : Skeleton α) (name : String) (source : Bone α) : Bone α :=
  imageOf s.contains name source

/-- Tell that an entry mirrors a bone that is missing. -/
def reportSource (bone mirror : String) : Journaled Unit :=
  Journaled.noteAs ("bone '" ++ bone ++ "': mirror source '" ++ mirror ++ "' not found")
    ⟨bone, "mirror source '" ++ mirror ++ "' not found"⟩

/-- Add the image of the bone that an entry mirrors. -/
def addMirror (epsilon : α) (s : Skeleton α) (name mirror : String) : Journaled (Skeleton α) :=
  match s.bone? mirror with
  | none => do
    reportSource name mirror
    return s
  | some source => s.add (s.mirrorBone name source) epsilon

/-- Assemble a skeleton from base bones and entries. -/
def assemble (base : List (Bone α)) (entries : List (BoneEntry α)) (epsilon : α) :
    Journaled (Skeleton α) := do
  let bones ← overlay base [] (entries.filter fun entry => entry.mirror.isNone)
  let plain ← empty.addAll bones epsilon
  let settled ← settleParents plain
  let mirrors := entries.filterMap fun entry => entry.mirror.map fun mirror => (entry.name, mirror)
  mirrors.foldlM (fun s (name, mirror) => addMirror epsilon s name mirror) settled

/-- The entries that a written list holds. -/
def readEntries : Json α → Except Error (List (BoneEntry α))
  | .arr items => Field.items (.root "skeleton") BoneEntry.ofJson 0 items
  | other => refuse (SkeletonFault.notList other.typeName) "skeleton"

/-- The skeleton that a written list describes on its own. -/
def ofList (list : Json α) (epsilon : α) : Journaled (Skeleton α) := do
  let entries ← readEntries list
  assemble [] entries epsilon

/-- Whether a written list says anything. -/
def IsGiven (list : Json α) : Prop :=
  match list with
  | .null => False
  | .arr [] => False
  | _ => True

instance (list : Json α) : Decidable (IsGiven list) := by
  unfold IsGiven
  split <;> infer_instance

/-- What a skeleton is to be assembled from. -/
structure Outline (α : Type) where
  base : List (Bone α)
  entries : List (BoneEntry α)

/-- What a preset and a written list describe: the bones of the preset with the list laid
over them. A list without a preset is the whole skeleton, and without either the standard
preset is taken. -/
def outline (preset list : Json α) : Journaled (Outline α) :=
  if preset.isNull ∧ IsGiven list then do
    let entries ← readEntries list
    return ⟨[], entries⟩
  else do
    let name ←
      if preset.isNull then do
        Journaled.info ("no skeleton given, using preset " ++ Preset.standard)
        pure Preset.standard
      else Field.string (.root "skeleton_preset") preset
    match Preset.bones? name with
    | none => refuse (SkeletonFault.unknownPreset name Preset.names) "skeleton_preset"
    | some base => do
      let entries ← readEntries (if list.isNull then .arr [] else list)
      return ⟨base, entries⟩

/-- The skeleton that a preset and a written list describe. -/
def ofRecipe (preset list : Json α) (epsilon : α) : Journaled (Skeleton α) := do
  let given ← outline preset list
  assemble given.base given.entries epsilon

end Mannequin.Skeleton
