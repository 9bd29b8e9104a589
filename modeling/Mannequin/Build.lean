import Mannequin.Character
import Mannequin.Kernel

/-!
# Building a character

A resolved character is built mesh by mesh on a kernel: the segment or the part
in its place, its deformation and open ends, the attachments, the modifiers in
order, and the binding to the bone. Then the bridges are made, and the meshes
that are left are joined to one. The first refused call ends the build.
-/

namespace Mannequin

/-- The mesh of a bone before it is bridged. -/
structure BuiltMesh where
  bone : String
  handle : Handle
  deriving DecidableEq, Repr

/-- A built character. -/
structure Built where
  /-- The whole character. -/
  mesh : Handle
  bones : List BuiltMesh
  deriving DecidableEq, Repr

/-- Why a character cannot be built, apart from refused calls. -/
inductive BuildFault where
  | noMeshes
  | unbuiltBridge (bridge : Bridge)
  deriving DecidableEq, Repr

namespace Bridge

/-- A bridge as it is named in messages. -/
def text (b : Bridge) : String := "bridge '" ++ b.parent ++ "' -> '" ++ b.child ++ "'"

end Bridge

instance : Cause BuildFault where
  kind
    | .noMeshes => .shape
    | .unbuiltBridge _ => .missingTarget
  message
    | .noMeshes => "no bone meshes to build"
    | .unbuiltBridge bridge => bridge.text ++ " names a bone without a mesh"

namespace Build

variable {α : Type} [Scalar α] (kernel : Kernel α)

/-- Deform a mesh, unless the field changes nothing. -/
def deform (what : String) (field : Deformation α) (mesh : Handle) : Building α Handle :=
  if field.IsIdentity then return mesh
  else Building.mesh kernel (what ++ " deform") (.deform mesh field)

/-- Create a piece. -/
def piece (what : String) (p : Piece α) : Building α Handle := do
  let mesh ← Building.mesh kernel what (.create p.form p.world.matrix)
  match p.field with
  | some field => deform kernel what field mesh
  | none => return mesh

/-- Apply the operations of a part, the first of them at a given index. -/
def partOperations (what : String) (mesh : Handle) (index : Nat) :
    List (PartOperation α) → Building α Handle
  | [] => return mesh
  | operation :: rest => do
    let here := what ++ " part operation " ++ toString index
    let operand ← piece kernel here operation.target
    let combined ← Building.mesh kernel (here ++ " " ++ operation.op.name)
      (.boolean mesh operand operation.op)
    partOperations what combined (index + 1) rest

/-- Build a part. -/
def part (what : String) (p : Part α) : Building α Handle := do
  let base ← piece kernel (what ++ " part") p.base
  partOperations kernel what base 0 p.operations

/-- Open the ends of a segment that have no cap. -/
def openEnds (what : String) (m : BoneMesh α) (mesh : Handle) : Building α Handle :=
  if m.capStart ∧ m.capEnd then return mesh
  else Building.mesh kernel (what ++ " caps") (.removeCaps mesh m.capStart m.capEnd)

/-- Build a segment. -/
def segment (what : String) (m : BoneMesh α) : Building α Handle := do
  let mesh ← Building.mesh kernel (what ++ " segment")
    (.create (.profile m.profile) m.segment.matrix)
  let deformed ← deform kernel what m.field mesh
  openEnds kernel what m deformed

/-- Create attachments, the first of them at a given index. -/
def attachments (what : String) (index : Nat) : List (Piece α) → Building α (List Handle)
  | [] => return []
  | p :: rest => do
    let mesh ← piece kernel (what ++ " attachment " ++ toString index) p
    let others ← attachments what (index + 1) rest
    return mesh :: others

/-- Join the attachments of a mesh to it. -/
def attach (what : String) (pieces : List (Piece α)) (mesh : Handle) : Building α Handle :=
  if pieces.isEmpty then return mesh
  else do
    let parts ← attachments kernel what 0 pieces
    Building.mesh kernel (what ++ " join attachments") (.join (mesh :: parts))

/-- Apply a modifier. -/
def modifier (shapes : NameMap (BoolShape α)) (what : String) (mesh : Handle) :
    Blueprint.Modifier α → Building α Handle
  | .bevel width segments =>
    Building.mesh kernel (what ++ " bevel") (.bevel mesh width segments)
  | .subdivide cuts => Building.mesh kernel (what ++ " subdivide") (.subdivide mesh cuts)
  | .boolean op target =>
    match shapes.get? target with
    | none => refuse (CharacterFault.unknownTarget target) what
    | some shape => do
      let operand ← piece kernel (what ++ " bool shape '" ++ target ++ "'") shape.piece
      Building.mesh kernel (what ++ " bool " ++ op.name) (.boolean mesh operand op)

/-- Build the mesh of a bone and bind it. -/
def boneMesh (shapes : NameMap (BoolShape α)) (weight : α) (m : BoneMesh α) :
    Building α Handle := do
  let what := "bone '" ++ m.bone ++ "'"
  let base ← match m.part with
    | some p => part kernel what p
    | none => segment kernel what m
  let attached ← attach kernel what m.attachments base
  let mesh ← m.modifiers.foldlM (modifier kernel shapes what) attached
  Building.edit kernel (what ++ " bind") (.bind mesh m.bone weight)
  return mesh

/-- The mesh that each bone is part of, after two meshes became one. -/
def merged (current : NameMap Handle) (parent child bridged : Handle) : NameMap Handle :=
  current.map fun _ mesh => if mesh = parent ∨ mesh = child then bridged else mesh

/-- Make a bridge. The map says which mesh each bone is part of. -/
def bridge (current : NameMap Handle) (b : Bridge) : Building α (NameMap Handle) :=
  match current.get? b.parent, current.get? b.child with
  | some parent, some child => do
    let bridged ← Building.mesh kernel b.text (.bridge parent child)
    return merged current parent child bridged
  | _, _ => refuse (BuildFault.unbuiltBridge b) "bridges"

/-- The items of a list without those that are there already. -/
def distinct (handles : List Handle) : List Handle :=
  handles.foldl (fun seen handle => if handle ∈ seen then seen else seen ++ [handle]) []

/-- Join meshes to one; a single mesh stays as it is. -/
def joinAll (parts : List Handle) : Building α Handle :=
  match parts with
  | [mesh] => return mesh
  | parts => Building.mesh kernel "join character" (.join parts)

/-- Build the meshes of bones in order. -/
def boneMeshes (settings : Settings α) (c : Character α) : Building α (List BuiltMesh) :=
  c.meshes.mapM fun m => do
    return ⟨m.bone, ← boneMesh kernel c.boolShapes settings.bindWeight m⟩

/-- Build a character that has meshes. -/
def assemble (settings : Settings α) (c : Character α) : Building α Built := do
  let bones ← boneMeshes kernel settings c
  let built := NameMap.ofList (bones.map fun b => (b.bone, b.handle))
  let current ← c.bridges.foldlM (bridge kernel) built
  let parts := distinct (bones.filterMap fun b => current.get? b.bone)
  let mesh ← joinAll kernel parts
  return { mesh, bones }

/-- The line that sums up a build. -/
def summary (c : Character α) : String :=
  "built character from " ++ toString c.meshes.length ++ " bone meshes, " ++
    toString c.bridges.length ++ " bridges"

/-- Build a character. A failure on the way is told to the log. -/
def character (settings : Settings α) (c : Character α) : Building α Built :=
  if c.meshes.isEmpty then refuse BuildFault.noMeshes "bone_meshes"
  else do
    let built ← Building.reporting (assemble kernel settings c)
    Building.tell ⟨.info, summary c⟩
    return built

end Build

end Mannequin
