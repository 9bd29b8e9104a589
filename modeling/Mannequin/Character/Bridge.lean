import Mannequin.Character.BoneMesh
import Mannequin.Journal

/-!
# Bridges

The end of a mesh is bridged to the start of the mesh of a child bone when both
ask for it. Then both caps at the junction are left out. A request that the
other side does not answer is given up with a warning.

Meshes are linked where they stand, in two passes. The first one meets the requests at
starts or gives them up; the second one gives up the requests at ends that the first one
has not met.
-/

namespace Mannequin

/-- The end of the parent's mesh is bridged to the start of the child's. -/
structure Bridge where
  parent : String
  child : String
  deriving DecidableEq, Repr

/-- Bone meshes with the bridges between them. -/
structure Linked (α : Type) where
  meshes : List (BoneMesh α)
  bridges : List Bridge

/-- Bone meshes while they are linked. -/
structure Linking (α : Type) where
  meshes : List (BoneMesh α)
  /-- For every mesh, whether a bridge leads from its end. -/
  met : List Bool
  bridges : List Bridge

namespace Bridge

variable {α : Type}

/-- Why a request at a start is given up. -/
def noParent : String :=
  "connect_start='bridge' has no parent mesh bridging its end; kept segmented"

/-- Why a request at an end is given up. -/
def noChild : String :=
  "connect_end='bridge' has no child mesh bridging its start; kept segmented"

/-- The mesh of a parent with its position, if it asks for a bridge at its end. -/
def answer? (positions : NameMap Nat) (meshes : List (BoneMesh α)) (parent : Option String) :
    Option (Nat × BoneMesh α) :=
  parent.bind fun name =>
    (positions.get? name).bind fun i =>
      meshes[i]?.bind fun mesh => if mesh.connectEnd = .bridge then some (i, mesh) else none

/-- Meet the request at the start of the mesh at a position, or give it up. -/
def linkStart (positions : NameMap Nat) (l : Linking α) (i : Nat) : Journaled (Linking α) :=
  match l.meshes[i]? with
  | none => return l
  | some child =>
    if child.connectStart = .bridge then
      match answer? positions l.meshes child.parent with
      | some (j, parent) =>
        return {
          meshes := (l.meshes.modify j fun mesh => { mesh with capEnd := false }).modify i
            fun mesh => { mesh with capStart := false }
          met := l.met.modify j fun _ => true
          bridges := l.bridges ++ [⟨parent.bone, child.bone⟩] }
      | none => do
        Journaled.warn child.bone noParent
        return { l with
          meshes := l.meshes.modify i fun mesh => { mesh with connectStart := .segmented } }
    else return l

/-- Give up the request at the end of the mesh at a position, unless it has been met. -/
def linkEnd (l : Linking α) (i : Nat) : Journaled (Linking α) :=
  match l.meshes[i]? with
  | none => return l
  | some mesh =>
    if mesh.connectEnd = .bridge ∧ l.met[i]? ≠ some true then do
      Journaled.warn mesh.bone noChild
      return { l with
        meshes := l.meshes.modify i fun mesh => { mesh with connectEnd := .segmented } }
    else return l

/-- Link meshes by bridges. -/
def link (meshes : List (BoneMesh α)) : Journaled (Linked α) := do
  let positions := NameMap.positions (meshes.map BoneMesh.bone)
  let start : Linking α := ⟨meshes, meshes.map fun _ => false, []⟩
  let started ← (List.range meshes.length).foldlM (linkStart positions) start
  let ended ← (List.range meshes.length).foldlM linkEnd started
  return ⟨ended.meshes, ended.bridges⟩

end Bridge

end Mannequin
