import Mannequin.Renaming.Plan

/-!
# Planning merges and renamings

Vertex groups that are to become one group are merged, unless that group is to
change its own name. Merges come first; the entries that are left are renamed,
over the groups as the merges leave them.
-/

namespace Mannequin.Renaming

/-- Add the content of `source` to `target` and drop `source`. -/
structure Merge where
  source : String
  target : String
  deriving DecidableEq, Repr

/-- Merges, and the renaming after them. -/
structure GroupPlan where
  merges : List Merge
  renames : List Step
  deriving DecidableEq, Repr

/-- Whether a name is to become another one. -/
def IsMoving (mapping : NameMap String) (name : String) : Prop :=
  (mapping.get? name).any (· ≠ name) = true

instance (mapping : NameMap String) (name : String) : Decidable (IsMoving mapping name) :=
  inferInstanceAs (Decidable (_ = true))

/-- Whether the sources of a target are merged into it. -/
def IsMerged (mapping : NameMap String) (target : String) (sources : List String) : Prop :=
  1 < sources.length ∧ ¬ IsMoving mapping target

instance (mapping : NameMap String) (target : String) (sources : List String) :
    Decidable (IsMerged mapping target sources) := inferInstanceAs (Decidable (_ ∧ _))

/-- The merges of a mapping, by target and source. -/
def merges (mapping : NameMap String) : List Merge :=
  ((sourcesByTarget mapping).entries.filter fun e => IsMerged mapping e.1 e.2).flatMap
    fun e => e.2.map fun source => ⟨source, e.1⟩

/-- The entries of a mapping that are not merged. -/
def unmerged (mapping : NameMap String) : NameMap String :=
  NameMap.ofList <|
    ((sourcesByTarget mapping).entries.filter fun e => ¬ IsMerged mapping e.1 e.2).flatMap
      fun e => e.2.map fun source => (source, e.1)

/-- The names after a merge. -/
def Merge.apply (names : NameSet) (step : Merge) : NameSet :=
  NameSet.add (names.erase step.source) step.target

/-- The merges and the renaming steps that give the existing groups the names of the mapping. -/
def planGroups (mapping : NameMap String) (existing : NameSet) (tempPrefix : String) :
    Except Fault GroupPlan :=
  let steps := merges mapping
  match steps.find? fun step => step.source ∉ existing with
  | some step => .error (.mergeMissing step.source)
  | none => do
    let renames ← plan (unmerged mapping) (steps.foldl Merge.apply existing) tempPrefix
    return ⟨steps, renames⟩

end Mannequin.Renaming
