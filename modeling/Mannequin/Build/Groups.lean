import Mannequin.Kernel
import Mannequin.Renaming.Groups
import Mannequin.Settings

/-!
# Vertex groups on a kernel

A mapping of vertex groups is planned first and then carried out on a mesh:
merges, then renaming steps. A mapping that cannot be planned asks nothing of
the kernel.
-/

namespace Mannequin.Build

variable {α : Type} (kernel : Kernel α)

/-- Carry out a merge. -/
def mergeGroup (mesh : Handle) (step : Renaming.Merge) : Building α Unit :=
  Building.edit kernel ("merge vertex group '" ++ step.source ++ "' into '" ++ step.target ++ "'")
    (.mergeGroup mesh step.source step.target)

/-- Carry out a renaming step. -/
def renameGroup (mesh : Handle) (step : Renaming.Step) : Building α Unit :=
  Building.edit kernel ("rename vertex group '" ++ step.source ++ "' to '" ++ step.target ++ "'")
    (.renameGroup mesh step.source step.target)

/-- Give the groups of a mesh the names of a mapping. The plan that was carried
out is the result. -/
def vertexGroups (mesh : Handle) (mapping : NameMap String) (existing : NameSet)
    (settings : Settings α) : Building α Renaming.GroupPlan := do
  match Renaming.planGroups mapping existing settings.tempPrefix with
  | .error fault => throw (Cause.error fault "")
  | .ok plan =>
    plan.merges.forM (mergeGroup kernel mesh)
    plan.renames.forM (renameGroup kernel mesh)
    if plan.merges.isEmpty = false ∨ plan.renames.isEmpty = false then
      Building.tell ⟨.info, "vertex groups: " ++ toString plan.merges.length ++ " merges, " ++
        toString plan.renames.length ++ " renames"⟩
    return plan

end Mannequin.Build

namespace Mannequin.Exchange

variable {α : Type}

/-- The names of the groups after an exchange. -/
def groups (names : NameSet) (exchange : Exchange α) : NameSet :=
  match exchange.call, exchange.reply with
  | .edit (.renameGroup _ source dest), .ok _ => NameSet.add (names.erase source) dest
  | .edit (.mergeGroup _ source dest), .ok _ => NameSet.add (names.erase source) dest
  | _, _ => names

end Mannequin.Exchange
