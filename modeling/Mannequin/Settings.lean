import Mannequin.Scalar
import Mannequin.Profile

/-!
# Settings

The choices that hold for a whole run rather than for one character.
-/

namespace Mannequin

/-- The choices of a run. -/
structure Settings (α : Type) where
  /-- What temporary names of vertex groups start with. -/
  tempPrefix : String
  /-- Bones shorter than this have no frame. -/
  degenerateEpsilon : α
  /-- The weight with which a mesh is bound to its bone. -/
  bindWeight : α
  /-- Whether a mesh for an unknown bone is an error and not only a warning. -/
  strictBones : Bool
  /-- The number of segments of a profile that is left out. -/
  defaultSegments : Nat
  deriving DecidableEq

namespace Settings

variable {α : Type} [Scalar α]

/-- The settings of a run that says nothing else. -/
def standard : Settings α :=
  { tempPrefix := "__armgen_tmp_"
    degenerateEpsilon := 1e-6
    bindWeight := 1
    strictBones := false
    defaultSegments := Profile.standardSegments }

instance : Inhabited (Settings α) := ⟨standard⟩

end Settings

end Mannequin
