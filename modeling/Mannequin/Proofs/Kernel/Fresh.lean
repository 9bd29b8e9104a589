import Mannequin.Proofs.Kernel.Asking
import Mannequin.Proofs.Kernel.Custody

/-!
# Fresh meshes

A call may be passed one live mesh twice. A kernel hands out fresh meshes if it never
answers with one that stays live, whatever live meshes it was passed before. If it
never fails either, it is reliable.
-/

namespace Mannequin

variable {α : Type} {kernel : Kernel α} {exchanges : List (Exchange α)}

namespace Kernel

/-- The exchanges with a kernel that can come about by calls that are passed live meshes. -/
inductive Past (kernel : Kernel α) : List (Exchange α) → Prop
  | start : Past kernel []
  | mesh {past : List (Exchange α)} {call : MeshCall α} {made : Handle}
      (earlier : Past kernel past) (live : ∀ mesh ∈ call.operands, mesh ∈ Exchange.live past)
      (answer : kernel.mesh past call = .ok made) :
      Past kernel (past ++ [⟨.mesh call, .ok (some made)⟩])
  | edit {past : List (Exchange α)} {call : EditCall α}
      (earlier : Past kernel past) (live : call.target ∈ Exchange.live past)
      (answer : kernel.edit past call = .ok ()) :
      Past kernel (past ++ [⟨.edit call, .ok none⟩])

theorem History.past (h : kernel.History exchanges) : kernel.Past exchanges := by
  induction h with
  | start => exact .start
  | mesh _ proper answer ih => exact .mesh ih proper.live answer
  | edit _ proper answer ih => exact .edit ih (proper.live _ List.mem_cons_self) answer

/-- A kernel hands out no mesh that stays live, and never the invalid one. -/
def Fresh (kernel : Kernel α) : Prop :=
  ∀ past call made, kernel.Past past → (∀ mesh ∈ call.operands, mesh ∈ Exchange.live past) →
    kernel.mesh past call = .ok made →
      made ≠ Handle.invalid ∧ made ∉ Exchange.live past \ call.operands.toFinset

/-- A kernel that never fails and hands out fresh meshes is reliable. -/
theorem Fresh.reliable (hfresh : kernel.Fresh) (hk : kernel.NeverFails) : kernel.Reliable := by
  constructor
  · intro past call hpast hproper
    obtain ⟨made, hanswer⟩ := hk.mesh past call
    obtain ⟨hvalid, hnew⟩ := hfresh past call made hpast.past hproper.live hanswer
    exact ⟨made, hanswer, hvalid, hnew⟩
  · intro past call _ _
    exact hk.edit past call

end Kernel

end Mannequin
