import Mannequin.Kernel.Simulated
import Mannequin.Proofs.Kernel.Fresh

/-!
# Simulated kernels are reliable

A simulated kernel that refuses nothing numbers its meshes upwards. No live mesh has
the next number or a later one, and a mesh that is answered in place was taken by
the very call.
-/

namespace Mannequin.Simulated

variable {α : Type} {inPlace : Bool} {past : List (Exchange α)}

theorem mesh_answer (past : List (Exchange α)) (call : MeshCall α) :
    (kernel ⟨inPlace, none⟩).mesh past call =
      .ok ((reused? ⟨inPlace, none⟩ call).getD (nextHandle ⟨inPlace, none⟩ past)) := rfl

/-- A simulated kernel that refuses nothing never fails. -/
theorem neverFails (inPlace : Bool) : (kernel ⟨inPlace, none⟩ : Kernel α).NeverFails :=
  ⟨fun past call => ⟨_, mesh_answer past call⟩, fun _ _ => rfl⟩

theorem nextHandle_concat_mesh (s : Simulated) (past : List (Exchange α)) (call : MeshCall α)
    (made : Handle) :
    s.nextHandle (past ++ [⟨.mesh call, .ok (some made)⟩]) =
      if (s.reused? call).isNone then s.nextHandle past + 1 else s.nextHandle past := by
  rw [nextHandle, nextHandle, List.filter_append, List.length_append]
  by_cases h : (s.reused? call).isNone = true
  · simp [makes, h]
  · simp [makes, h]

theorem nextHandle_concat_edit (s : Simulated) (past : List (Exchange α)) (call : EditCall α) :
    s.nextHandle (past ++ [⟨.edit call, .ok none⟩]) = s.nextHandle past := by
  rw [nextHandle, nextHandle, List.filter_append, List.length_append]
  rfl

/-- A mesh that is answered in place is one that the call takes. -/
theorem mem_operands_of_reused? {s : Simulated} {call : MeshCall α} {mesh : Handle}
    (h : s.reused? call = some mesh) : mesh ∈ call.operands := by
  rw [reused?] at h
  split at h
  · exact List.mem_of_mem_head? h
  · cases h

/-- Live meshes have numbers that were given already. -/
theorem live_lt_nextHandle (h : (kernel ⟨inPlace, none⟩).Past past) {mesh : Handle}
    (hmesh : mesh ∈ Exchange.live past) :
    0 < mesh ∧ mesh < nextHandle ⟨inPlace, none⟩ past := by
  induction h with
  | start => simp [Exchange.live] at hmesh
  | @mesh past call made earlier live answer ih =>
      rw [mesh_answer, Except.ok.injEq] at answer
      rw [Exchange.live_concat, Exchange.track_mesh, Finset.mem_insert, Finset.mem_sdiff] at hmesh
      rw [nextHandle_concat_mesh]
      cases hreused : reused? ⟨inPlace, none⟩ call with
      | none =>
          rw [hreused, Option.getD_none] at answer
          rw [Option.isNone_none, if_pos rfl]
          rcases hmesh with rfl | ⟨hmem, -⟩
          · rw [← answer]
            exact ⟨Nat.succ_pos _, Nat.lt_succ_self _⟩
          · exact ⟨(ih hmem).1, Nat.lt_succ_of_lt (ih hmem).2⟩
      | some target =>
          rw [hreused, Option.getD_some] at answer
          rw [Option.isNone_some, if_neg Bool.false_ne_true]
          rcases hmesh with rfl | ⟨hmem, -⟩
          · exact ih (answer ▸ live target (mem_operands_of_reused? hreused))
          · exact ih hmem
  | edit _ _ _ ih =>
      rw [Exchange.live_concat, Exchange.track_edit] at hmesh
      rw [nextHandle_concat_edit]
      exact ih hmesh

/-- A simulated kernel that refuses nothing hands out fresh meshes, in place or not. -/
theorem fresh (inPlace : Bool) : (kernel ⟨inPlace, none⟩ : Kernel α).Fresh := by
  intro past call made hpast hlive hanswer
  rw [mesh_answer, Except.ok.injEq] at hanswer
  cases hreused : reused? ⟨inPlace, none⟩ call with
  | none =>
      rw [hreused, Option.getD_none] at hanswer
      obtain rfl := hanswer
      refine ⟨Nat.succ_ne_zero _, fun hmem => ?_⟩
      have hlt := (live_lt_nextHandle hpast (Finset.mem_sdiff.mp hmem).1).2
      exact Nat.lt_irrefl _ hlt
  | some target =>
      rw [hreused, Option.getD_some] at hanswer
      obtain rfl := hanswer
      have htaken := mem_operands_of_reused? hreused
      refine ⟨(live_lt_nextHandle hpast (hlive target htaken)).1.ne', fun hmem => ?_⟩
      exact (Finset.mem_sdiff.mp hmem).2 (List.mem_toFinset.mpr htaken)

/-- A simulated kernel that refuses nothing is reliable. -/
theorem reliable (inPlace : Bool) : (kernel ⟨inPlace, none⟩ : Kernel α).Reliable :=
  (fresh inPlace).reliable (neverFails inPlace)

end Mannequin.Simulated
