import Std.Data.String.ToNat
import Mannequin.Proofs.NameMap
import Mannequin.Renaming.Plan

/-!
# Temporary names are free

The candidates for a temporary name are pairwise different, so among one more of
them than there are taken names there is a free one. A search that goes on until
it meets a free candidate therefore ends, and it ends on the name that is given.
-/

namespace Mannequin.Renaming

theorem candidate_zero (base : String) : candidate base 0 = base := if_pos rfl

theorem candidate_succ (base : String) (n : Nat) :
    candidate base (n + 1) = base ++ "_" ++ toString (n + 1) := if_neg (Nat.succ_ne_zero n)

private theorem candidate_succ_ne (base : String) (n : Nat) : candidate base (n + 1) ≠ base := by
  intro h
  have hlength := congrArg String.length h
  rw [candidate_succ, String.length_append, String.length_append] at hlength
  have hmark : ("_" : String).length = 1 := rfl
  omega

theorem candidate_injective (base : String) : Function.Injective (candidate base) := by
  intro m n h
  cases m with
  | zero =>
      cases n with
      | zero => rfl
      | succ n => exact absurd (h.symm.trans (candidate_zero base)) (candidate_succ_ne base n)
  | succ m =>
      cases n with
      | zero => exact absurd (h.trans (candidate_zero base)) (candidate_succ_ne base m)
      | succ n =>
          rw [candidate_succ, candidate_succ, String.append_right_inj] at h
          exact Nat.repr_injective h

/-- A search that ends on a taken name has met taken names only. -/
theorem candidate_mem_of_firstFree_mem {taken : NameSet} {base : String} {tries n : Nat}
    (h : firstFree taken base tries n ∈ taken) :
    ∀ i, i ≤ tries → candidate base (n + i) ∈ taken := by
  induction tries generalizing n with
  | zero =>
      intro i hi
      obtain rfl : i = 0 := Nat.le_zero.mp hi
      exact h
  | succ tries ih =>
      rw [firstFree] at h
      split at h
      · rename_i hfirst
        intro i hi
        cases i with
        | zero => exact hfirst
        | succ i =>
            have hnext := ih h i (Nat.le_of_succ_le_succ hi)
            rwa [Nat.add_right_comm] at hnext
      · rename_i hfree
        exact absurd h hfree

/-- A search that may try one more candidate than there are taken names finds a free one. -/
theorem firstFree_not_mem {taken : NameSet} (base : String) {tries : Nat}
    (h : taken.size ≤ tries) (n : Nat) : firstFree taken base tries n ∉ taken := by
  intro hmem
  let tried := (List.range (tries + 1)).map fun i => candidate base (n + i)
  have hnodup : tried.Nodup :=
    List.nodup_range.map fun i j hij => Nat.add_left_cancel (candidate_injective base hij)
  have hsubset : tried ⊆ taken.names := by
    intro name hname
    obtain ⟨i, hi, rfl⟩ := List.mem_map.mp hname
    have hle : i ≤ tries := Nat.le_of_lt_succ (List.mem_range.mp hi)
    exact NameMap.mem_names.mpr (candidate_mem_of_firstFree_mem hmem i hle)
  have hlength := (hnodup.subperm hsubset).length_le
  simp only [tried, List.length_map, List.length_range, NameMap.names] at hlength
  rw [NameMap.size] at h
  omega

theorem temporaryName_not_mem (tempPrefix source : String) (taken : NameSet) :
    temporaryName tempPrefix source taken ∉ taken :=
  firstFree_not_mem _ (Nat.le_refl _) 0

/-! ### Searching without a bound -/

/-- A search from the `n`-th candidate on: how many candidates it tries, and the one that it
ends on. Nothing ends it but a free candidate. -/
inductive Search (taken : NameSet) (base : String) : (n tries : Nat) → (found : String) → Prop
  | stop {n : Nat} (free : candidate base n ∉ taken) : Search taken base n 1 (candidate base n)
  | next {n tries : Nat} {found : String} (used : candidate base n ∈ taken)
      (rest : Search taken base (n + 1) tries found) : Search taken base n (tries + 1) found

/-- A search ends in one way only. -/
theorem Search.unique {taken : NameSet} {base : String} {n tries tries' : Nat}
    {found found' : String} (h : Search taken base n tries found)
    (h' : Search taken base n tries' found') : tries' = tries ∧ found' = found := by
  induction h generalizing tries' with
  | stop free =>
      cases h' with
      | stop => exact ⟨rfl, rfl⟩
      | next used => exact absurd used free
  | next used _ ih =>
      cases h' with
      | stop free => exact absurd used free
      | next _ rest =>
          obtain ⟨htries, hfound⟩ := ih rest
          exact ⟨congrArg (· + 1) htries, hfound⟩

/-- A bounded search that ends on a free name is a search without a bound. -/
theorem search_firstFree {taken : NameSet} {base : String} {tries n : Nat}
    (h : firstFree taken base tries n ∉ taken) :
    ∃ tried ≤ tries + 1, Search taken base n tried (firstFree taken base tries n) := by
  induction tries generalizing n with
  | zero => exact ⟨1, Nat.le_refl 1, .stop h⟩
  | succ tries ih =>
      rw [firstFree] at h ⊢
      split
      case isTrue used =>
        rw [if_pos used] at h
        obtain ⟨tried, hle, hrest⟩ := ih h
        exact ⟨tried + 1, Nat.succ_le_succ hle, .next used hrest⟩
      case isFalse free => exact ⟨1, Nat.succ_le_succ (Nat.zero_le _), .stop free⟩

/-- The search for a temporary name ends, after at most one candidate more than there are taken
names. -/
theorem search_temporaryName (tempPrefix source : String) (taken : NameSet) :
    ∃ tries ≤ taken.size + 1,
      Search taken (tempPrefix ++ source) 0 tries (temporaryName tempPrefix source taken) :=
  search_firstFree (temporaryName_not_mem tempPrefix source taken)

end Mannequin.Renaming
