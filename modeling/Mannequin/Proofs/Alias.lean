import Mannequin.Alias
import Mannequin.Proofs.NameMap
import Mannequin.Proofs.Returns

/-!
# Records that mirror a definition

A record that is no mirror is a definition. The chain of a record that mirrors
another key goes on with the record of that key. Every key of a resolved table has
the definition in which the chain of its record ends.
-/

namespace Mannequin.Alias

variable {α : Type}

theorem isMirror_iff {record : Json α} :
    IsMirror record ↔ ∃ value, record.member? "mirror" = some value := by
  rw [IsMirror, Json.has, Option.isSome_iff_exists]

theorem member?_eq_none {record : Json α} (h : ¬ IsMirror record) :
    record.member? "mirror" = none := by
  rw [IsMirror, Json.has, Bool.not_eq_true, Option.isSome_eq_false_iff] at h
  exact Option.isNone_iff_eq_none.mp h

/-- A record that names another key, and says nothing else. -/
def Names (record : Json α) (next : String) : Prop :=
  record.members.size = 1 ∧ record.member? "mirror" = some (.str next)

theorem Names.isMirror {record : Json α} {next : String} (h : Names record next) :
    IsMirror record :=
  isMirror_iff.mpr ⟨_, h.2⟩

theorem target_eq_ok {key : String} {record : Json α} {next : String} :
    target key record = .ok next ↔ Names record next := by
  unfold target Names
  by_cases hsize : record.members.size = 1
  · rw [if_pos hsize, Json.member]
    cases hmember : record.member? "mirror" with
    | none => simp
    | some value => cases value <;> simp [hsize]
  · simp [hsize]

variable {table resolved resolved' : NameMap (Json α)} {source key : String}
variable {concrete record definition : Json α}

/-! ### Chains -/

/-- The chain of a record ends in a definition. -/
inductive Ends (table : NameMap (Json α)) : Json α → Json α → Prop where
  | concrete {record : Json α} (h : ¬ IsMirror record) : Ends table record record
  | mirror {record found definition : Json α} {next : String} (hnext : Names record next)
      (hfound : table.get? next = some found) (hends : Ends table found definition) :
      Ends table record definition

namespace Ends

theorem eq_of_concrete (h : Ends table concrete definition) (hplain : ¬ IsMirror concrete) :
    definition = concrete := by
  cases h with
  | concrete => rfl
  | mirror hnext => exact absurd hnext.isMirror hplain

/-- A mirror record names a key of the table, whose chain has the same end. -/
theorem exists_next (h : Ends table record definition) (hmirror : IsMirror record) :
    ∃ next found, Names record next ∧ table.get? next = some found ∧
      Ends table found definition := by
  cases h with
  | concrete hplain => exact absurd hmirror hplain
  | mirror hnext hfound hends => exact ⟨_, _, hnext, hfound, hends⟩

/-- A record that mirrors a definition has no other. -/
theorem eq_of_mirror (h : Ends table record definition)
    (hconcrete : table.get? source = some concrete) (hplain : ¬ IsMirror concrete)
    (hrecord : record.member? "mirror" = some (.str source)) : definition = concrete := by
  obtain ⟨next, found, hnext, hfound, hends⟩ := h.exists_next (isMirror_iff.mpr ⟨_, hrecord⟩)
  have hsource := hnext.2
  rw [hrecord] at hsource
  cases hsource
  rw [hconcrete] at hfound
  cases hfound
  exact hends.eq_of_concrete hplain

end Ends

/-! ### Walks -/

/-- Every definition noted is one in which the chain of its key ends. -/
def Noted (table resolved : NameMap (Json α)) : Prop :=
  ∀ key definition, resolved.get? key = some definition →
    ∃ record, table.get? key = some record ∧ Ends table record definition

namespace Noted

theorem empty (table : NameMap (Json α)) : Noted table ∅ := by
  intro key definition h
  cases h

theorem insert (h : Noted table resolved) (hrecord : table.get? key = some record)
    (hends : Ends table record definition) : Noted table (resolved.insert key definition) := by
  intro other found hother
  rw [NameMap.get?_insert] at hother
  split at hother
  · rename_i heq
    cases hother
    subst heq
    exact ⟨record, hrecord, hends⟩
  · exact h other found hother

end Noted

theorem walk_of_noted {earlier : List String} (h : resolved.get? key = some definition) :
    walk table key earlier record resolved = .ok (definition, resolved) := by
  rw [walk, h]

theorem walk_of_concrete {earlier : List String} (hnone : resolved.get? key = none)
    (hplain : ¬ IsMirror record) :
    walk table key earlier record resolved = .ok (record, resolved.insert key record) := by
  rw [walk, hnone]
  exact if_neg hplain

theorem walk_of_fault {earlier : List String} {fault : Fault} (hnone : resolved.get? key = none)
    (hmirror : IsMirror record) (hfault : target key record = .error fault) :
    walk table key earlier record resolved = .error fault := by
  rw [walk, hnone]
  simp only [if_pos hmirror, hfault]

theorem walk_of_missing {earlier : List String} {next : String}
    (hnone : resolved.get? key = none) (hnext : Names record next)
    (hmissing : table.get? next = none) :
    walk table key earlier record resolved = .error (.missing key next) := by
  rw [walk, hnone]
  simp only [if_pos hnext.isMirror, target_eq_ok.mpr hnext]
  split
  · rfl
  · rename_i other hother
    rw [hmissing] at hother
    cases hother

theorem walk_of_cycle {earlier : List String} {next : String} {found : Json α}
    (hnone : resolved.get? key = none) (hnext : Names record next)
    (hfound : table.get? next = some found) (hvisited : next ∈ key :: earlier) :
    walk table key earlier record resolved =
      .error (.cycle next (closedWalk (key :: earlier) next)) := by
  rw [walk, hnone]
  simp only [if_pos hnext.isMirror, target_eq_ok.mpr hnext]
  split
  · rename_i hmissing
    rw [hfound] at hmissing
    cases hmissing
  · exact dif_pos hvisited

/-- A walk goes on to a key that is not under way. -/
theorem walk_of_next {earlier : List String} {next : String} {found : Json α}
    (hnone : resolved.get? key = none) (hnext : Names record next)
    (hfound : table.get? next = some found) (hnew : next ∉ key :: earlier) :
    walk table key earlier record resolved = do
      let (definition, resolved) ← walk table next (key :: earlier) found resolved
      return (definition, resolved.insert key definition) := by
  rw [walk, hnone]
  simp only [if_pos hnext.isMirror, target_eq_ok.mpr hnext]
  split
  · rename_i hmissing
    rw [hfound] at hmissing
    cases hmissing
  · rename_i other hother
    rw [hfound] at hother
    cases hother
    exact dif_neg hnew

/-- What is noted stays correct over a walk, which finds the end of the chain and
notes it for its key. -/
theorem of_walk {earlier : List String} (hnoted : Noted table resolved)
    (hrecord : table.get? key = some record)
    (h : walk table key earlier record resolved = .ok (definition, resolved')) :
    Ends table record definition ∧ Noted table resolved' ∧ key ∈ resolved' ∧
      ∀ other ∈ resolved, other ∈ resolved' := by
  induction key, earlier, record using walk.induct table resolved
    generalizing definition resolved' with
  | case1 key earlier record found hfound =>
      rw [walk_of_noted hfound] at h
      cases h
      obtain ⟨other, hother, hends⟩ := hnoted key _ hfound
      rw [hrecord] at hother
      cases hother
      exact ⟨hends, hnoted, NameMap.mem_of_get? hfound, fun _ hmem => hmem⟩
  | case2 key earlier record hnone hmirror fault hfault =>
      rw [walk_of_fault hnone hmirror hfault] at h
      cases h
  | case3 key earlier record hnone hmirror next hnext hmissing =>
      rw [walk_of_missing hnone (target_eq_ok.mp hnext) hmissing] at h
      cases h
  | case4 key earlier record hnone hmirror next hnext found hfound hvisited =>
      rw [walk_of_cycle hnone (target_eq_ok.mp hnext) hfound hvisited] at h
      cases h
  | case5 key earlier record hnone hmirror next hnext found hfound hnew ih =>
      rw [walk_of_next hnone (target_eq_ok.mp hnext) hfound hnew] at h
      obtain ⟨_, hwalk, h⟩ := bind_eq_ok.mp h
      cases h
      obtain ⟨hends, hnoted', -, hkept⟩ := ih hfound hwalk
      have hchain := Ends.mirror (target_eq_ok.mp hnext) hfound hends
      refine ⟨hchain, hnoted'.insert hrecord hchain, NameMap.mem_insert.mpr (.inl rfl), ?_⟩
      exact fun other hmem => NameMap.mem_insert.mpr (.inr (hkept other hmem))
  | case6 key earlier record hnone hplain =>
      rw [walk_of_concrete hnone hplain] at h
      cases h
      refine ⟨.concrete hplain, hnoted.insert hrecord (.concrete hplain),
        NameMap.mem_insert.mpr (.inl rfl), ?_⟩
      exact fun other hmem => NameMap.mem_insert.mpr (.inr hmem)

/-- What is noted stays correct over a list of walks, which note their keys. -/
theorem of_walks {entries : List (String × Json α)} (hnoted : Noted table resolved)
    (hentries : ∀ entry ∈ entries, table.get? entry.1 = some entry.2)
    (h : walks table entries resolved = .ok resolved') :
    Noted table resolved' ∧ (∀ entry ∈ entries, entry.1 ∈ resolved') ∧
      ∀ other ∈ resolved, other ∈ resolved' := by
  induction entries generalizing resolved with
  | nil =>
      cases h
      refine ⟨hnoted, fun entry hmem => ?_, fun _ hmem => hmem⟩
      cases hmem
  | cons entry rest ih =>
      obtain ⟨middle, hfirst, hrest⟩ := bind_eq_ok.mp h
      obtain ⟨_, hwalk, hdone⟩ := bind_eq_ok.mp hfirst
      cases hdone
      obtain ⟨-, hnoted', hkey, hkept⟩ := of_walk hnoted (hentries entry List.mem_cons_self) hwalk
      obtain ⟨hfinal, hkeys, hkept'⟩ :=
        ih hnoted' (fun other hmem => hentries other (List.mem_cons_of_mem _ hmem)) hrest
      refine ⟨hfinal, fun other hmem => ?_, fun other hmem => hkept' other (hkept other hmem)⟩
      cases hmem with
      | head => exact hkept' _ hkey
      | tail _ hmem => exact hkeys other hmem

/-! ### Source keys -/

theorem follow_of_concrete (hconcrete : table.get? source = some concrete)
    (hplain : ¬ IsMirror concrete) (hops : Nat) : follow table hops source = source := by
  cases hops with
  | zero => rfl
  | succ hops =>
      rw [follow, hconcrete]
      simp only [member?_eq_none hplain]

theorem sourceKey_of_concrete {table : Json α} (hconcrete : table.member? source = some concrete)
    (hplain : ¬ IsMirror concrete) : sourceKey table source = source :=
  follow_of_concrete hconcrete hplain _

theorem sourceKey_of_mirror {table : Json α} (hconcrete : table.member? source = some concrete)
    (hplain : ¬ IsMirror concrete) (hkey : table.member? key = some record)
    (hrecord : record.member? "mirror" = some (.str source)) : sourceKey table key = source := by
  rw [Json.member?] at hkey hconcrete
  rw [sourceKey, follow, hkey]
  simp only [hrecord]
  exact follow_of_concrete hconcrete hplain _

/-! ### Tables -/

/-- In a resolved table a key is found with the definition in which its chain ends. -/
theorem get?_resolve {table : Json α} {definitions : NameMap (Json α)}
    (h : resolve table = .ok definitions) (hvalue : table.member? key = some record) :
    ∃ definition, Ends table.members record definition ∧
      definitions.get? key = some definition := by
  unfold resolve at h
  split at h
  · cases hvalue
  · obtain ⟨hnoted, hkeys, -⟩ :=
      of_walks (.empty _) (fun _ hentry => NameMap.mem_entries_iff.mp hentry) h
    have hkey := hkeys _ (NameMap.mem_entries_iff.mpr hvalue)
    obtain ⟨definition, hget⟩ := NameMap.mem_iff_exists.mp hkey
    obtain ⟨found, hfound, hends⟩ := hnoted _ _ hget
    rw [Json.member?, hfound] at hvalue
    cases hvalue
    exact ⟨definition, hends, hget⟩
  · cases h

theorem get?_resolve_concrete {table : Json α} {definitions : NameMap (Json α)}
    (h : resolve table = .ok definitions) (hconcrete : table.member? source = some concrete)
    (hplain : ¬ IsMirror concrete) : definitions.get? source = some concrete := by
  obtain ⟨definition, hends, hget⟩ := get?_resolve h hconcrete
  rw [hget, hends.eq_of_concrete hplain]

theorem get?_resolve_mirror {table : Json α} {definitions : NameMap (Json α)}
    (h : resolve table = .ok definitions) (hconcrete : table.member? source = some concrete)
    (hplain : ¬ IsMirror concrete) (hkey : table.member? key = some record)
    (hrecord : record.member? "mirror" = some (.str source)) :
    definitions.get? key = some concrete := by
  obtain ⟨definition, hends, hget⟩ := get?_resolve h hkey
  rw [hget, hends.eq_of_mirror hconcrete hplain hrecord]

end Mannequin.Alias
