import Mannequin.Proofs.Alias.Chains

/-!
# Where definitions are taken from

The chain of a key visits no key of a resolved table twice, so it has fewer references
than the table has keys. Following the chain with that many steps therefore gets to
the key it ends at, whose record is a definition. This is the definition that the
resolved table has for the key.
-/

namespace Mannequin.Alias

variable {α : Type} {table : NameMap (Json α)} {key next source : String}
variable {record definition : Json α}

/-! ### Chains that are followed -/

theorem follow_of_refers (h : Refers table key next) (hops : Nat) :
    follow table (hops + 1) key = follow table hops next := by
  obtain ⟨record, hrecord, hnext⟩ := h
  rw [follow, hrecord]
  simp only [hnext]

/-- A key is followed along a chain to a source, where the chain stays. -/
structure LeadsTo (table : NameMap (Json α)) (key : String) (chain : List String)
    (source : String) (definition : Json α) : Prop where
  linked : (key :: chain).IsChain (Refers table)
  known : ∀ other ∈ key :: chain, other ∈ table
  written : table.get? source = some definition
  concrete : ¬ IsMirror definition
  reached : ∀ hops, follow table (chain.length + hops) key = source

theorem LeadsTo.of_refers {chain : List String} (h : LeadsTo table next chain source definition)
    (hkey : Refers table key next) : LeadsTo table key (next :: chain) source definition := by
  refine ⟨h.linked.cons_cons hkey, fun other hother => ?_, h.written, h.concrete, fun hops => ?_⟩
  · rcases List.mem_cons.mp hother with rfl | hother
    · obtain ⟨record, hrecord, -⟩ := hkey
      exact NameMap.mem_of_get? hrecord
    · exact h.known other hother
  · rw [List.length_cons, Nat.add_right_comm, follow_of_refers hkey]
    exact h.reached hops

/-- A chain that ends leads to a source with its definition. -/
theorem Ends.exists_leadsTo (h : Ends table record definition)
    (hrecord : table.get? key = some record) :
    ∃ chain source, LeadsTo table key chain source definition := by
  induction h generalizing key with
  | concrete hplain =>
      refine ⟨[], key, .singleton key, fun other hother => ?_, hrecord, hplain, fun hops => ?_⟩
      · rw [List.mem_singleton.mp hother]
        exact NameMap.mem_of_get? hrecord
      · exact follow_of_concrete hrecord hplain _
  | mirror hnext hfound _ ih =>
      obtain ⟨chain, source, hleads⟩ := ih hfound
      exact ⟨_, source, hleads.of_refers ⟨_, hrecord, hnext.2⟩⟩

/-- Different keys of a table are at most as many as it has. -/
theorem length_le_size {keys : List String} (hnodup : keys.Nodup)
    (hknown : ∀ key ∈ keys, key ∈ table) : keys.length ≤ table.size := by
  have hsubset : keys ⊆ table.names := fun key hkey => NameMap.mem_names.mpr (hknown key hkey)
  have hlength := (hnodup.subperm hsubset).length_le
  rwa [NameMap.names, List.length_map] at hlength

/-- As many steps as there are keys are enough to get to the source. -/
theorem LeadsTo.follow_of_le {chain : List String}
    (h : LeadsTo table key chain source definition) (hnodup : (key :: chain).Nodup) {hops : Nat}
    (hhops : table.size ≤ hops) : follow table hops key = source := by
  have hlength : (key :: chain).length ≤ table.size := length_le_size hnodup h.known
  rw [List.length_cons] at hlength
  obtain ⟨more, rfl⟩ := Nat.exists_eq_add_of_le (Nat.le_of_lt (hlength.trans hhops))
  exact h.reached more

/-! ### Resolved tables -/

/-- A resolved table has definitions for its keys only. -/
theorem noted_resolve {table : Json α} {definitions : NameMap (Json α)}
    (h : resolve table = .ok definitions) : Noted table.members definitions := by
  unfold resolve at h
  split at h
  · cases h
    exact .empty _
  · exact (of_walks (.empty _) (fun _ hentry => NameMap.mem_entries_iff.mp hentry) h).1
  · cases h

theorem mem_resolve {table : Json α} {definitions : NameMap (Json α)}
    (h : resolve table = .ok definitions) : key ∈ definitions ↔ key ∈ table.members := by
  rw [NameMap.mem_iff_exists, NameMap.mem_iff_exists]
  constructor
  · rintro ⟨definition, hdefinition⟩
    obtain ⟨record, hrecord, -⟩ := noted_resolve h key definition hdefinition
    exact ⟨record, hrecord⟩
  · rintro ⟨record, hrecord⟩
    obtain ⟨definition, -, hdefinition⟩ := get?_resolve h hrecord
    exact ⟨definition, hdefinition⟩

/-- The definition that a resolved table has for a key is written under the source of the
key. -/
theorem member?_sourceKey {table : Json α} {definitions : NameMap (Json α)}
    (h : resolve table = .ok definitions) (hdefinition : definitions.get? key = some definition) :
    table.member? (sourceKey table key) = some definition ∧ ¬ IsMirror definition := by
  obtain ⟨record, hrecord, hends⟩ := noted_resolve h key definition hdefinition
  obtain ⟨chain, source, hleads⟩ := hends.exists_leadsTo hrecord
  have hnodup : (key :: chain).Nodup := by
    refine nodup_of_ends (fun other found hfound => ?_) hleads.linked
    obtain ⟨definition, hends, -⟩ := get?_resolve h hfound
    exact ⟨definition, hends⟩
  have hsource : sourceKey table key = source := hleads.follow_of_le hnodup (Nat.le_succ _)
  rw [hsource]
  exact ⟨hleads.written, hleads.concrete⟩

/-- A resolved table has the keys of the written one. Under each key it has the record
that is written under the source of the key, which is no mirror record: the steps that
following the key may take are enough, and more of them lead nowhere else. -/
theorem resolve_eq_at_sourceKey {table : Json α} {definitions : NameMap (Json α)}
    (h : resolve table = .ok definitions) :
    definitions.domain = table.members.domain ∧
      ∀ key ∈ table.members, ∃ definition,
        table.member? (sourceKey table key) = some definition ∧ ¬ IsMirror definition ∧
          definitions.get? key = some definition ∧
          ∀ hops, table.members.size ≤ hops →
            follow table.members hops key = sourceKey table key := by
  constructor
  · refine NameSet.ext_mem fun key => ?_
    rw [NameMap.mem_domain, NameMap.mem_domain, mem_resolve h]
  · intro key hkey
    obtain ⟨record, hrecord⟩ := NameMap.mem_iff_exists.mp hkey
    obtain ⟨definition, hends, hdefinition⟩ := get?_resolve h hrecord
    obtain ⟨chain, source, hleads⟩ := hends.exists_leadsTo hrecord
    have hall : ∀ other found, table.members.get? other = some found →
        ∃ definition, Ends table.members found definition := by
      intro other found hfound
      obtain ⟨definition, hends, -⟩ := get?_resolve h hfound
      exact ⟨definition, hends⟩
    have hfollow : ∀ hops, table.members.size ≤ hops → follow table.members hops key = source :=
      fun hops => hleads.follow_of_le (nodup_of_ends hall hleads.linked)
    have hsource : sourceKey table key = source := hfollow _ (Nat.le_succ _)
    rw [hsource]
    exact ⟨definition, hleads.written, hleads.concrete, hdefinition, hfollow⟩

/-- Four hands, three of which mirror one another. -/
def hands : Json Nat :=
  .obj [("hand_a", .obj [("mirror", .str "hand_b")]), ("hand_b", .obj [("mirror", .str "hand_c")]),
    ("hand_c", .obj [("mirror", .str "hand_d")]), ("hand_d", .obj [("taper", .int 2)])]

/-- The hand at the end of the chain gives its definition to the first one. -/
theorem resolve_eq_at_sourceKey_hands : ∃ definitions definition,
    resolve hands = .ok definitions ∧ sourceKey hands "hand_a" = "hand_d" ∧
      hands.member? "hand_d" = some definition ∧ definitions.get? "hand_a" = some definition := by
  have hresolves : (resolve hands).isOk = true := by decide +kernel
  have hsource : sourceKey hands "hand_a" = "hand_d" := by decide +kernel
  cases hresolve : resolve hands with
  | error fault =>
      rw [hresolve] at hresolves
      cases hresolves
  | ok definitions =>
      obtain ⟨definition, hmember, -, hdefinition, -⟩ :=
        (resolve_eq_at_sourceKey hresolve).2 "hand_a" (by decide +kernel)
      rw [hsource] at hmember
      exact ⟨definitions, definition, rfl, hsource, hmember, hdefinition⟩

end Mannequin.Alias
