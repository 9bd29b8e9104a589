import Mannequin.Proofs.Alias.Chains

/-!
# Cycles of mirror records

The keys under way of a walk are joined by mirror records. When the walk meets one of them
again, the keys from there on close a cycle; those before it lead up to the cycle and are
left out of the report. Walks start at the keys in order, so the one that fails starts at the
first key whose chain does not end, and all smaller keys have their definitions by then.

Where every mirror record is well-formed a cycle is all that a walk can fail with.
-/

namespace Mannequin.Alias

open Relation

variable {α : Type} {table resolved resolved' : NameMap (Json α)}
  {key next repeated : String} {record definition : Json α}

/-! ### The mirror relation -/

/-- A key has a mirror record, which names another key and says nothing else. -/
def Mirrors (table : NameMap (Json α)) (key next : String) : Prop :=
  ∃ record, table.get? key = some record ∧ Names record next

theorem Mirrors.refers (h : Mirrors table key next) : Refers table key next := by
  obtain ⟨record, hrecord, hnames⟩ := h
  exact ⟨record, hrecord, hnames.2⟩

theorem transGen_refers (h : TransGen (Mirrors table) key next) :
    TransGen (Refers table) key next :=
  TransGen.mono (fun _ _ => Mirrors.refers) _ _ h

/-- A walk along mirror records from a key back to it that visits no other key twice. -/
def IsCycle (table : NameMap (Json α)) (key : String) (walk : List String) : Prop :=
  ∃ inner, walk = key :: inner ++ [key] ∧ (key :: inner).Nodup ∧ walk.IsChain (Mirrors table)

theorem IsCycle.transGen {closed : List String} (h : IsCycle table key closed) :
    TransGen (Mirrors table) key key := by
  obtain ⟨inner, rfl, -, hchain⟩ := h
  have hpairs : (key :: inner ++ [key]).Pairwise (TransGen (Mirrors table)) :=
    List.isChain_iff_pairwise.mp (hchain.imp fun _ _ => .single)
  exact (List.pairwise_cons.mp hpairs).1 key (by simp)

/-- The last record of a trail may name a key of the trail. From there on the trail is a
cycle. -/
theorem isCycle_closedWalk {earlier : List String}
    (htrail : (key :: earlier).IsChain (Function.swap (Mirrors table)))
    (hnodup : (key :: earlier).Nodup) (hvisited : repeated ∈ key :: earlier)
    (hmirrors : Mirrors table key repeated) :
    IsCycle table repeated (closedWalk (key :: earlier) repeated) := by
  obtain ⟨before, inner, hsplit⟩ := List.append_of_mem (List.mem_reverse.mpr hvisited)
  rw [← List.nodup_reverse, hsplit, List.nodup_append'] at hnodup
  obtain ⟨-, hinner, hdisjoint⟩ := hnodup
  have hclosed : closedWalk (key :: earlier) repeated = repeated :: inner ++ [repeated] := by
    have hother : ∀ other ∈ before, decide (other ≠ repeated) = true := by
      rintro other hother
      refine decide_eq_true fun heq => hdisjoint hother ?_
      exact heq ▸ List.mem_cons_self
    rw [closedWalk, hsplit, List.dropWhile_append_of_pos hother, List.dropWhile_cons_of_neg]
    simp
  have hchain : (repeated :: key :: earlier).reverse.IsChain (Mirrors table) :=
    List.isChain_reverse.mpr (htrail.cons_cons hmirrors)
  rw [List.reverse_cons, hsplit, List.append_assoc] at hchain
  exact ⟨inner, hclosed, hinner, hclosed ▸ hchain.right_of_append⟩

/-! ### Walks that fail -/

/-- A key has a mirror record that is not well-formed or names no key of the table. -/
def Improper (table : NameMap (Json α)) (key : String) : Prop :=
  ∃ record, table.get? key = some record ∧ IsMirror record ∧
    ∀ next, Names record next → table.get? next = none

/-- What a walk from a key may fail with: a cycle that the chain of the key leads into, or
something else because of an improper record. -/
inductive Fails (table : NameMap (Json α)) (key : String) : Fault → Prop where
  | cycle {repeated : String} {closed : List String} (hcycle : IsCycle table repeated closed)
      (hreached : TransGen (Mirrors table) key repeated) :
      Fails table key (.cycle repeated closed)
  | improper {other : String} {fault : Fault} (himproper : Improper table other)
      (hkind : fault.kind ≠ .cycle) : Fails table key fault

theorem Fails.of_next {fault : Fault} (h : Fails table next fault)
    (hmirrors : Mirrors table key next) : Fails table key fault := by
  cases h with
  | cycle hcycle hreached => exact .cycle hcycle (.head hmirrors hreached)
  | improper himproper hkind => exact .improper himproper hkind

theorem kind_of_target {fault : Fault} (h : target key record = .error fault) :
    fault.kind ≠ .cycle := by
  intro hkind
  rw [target] at h
  split at h
  · split at h <;> cases h
    cases hkind
  · cases h
    cases hkind

/-- The keys under way are different and joined by mirror records, so a walk that comes back
to one of them has found a cycle. -/
theorem fails_of_walk {earlier : List String} {fault : Fault}
    (hrecord : table.get? key = some record)
    (htrail : (key :: earlier).IsChain (Function.swap (Mirrors table)))
    (hnodup : (key :: earlier).Nodup)
    (h : walk table key earlier record resolved = .error fault) : Fails table key fault := by
  induction key, earlier, record using walk.induct table resolved with
  | case1 key earlier record found hfound =>
      rw [walk_of_noted hfound] at h
      cases h
  | case2 key earlier record hnone hmirror other hfault =>
      rw [walk_of_fault hnone hmirror hfault] at h
      cases h
      refine .improper ⟨record, hrecord, hmirror, fun next hnext => ?_⟩ (kind_of_target hfault)
      rw [target_eq_ok.mpr hnext] at hfault
      cases hfault
  | case3 key earlier record hnone hmirror next hnext hmissing =>
      have hnames := target_eq_ok.mp hnext
      rw [walk_of_missing hnone hnames hmissing] at h
      cases h
      have hkind : (Fault.missing key next).kind ≠ .cycle := by
        intro hkind
        cases hkind
      refine .improper ⟨record, hrecord, hmirror, fun other hother => ?_⟩ hkind
      rw [target_eq_ok.mpr hother] at hnext
      cases hnext
      exact hmissing
  | case4 key earlier record hnone hmirror next hnext found hfound hvisited =>
      have hnames := target_eq_ok.mp hnext
      have hmirrors : Mirrors table key next := ⟨record, hrecord, hnames⟩
      rw [walk_of_cycle hnone hnames hfound hvisited] at h
      cases h
      exact .cycle (isCycle_closedWalk htrail hnodup hvisited hmirrors) (.single hmirrors)
  | case5 key earlier record hnone hmirror next hnext found hfound hnew ih =>
      have hnames := target_eq_ok.mp hnext
      have hmirrors : Mirrors table key next := ⟨record, hrecord, hnames⟩
      rw [walk_of_next hnone hnames hfound hnew] at h
      cases hrest : walk table next (key :: earlier) found resolved with
      | error fault =>
          rw [hrest] at h
          cases h
          have hfails :=
            ih hfound (htrail.cons_cons hmirrors) (List.nodup_cons.mpr ⟨hnew, hnodup⟩) hrest
          exact hfails.of_next hmirrors
      | ok result =>
          rw [hrest] at h
          cases h
  | case6 key earlier record hnone hplain =>
      rw [walk_of_concrete hnone hplain] at h
      cases h

/-- Walks that fail do so at one of their keys, after those before it have been walked from. -/
theorem exists_walk_of_walks_error {entries : List (String × Json α)} {fault : Fault}
    (h : walks table entries resolved = .error fault) :
    ∃ before key record after middle, entries = before ++ (key, record) :: after ∧
      walks table before resolved = .ok middle ∧
      walk table key [] record middle = .error fault := by
  induction entries generalizing resolved with
  | nil => cases h
  | cons entry rest ih =>
      obtain ⟨key, record⟩ := entry
      rw [walks, List.foldlM_cons] at h
      cases hwalk : walk table key [] record resolved with
      | error other =>
          simp only [hwalk] at h
          cases h
          exact ⟨[], key, record, rest, resolved, rfl, rfl, hwalk⟩
      | ok result =>
          simp only [hwalk] at h
          obtain ⟨before, key', record', after, middle, rfl, hbefore, hfault⟩ := ih h
          refine ⟨(key, record) :: before, key', record', after, middle, rfl, ?_, hfault⟩
          rw [walks, List.foldlM_cons]
          simp only [hwalk]
          exact hbefore

/-! ### The first key whose chain does not end -/

/-- The chain of a key ends in a definition. -/
def HasEnd (table : NameMap (Json α)) (key : String) : Prop :=
  ∃ record definition, table.get? key = some record ∧ Ends table record definition

/-- The smallest key of a table whose chain does not end in a definition. -/
structure FirstEndless (table : NameMap (Json α)) (key : String) : Prop where
  known : key ∈ table
  endless : ¬ HasEnd table key
  first : ∀ other ∈ table, other < key → HasEnd table other

/-- A chain that ends does not lead into a cycle. -/
theorem HasEnd.not_cyclic (h : HasEnd table key) (hreached : ReflTransGen (Refers table) key next)
    (hcycle : TransGen (Refers table) next next) : False := by
  obtain ⟨record, definition, hrecord, hends⟩ := h
  have hacc : Acc (TransGen (Function.swap (Refers table))) next := by
    rcases reflTransGen_iff_eq_or_transGen.mp (reflTransGen_swap.mpr hreached) with rfl | hnext
    · exact (hends.acc hrecord).transGen
    · exact (hends.acc hrecord).transGen.inv hnext
  have hself : TransGen (Function.swap (Refers table)) next next := transGen_swap.mpr hcycle
  induction hacc with
  | intro next _ ih => exact ih next hself hreached hcycle hself

/-- When the walks from the keys before one are done, the smaller keys have their definitions. -/
theorem hasEnd_of_walks {before after : List (String × Json α)} {other : String}
    (hentries : table.entries = before ++ (key, record) :: after)
    (h : walks table before ∅ = .ok resolved) (hknown : other ∈ table) (hlt : other < key) :
    HasEnd table other := by
  obtain ⟨found, hfound⟩ := NameMap.mem_iff_exists.mp hknown
  have hwritten : ∀ entry ∈ before, table.get? entry.1 = some entry.2 := by
    intro entry hentry
    exact NameMap.mem_entries_iff.mp (hentries ▸ List.mem_append_left _ hentry)
  have hbefore : (other, found) ∈ before := by
    have hsorted := hentries ▸ table.sorted
    have hlater := (List.pairwise_cons.mp (List.pairwise_append.mp hsorted).2.1).1
    have hmem := hentries ▸ NameMap.mem_entries_iff.mpr hfound
    rcases List.mem_append.mp hmem with hmem | hmem
    · exact hmem
    · rcases List.mem_cons.mp hmem with heq | hmem
      · cases heq
        exact absurd hlt (String.lt_irrefl _)
      · exact absurd (String.lt_trans (hlater _ hmem) hlt) (String.lt_irrefl _)
  obtain ⟨hnoted, hkeys, -⟩ := of_walks (.empty _) hwritten h
  obtain ⟨definition, hdefinition⟩ := NameMap.mem_iff_exists.mp (hkeys _ hbefore)
  obtain ⟨record, hrecord, hends⟩ := hnoted other definition hdefinition
  exact ⟨record, definition, hrecord, hends⟩

/-! ### Tables that cannot be resolved -/

/-- Resolving an object fails in a walk from one of its keys, when all smaller keys have
their definitions. -/
theorem fails_of_resolve {written : List (String × Json α)} {fault : Fault}
    (h : resolve (.obj written) = .error fault) :
    ∃ start ∈ (Json.obj written).members, Fails (Json.obj written).members start fault ∧
      ∀ other ∈ (Json.obj written).members, other < start →
        HasEnd (Json.obj written).members other := by
  obtain ⟨before, start, record, after, resolved, hentries, hbefore, hwalk⟩ :=
    exists_walk_of_walks_error h
  have hrecord : (Json.obj written).members.get? start = some record :=
    NameMap.mem_entries_iff.mp (hentries ▸ by simp)
  refine ⟨start, NameMap.mem_of_get? hrecord, ?_, fun other hknown hlt => ?_⟩
  · exact fails_of_walk hrecord (.singleton _) (List.nodup_singleton _) hwalk
  · exact hasEnd_of_walks hentries hbefore hknown hlt

/-- The cycle that a table is refused for is the one that the chain of the first endless key
leads into. -/
theorem of_resolve_eq_cycle {table : Json α} {closed : List String}
    (h : resolve table = .error (.cycle repeated closed)) :
    IsCycle table.members repeated closed ∧
      ∃ start, FirstEndless table.members start ∧
        TransGen (Mirrors table.members) start repeated := by
  cases table with
  | obj written =>
      obtain ⟨start, hknown, hfails, hfirst⟩ := fails_of_resolve h
      cases hfails with
      | cycle hcycle hreached =>
          refine ⟨hcycle, start, ⟨hknown, fun hend => ?_, hfirst⟩, hreached⟩
          exact hend.not_cyclic (transGen_refers hreached).to_reflTransGen
            (transGen_refers hcycle.transGen)
      | improper _ hkind => exact absurd rfl hkind
  | _ => cases h

/-- A table with a cycle is not resolved. -/
theorem exists_fault_of_cycle {table : Json α} (hcycle : TransGen (Mirrors table.members) key key) :
    ∃ fault, resolve table = .error fault := by
  cases hresolve : resolve table with
  | error fault => exact ⟨fault, rfl⟩
  | ok definitions =>
      obtain ⟨next, ⟨record, hrecord, -⟩, -⟩ := TransGen.head'_iff.mp hcycle
      obtain ⟨definition, hends, -⟩ := get?_resolve hresolve hrecord
      have hend : HasEnd table.members key := ⟨record, definition, hrecord, hends⟩
      exact (hend.not_cyclic .refl (transGen_refers hcycle)).elim

/-- A table with a cycle but without improper records is refused for a cycle. -/
theorem exists_resolve_eq_cycle {table : Json α} (hproper : ∀ key, ¬ Improper table.members key)
    (hcycle : TransGen (Mirrors table.members) key key) :
    ∃ repeated closed, resolve table = .error (.cycle repeated closed) := by
  obtain ⟨fault, hfault⟩ := exists_fault_of_cycle hcycle
  cases table with
  | obj written =>
      obtain ⟨start, -, hfails, -⟩ := fails_of_resolve hfault
      cases hfails with
      | cycle => exact ⟨_, _, hfault⟩
      | improper himproper => exact absurd himproper (hproper _)
  | _ =>
      -- nothing but an object has members
      obtain ⟨next, ⟨record, hrecord, -⟩, -⟩ := TransGen.head'_iff.mp hcycle
      cases hrecord

end Mannequin.Alias

namespace Mannequin.Character

open Alias Relation

variable {α : Type}

/-- A table is refused for a cycle with the keys along it: from the key in question and back,
none twice, each with a mirror record that names the one after it. The cycle is the one that
the chain of the smallest key without a definition leads into. Conversely, a table with a
cycle is refused for one if each of its mirror records has no other member and names a key of
the table. -/
theorem definitions_cycle (name : String) (table : Json α) :
    (∀ e, definitions name table = .error e → e.kind = .cycle → ∃ key walk start,
      e.message = "mirror cycle detected at '" ++ key ++ "': " ++ " -> ".intercalate walk ∧
        e.path = Location.joinKey name key ∧ IsCycle table.members key walk ∧
          FirstEndless table.members start ∧ TransGen (Mirrors table.members) start key) ∧
      ((∀ key record, table.member? key = some record → IsMirror record →
          ∃ next, Names record next ∧ table.has next) →
        (∃ key, TransGen (Mirrors table.members) key key) →
          ∃ e, definitions name table = .error e ∧ e.kind = .cycle) := by
  constructor
  · intro e h hkind
    obtain ⟨fault, hfault, rfl⟩ := mapError_eq_error.mp h
    cases fault with
    | cycle key walk =>
        obtain ⟨hcycle, start, hfirst, hreached⟩ := of_resolve_eq_cycle hfault
        exact ⟨key, walk, start, rfl, rfl, hcycle, hfirst, hreached⟩
    | _ => cases hkind
  · rintro hproper ⟨key, hcycle⟩
    have hall : ∀ key, ¬ Improper table.members key := by
      rintro key ⟨record, hrecord, hmirror, hmissing⟩
      obtain ⟨next, hnames, hknown⟩ := hproper key record hrecord hmirror
      rw [Json.has, Json.member?, hmissing next hnames] at hknown
      cases hknown
    obtain ⟨repeated, closed, hresolve⟩ := exists_resolve_eq_cycle hall hcycle
    exact ⟨_, mapError_eq_error.mpr ⟨_, hresolve, rfl⟩, rfl⟩

/-- Three paws, two of which mirror each other. The first one leads to them. -/
def paws : Json Nat :=
  .obj [("paw_a", .obj [("mirror", .str "paw_b")]), ("paw_b", .obj [("mirror", .str "paw_c")]),
    ("paw_c", .obj [("mirror", .str "paw_b")])]

theorem definitions_cycle_paws : ∃ e key walk start,
    definitions "bone_meshes" paws = .error e ∧ e.kind = .cycle ∧
      e.message = "mirror cycle detected at '" ++ key ++ "': " ++ " -> ".intercalate walk ∧
        IsCycle paws.members key walk ∧ FirstEndless paws.members start ∧
          TransGen (Mirrors paws.members) start key := by
  have hproper : ∀ key record, paws.member? key = some record → IsMirror record →
      ∃ next, Names record next ∧ paws.has next := by
    intro key record hrecord _
    have hentry : (key, record) ∈ paws.members.entries := NameMap.mem_entries_iff.mpr hrecord
    rcases hentry with _ | ⟨_, _ | ⟨_, _ | ⟨_, ⟨⟩⟩⟩⟩
    · exact ⟨"paw_b", ⟨rfl, rfl⟩, by decide⟩
    · exact ⟨"paw_c", ⟨rfl, rfl⟩, by decide⟩
    · exact ⟨"paw_b", ⟨rfl, rfl⟩, by decide⟩
  have hthere : Mirrors paws.members "paw_b" "paw_c" := ⟨_, rfl, rfl, rfl⟩
  have hback : Mirrors paws.members "paw_c" "paw_b" := ⟨_, rfl, rfl, rfl⟩
  obtain ⟨e, h, hkind⟩ := (definitions_cycle "bone_meshes" paws).2 hproper
    ⟨"paw_b", (TransGen.single hthere).tail hback⟩
  obtain ⟨key, walk, start, hmessage, -, hcycle, hfirst, hreached⟩ :=
    (definitions_cycle "bone_meshes" paws).1 e h hkind
  exact ⟨e, key, walk, start, h, hkind, hmessage, hcycle, hfirst, hreached⟩

/-- The paw that leads to the cycle is no part of it. -/
example : (match definitions "bone_meshes" paws with
    | .error e => some (e.message, e.path)
    | .ok _ => none) =
      some ("mirror cycle detected at 'paw_b': paw_b -> paw_c -> paw_b", "bone_meshes.paw_b") := by
  decide +kernel

end Mannequin.Character
