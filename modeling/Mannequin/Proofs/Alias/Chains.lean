import Mathlib.Data.List.Chain
import Mathlib.Logic.Relation
import Mannequin.Proofs.Alias
import Mannequin.Proofs.Character.Resolution

/-!
# Tables that can be resolved

A walk stops at a record that is not well-formed, at a name that is not in the table
and at a name that is under way. The keys under way form a chain of references, so in
a table whose chains never revisit a key the last fault cannot arise. Conversely, a
table all of whose chains end has no chain that revisits a key, because its references
are well-founded.
-/

namespace Mannequin.Alias

open Relation

variable {α : Type}

/-- The record of a key is a mirror record that names another key. -/
def Refers (table : NameMap (Json α)) (key next : String) : Prop :=
  ∃ record, table.get? key = some record ∧ record.member? "mirror" = some (.str next)

variable {table resolved resolved' : NameMap (Json α)} {key next : String}
variable {record definition : Json α}

/-! ### Chains that end -/

/-- Nothing can be followed forever from a key whose chain ends. -/
theorem Ends.acc (h : Ends table record definition) (hrecord : table.get? key = some record) :
    Acc (Function.swap (Refers table)) key := by
  induction h generalizing key with
  | concrete hplain =>
      refine ⟨_, fun next ⟨other, hother, hmember⟩ => ?_⟩
      rw [hrecord] at hother
      cases hother
      exact absurd (isMirror_iff.mpr ⟨_, hmember⟩) hplain
  | mirror hnext hfound _ ih =>
      refine ⟨_, fun next' ⟨other, hother, hmember⟩ => ?_⟩
      rw [hrecord] at hother
      cases hother
      rw [hnext.2] at hmember
      cases hmember
      exact ih hfound

/-- A chain of a well-founded relation revisits nothing. -/
theorem nodup_of_isChain {β : Type} {r : β → β → Prop} (hwf : WellFounded (Function.swap r))
    {chain : List β} (h : chain.IsChain r) : chain.Nodup := by
  have hpairs : chain.Pairwise (TransGen r) :=
    List.isChain_iff_pairwise.mp (h.imp fun _ _ => .single)
  refine hpairs.imp fun {a b} hab heq => ?_
  subst heq
  exact hwf.transGen.asymmetric a a (transGen_swap.mpr hab) (transGen_swap.mpr hab)

/-- If the chain of every key ends, no chain revisits a key. -/
theorem nodup_of_ends
    (h : ∀ key record, table.get? key = some record → ∃ definition, Ends table record definition)
    {chain : List String} (hchain : chain.IsChain (Refers table)) : chain.Nodup := by
  refine nodup_of_isChain ⟨fun key => ?_⟩ hchain
  cases hrecord : table.get? key with
  | none =>
      refine ⟨_, fun next ⟨record, hfound, _⟩ => ?_⟩
      rw [hrecord] at hfound
      cases hfound
  | some record =>
      obtain ⟨definition, hends⟩ := h key record hrecord
      exact hends.acc hrecord

/-! ### Walks that succeed -/

/-- A key under way is not referred to from the end of the way. -/
theorem not_mem_trail {trail : List String}
    (hacyclic : ∀ chain : List String, chain.IsChain (Refers table) → chain.Nodup)
    (htrail : (key :: trail).IsChain (Function.swap (Refers table))) (h : Refers table key next) :
    next ∉ key :: trail := by
  have hchain : (next :: key :: trail).reverse.IsChain (Refers table) :=
    List.isChain_reverse.mpr (htrail.cons_cons h)
  exact (List.nodup_cons.mp (List.nodup_reverse.mp (hacyclic _ hchain))).1

/-- Where records are well-formed and chains revisit nothing, a walk gets to its end. -/
theorem exists_walk {earlier : List String}
    (hproper : ∀ key record, table.get? key = some record → IsMirror record →
      ∃ next found, Names record next ∧ table.get? next = some found)
    (hacyclic : ∀ chain : List String, chain.IsChain (Refers table) → chain.Nodup)
    (hrecord : table.get? key = some record)
    (htrail : (key :: earlier).IsChain (Function.swap (Refers table))) :
    ∃ result, walk table key earlier record resolved = .ok result := by
  induction key, earlier, record using walk.induct table resolved with
  | case1 key earlier record found hfound => exact ⟨_, walk_of_noted hfound⟩
  | case2 key earlier record hnone hmirror fault hfault =>
      obtain ⟨next, found, hnext, hfound⟩ := hproper key record hrecord hmirror
      rw [target_eq_ok.mpr hnext] at hfault
      cases hfault
  | case3 key earlier record hnone hmirror next hnext hmissing =>
      obtain ⟨next', found, hnext', hfound⟩ := hproper key record hrecord hmirror
      rw [target_eq_ok.mpr hnext'] at hnext
      cases hnext
      rw [hmissing] at hfound
      cases hfound
  | case4 key earlier record hnone hmirror next hnext found hfound hvisited =>
      have hrefers : Refers table key next := ⟨record, hrecord, (target_eq_ok.mp hnext).2⟩
      exact absurd hvisited (not_mem_trail hacyclic htrail hrefers)
  | case5 key earlier record hnone hmirror next hnext found hfound hnew ih =>
      have hnames := target_eq_ok.mp hnext
      have hrefers : Refers table key next := ⟨record, hrecord, hnames.2⟩
      obtain ⟨result, hresult⟩ := ih hfound (htrail.cons_cons hrefers)
      rw [walk_of_next hnone hnames hfound hnew, hresult]
      exact ⟨_, rfl⟩
  | case6 key earlier record hnone hplain => exact ⟨_, walk_of_concrete hnone hplain⟩

/-- Walks that always get to their end can be made from the keys of a list in turn. -/
theorem exists_walks {entries : List (String × Json α)}
    (h : ∀ entry ∈ entries, ∀ resolved,
      ∃ result, walk table entry.1 [] entry.2 resolved = .ok result)
    (resolved : NameMap (Json α)) : ∃ resolved', walks table entries resolved = .ok resolved' := by
  induction entries generalizing resolved with
  | nil => exact ⟨resolved, rfl⟩
  | cons entry rest ih =>
      obtain ⟨⟨definition, middle⟩, hfirst⟩ := h entry List.mem_cons_self resolved
      obtain ⟨resolved', hrest⟩ := ih (fun other hmem => h other (List.mem_cons_of_mem _ hmem)) middle
      refine ⟨resolved', bind_eq_ok.mpr ⟨middle, ?_, hrest⟩⟩
      exact bind_eq_ok.mpr ⟨_, hfirst, rfl⟩

end Mannequin.Alias

namespace Mannequin.Character

open Alias

variable {α : Type}

/-- A table is resolved exactly if each of its mirror records has no other member and
names a key of the table, and no chain of references revisits a key. The name of the
table plays no part. Every table has a result, a resolution or a fault, because a walk
visits no key twice. -/
theorem definitions_succeed_iff (name : String) (written : List (String × Json α)) :
    (∃ resolved, definitions name (.obj written) = .ok resolved) ↔
      (∀ key record, (Json.obj written).member? key = some record → IsMirror record →
        record.members.size = 1 ∧
          ∃ next, record.member? "mirror" = some (.str next) ∧ (Json.obj written).has next) ∧
      ∀ chain : List String, chain.IsChain (Refers (Json.obj written).members) → chain.Nodup := by
  constructor
  · rintro ⟨resolved, h⟩
    have hends : ∀ key record, (Json.obj written).member? key = some record →
        ∃ definition, Ends (Json.obj written).members record definition := by
      intro key record hrecord
      obtain ⟨definition, hends, -⟩ := get?_resolve (resolve_eq_ok h) hrecord
      exact ⟨definition, hends⟩
    refine ⟨fun key record hrecord hmirror => ?_, fun chain hchain => nodup_of_ends hends hchain⟩
    obtain ⟨definition, hdefinition⟩ := hends key record hrecord
    obtain ⟨next, found, hnext, hfound, -⟩ := hdefinition.exists_next hmirror
    exact ⟨hnext.1, next, hnext.2, Option.isSome_iff_exists.mpr ⟨found, hfound⟩⟩
  · rintro ⟨hproper, hacyclic⟩
    have hwalk : ∀ entry ∈ (Json.obj written).members.entries, ∀ resolved,
        ∃ result, walk (Json.obj written).members entry.1 [] entry.2 resolved = .ok result := by
      intro entry hentry resolved
      refine exists_walk ?_ hacyclic (NameMap.mem_entries_iff.mp hentry) (.singleton _)
      intro key record hrecord hmirror
      obtain ⟨hsize, next, hmember, hknown⟩ := hproper key record hrecord hmirror
      obtain ⟨found, hfound⟩ := Option.isSome_iff_exists.mp hknown
      exact ⟨next, found, ⟨hsize, hmember⟩, hfound⟩
    obtain ⟨resolved, hresolved⟩ := exists_walks hwalk ∅
    refine ⟨resolved, ?_⟩
    have hresolve : Alias.resolve (Json.obj written) = .ok resolved := hresolved
    rw [definitions, hresolve]
    rfl

end Mannequin.Character
