import Mathlib.Data.List.Perm.Subperm
import Mathlib.Data.List.Nodup
import Mannequin.NameMap

/-!
# Lookups in name maps

Every operation on a name map is described by the lookups of its result, and two
maps with the same lookups are equal. Later proofs use these equations and never
look at the list of entries.
-/

namespace Mannequin

namespace NameMap

variable {β γ : Type}

/-! ### Entries and lookups -/

theorem ne_of_name_lt {a b : String × β} (h : a.1 < b.1) : a.1 ≠ b.1 := by
  intro heq
  rw [heq] at h
  exact String.lt_irrefl _ h

/-- No name has two entries. -/
theorem nodup_names (m : NameMap β) : m.names.Nodup := by
  apply List.pairwise_map.mpr
  exact m.sorted.imp ne_of_name_lt

theorem lookup_cons (name first : String) (value : β) (rest : List (String × β)) :
    ((first, value) :: rest).lookup name =
      if name = first then some value else rest.lookup name := by
  rw [List.lookup_cons]
  by_cases h : name = first
  · simp [h]
  · simp [beq_false_of_ne h, h]

theorem lookup_eq_of_mem {l : List (String × β)} (hl : (l.map Prod.fst).Nodup) {name : String}
    {value : β} (h : (name, value) ∈ l) : l.lookup name = some value := by
  induction l with
  | nil => cases h
  | cons head rest ih =>
      obtain ⟨other, kept⟩ := head
      simp only [List.map_cons, List.nodup_cons] at hl
      rcases List.mem_cons.mp h with heq | hrest
      · cases heq
        exact List.lookup_cons_self
      · have hne : name ≠ other := fun heq =>
          hl.1 (List.mem_map.mpr ⟨(name, value), hrest, heq⟩)
        rw [lookup_cons, if_neg hne]
        exact ih hl.2 hrest

theorem mem_of_lookup_eq {l : List (String × β)} {name : String} {value : β}
    (h : l.lookup name = some value) : (name, value) ∈ l := by
  obtain ⟨before, after, rfl, _⟩ := List.lookup_eq_some_iff.mp h
  simp

theorem mem_entries_iff {m : NameMap β} {name : String} {value : β} :
    (name, value) ∈ m.entries ↔ m.get? name = some value :=
  ⟨lookup_eq_of_mem m.nodup_names, mem_of_lookup_eq⟩

theorem mem_def {m : NameMap β} {name : String} : name ∈ m ↔ (m.get? name).isSome = true :=
  Iff.rfl

theorem mem_iff_exists {m : NameMap β} {name : String} :
    name ∈ m ↔ ∃ value, m.get? name = some value := by
  rw [mem_def, Option.isSome_iff_exists]

theorem not_mem_iff {m : NameMap β} {name : String} : name ∉ m ↔ m.get? name = none := by
  rw [mem_def, Option.not_isSome_iff_eq_none]

theorem mem_of_get? {m : NameMap β} {name : String} {value : β}
    (h : m.get? name = some value) : name ∈ m :=
  mem_iff_exists.mpr ⟨value, h⟩

@[simp] theorem mem_names {m : NameMap β} {name : String} : name ∈ m.names ↔ name ∈ m := by
  rw [mem_iff_exists, names, List.mem_map]
  constructor
  · rintro ⟨⟨other, value⟩, hmem, rfl⟩
    exact ⟨value, mem_entries_iff.mp hmem⟩
  · rintro ⟨value, hvalue⟩
    exact ⟨(name, value), mem_entries_iff.mpr hvalue, rfl⟩

/-- Sorted lists with the same members are the same list. -/
private theorem entries_eq_of_mem {l l' : List (String × β)}
    (h : l.Pairwise (fun a b => a.1 < b.1)) (h' : l'.Pairwise (fun a b => a.1 < b.1))
    (hmem : ∀ e, e ∈ l ↔ e ∈ l') : l = l' := by
  have nodup : ∀ {k : List (String × β)}, k.Pairwise (fun a b => a.1 < b.1) → k.Nodup :=
    fun hk => hk.imp fun hlt heq => ne_of_name_lt hlt (congrArg Prod.fst heq)
  have hperm : l.Perm l' := (List.perm_ext_iff_of_nodup (nodup h) (nodup h')).mpr hmem
  have hantisymm : ∀ a b : String × β, a ∈ l → b ∈ l' → a.1 < b.1 → b.1 < a.1 → a = b :=
    fun _ _ _ _ hab hba => absurd (String.lt_trans hab hba) (String.lt_irrefl _)
  exact hperm.eq_of_pairwise hantisymm h h'

/-- Lookups determine a map. -/
theorem ext_get? {m m' : NameMap β} (h : ∀ name, m.get? name = m'.get? name) : m = m' := by
  apply NameMap.ext
  refine entries_eq_of_mem m.sorted m'.sorted fun e => ?_
  obtain ⟨name, value⟩ := e
  rw [mem_entries_iff, mem_entries_iff, h]

/-! ### Operations -/

@[simp] theorem get?_empty (name : String) : (∅ : NameMap β).get? name = none := rfl

@[simp] theorem not_mem_empty (name : String) : name ∉ (∅ : NameMap β) := by
  rw [not_mem_iff, get?_empty]

private theorem lookup_insertEntry (name : String) (value : β) (l : List (String × β))
    (other : String) :
    (insertEntry name value l).lookup other =
      if other = name then some value else l.lookup other := by
  induction l with
  | nil => rw [insertEntry, lookup_cons]
  | cons head rest ih =>
      obtain ⟨first, kept⟩ := head
      rw [insertEntry]
      split
      · rw [lookup_cons]
      · split
        · rename_i heq
          subst heq
          rw [lookup_cons, lookup_cons]
          split <;> rfl
        · rename_i hne
          rw [lookup_cons, lookup_cons, ih]
          by_cases h : other = first
          · subst h
            rw [if_pos rfl, if_pos rfl, if_neg (Ne.symm hne)]
          · rw [if_neg h, if_neg h]

theorem get?_insert (m : NameMap β) (name : String) (value : β) (other : String) :
    (m.insert name value).get? other = if other = name then some value else m.get? other :=
  lookup_insertEntry name value m.entries other

@[simp] theorem mem_insert {m : NameMap β} {name : String} {value : β} {other : String} :
    other ∈ m.insert name value ↔ other = name ∨ other ∈ m := by
  rw [mem_def, mem_def, get?_insert]
  by_cases h : other = name <;> simp [h]

theorem insertNew_of_not_mem {m : NameMap β} {name : String} {value : β} (h : name ∉ m) :
    m.insertNew name value = m.insert name value :=
  if_neg h

private theorem lookup_filter (p : String → β → Bool) {l : List (String × β)}
    (hl : (l.map Prod.fst).Nodup) (name : String) :
    (l.filter fun e => p e.1 e.2).lookup name = (l.lookup name).filter (p name) := by
  have hsub : ((l.filter fun e => p e.1 e.2).map Prod.fst).Nodup :=
    hl.sublist (List.filter_sublist.map Prod.fst)
  apply Option.ext
  intro value
  rw [Option.filter_eq_some_iff]
  constructor
  · intro h
    have hmem := List.mem_filter.mp (mem_of_lookup_eq h)
    exact ⟨lookup_eq_of_mem hl hmem.1, hmem.2⟩
  · rintro ⟨h, hp⟩
    exact lookup_eq_of_mem hsub (List.mem_filter.mpr ⟨mem_of_lookup_eq h, hp⟩)

theorem get?_filter (m : NameMap β) (p : String → β → Bool) (name : String) :
    (m.filter p).get? name = (m.get? name).filter (p name) :=
  lookup_filter p m.nodup_names name

theorem get?_erase (m : NameMap β) (name other : String) :
    (m.erase name).get? other = if other = name then none else m.get? other := by
  have h : (m.erase name).get? other = (m.get? other).filter fun _ => other != name :=
    lookup_filter (fun other _ => other != name) m.nodup_names other
  rw [h]
  by_cases heq : other = name
  · simp [heq]
  · have htest : (other != name) = true := bne_iff_ne.mpr heq
    cases m.get? other <;> simp [htest, heq]

@[simp] theorem mem_erase {m : NameMap β} {name other : String} :
    other ∈ m.erase name ↔ other ≠ name ∧ other ∈ m := by
  rw [mem_def, mem_def, get?_erase]
  by_cases h : other = name <;> simp [h]

theorem size_erase_le (m : NameMap β) (name : String) : (m.erase name).size ≤ m.size := by
  rw [size, entries_erase]
  exact List.length_filter_le _ _

theorem size_erase_lt {m : NameMap β} {name : String} (h : name ∈ m) :
    (m.erase name).size < m.size := by
  obtain ⟨value, hvalue⟩ := mem_iff_exists.mp h
  rw [size, entries_erase]
  apply List.length_filter_lt_length_iff_exists.mpr
  exact ⟨(name, value), mem_entries_iff.mpr hvalue, by simp⟩

/-- A lookup after an entry that may have been refused. -/
theorem get?_insertNew_eq_some {m : NameMap β} {name other : String} {value found : β}
    (h : (m.insertNew name value).get? other = some found) :
    (other = name ∧ found = value) ∨ m.get? other = some found := by
  rw [insertNew] at h
  split at h
  · exact .inr h
  · rw [get?_insert] at h
    split at h
    · rename_i heq
      exact .inl ⟨heq, (Option.some.inj h).symm⟩
    · exact .inr h

theorem get?_map (m : NameMap β) (f : String → β → γ) (name : String) :
    (m.map f).get? name = (m.get? name).map (f name) := by
  apply Option.ext
  intro image
  rw [Option.map_eq_some_iff, ← mem_entries_iff, entries_map, List.mem_map]
  constructor
  · rintro ⟨⟨other, value⟩, hmem, heq⟩
    cases heq
    exact ⟨value, mem_entries_iff.mp hmem, rfl⟩
  · rintro ⟨value, hvalue, rfl⟩
    exact ⟨(name, value), mem_entries_iff.mpr hvalue, rfl⟩

@[simp] theorem mem_map {m : NameMap β} {f : String → β → γ} {name : String} :
    name ∈ m.map f ↔ name ∈ m := by
  rw [mem_def, mem_def, get?_map, Option.isSome_map]

theorem isEmpty_iff {m : NameMap β} : m.isEmpty = true ↔ m = ∅ := by
  rw [isEmpty, List.isEmpty_iff]
  exact ⟨fun h => NameMap.ext h, fun h => by rw [h]; rfl⟩

/-- A list whose names differ gives the map that looks up its entries. -/
theorem get?_ofList {l : List (String × β)} (hl : (l.map Prod.fst).Nodup) (name : String) :
    (ofList l).get? name = l.lookup name := by
  suffices h : ∀ m : NameMap β,
      (l.foldl (fun m e => m.insert e.1 e.2) m).get? name = (l.lookup name).or (m.get? name) by
    rw [ofList, h ∅, get?_empty, Option.or_none]
  induction l with
  | nil => simp
  | cons head rest ih =>
      obtain ⟨first, value⟩ := head
      simp only [List.map_cons, List.nodup_cons] at hl
      intro m
      rw [List.foldl_cons, ih hl.2, get?_insert, lookup_cons]
      by_cases h : name = first
      · subst h
        have habsent : rest.lookup name = none := by
          rw [List.lookup_eq_none_iff]
          intro e he
          have hne : e.1 ≠ name := fun heq => hl.1 (List.mem_map.mpr ⟨e, he, heq⟩)
          simpa using Ne.symm hne
        simp [habsent]
      · simp [h]

/-- Different names are looked up as the places where they stand. -/
theorem get?_positions {names : List String} (hnames : names.Nodup) {name : String} {i : Nat} :
    (positions names).get? name = some i ↔ names[i]? = some name := by
  have hfst : (names.zipIdx.map Prod.fst).Nodup := by rwa [List.zipIdx_map_fst]
  rw [positions, get?_ofList hfst, ← List.mk_mem_zipIdx_iff_getElem?]
  exact ⟨mem_of_lookup_eq, lookup_eq_of_mem hfst⟩

@[simp] theorem positions_concat (names : List String) (name : String) :
    positions (names ++ [name]) = (positions names).insert name names.length := by
  rw [positions, ofList, List.zipIdx_append, List.foldl_append, Nat.zero_add]
  rfl

private theorem lookup_traverseEntries {ε : Type} {f : String → β → Except ε γ}
    {l : List (String × β)} {images : List (String × γ)} (h : traverseEntries f l = .ok images)
    {name : String} {value : β} (hvalue : l.lookup name = some value) :
    ∃ image, f name value = .ok image ∧ images.lookup name = some image := by
  induction l generalizing images with
  | nil => cases hvalue
  | cons head rest ih =>
      obtain ⟨first, kept⟩ := head
      simp only [traverseEntries, bind, Except.bind] at h
      split at h
      · cases h
      · rename_i image himage
        split at h
        · cases h
        · rename_i others hothers
          cases h
          rw [lookup_cons] at hvalue ⊢
          by_cases heq : name = first
          · subst heq
            rw [if_pos rfl] at hvalue ⊢
            cases hvalue
            exact ⟨image, himage, rfl⟩
          · rw [if_neg heq] at hvalue ⊢
            exact ih hothers hvalue

/-- Every value is looked up as the image that was made of it. -/
theorem get?_traverse {ε : Type} {m : NameMap β} {f : String → β → Except ε γ} {images : NameMap γ}
    (h : m.traverse f = .ok images) {name : String} {value : β}
    (hvalue : m.get? name = some value) :
    ∃ image, f name value = .ok image ∧ images.get? name = some image := by
  unfold traverse at h
  split at h
  · cases h
  · rename_i others hothers
    cases h
    exact lookup_traverseEntries hothers hvalue

theorem names_traverse {ε : Type} {m : NameMap β} {f : String → β → Except ε γ}
    {images : NameMap γ} (h : m.traverse f = .ok images) : images.names = m.names := by
  unfold traverse at h
  split at h
  · cases h
  · rename_i others hothers
    cases h
    exact names_traverseEntries hothers

/-- Every image is that of a value. -/
theorem of_get?_traverse {ε : Type} {m : NameMap β} {f : String → β → Except ε γ}
    {images : NameMap γ} (h : m.traverse f = .ok images) {name : String} {image : γ}
    (himage : images.get? name = some image) :
    ∃ value, m.get? name = some value ∧ f name value = .ok image := by
  have hname : name ∈ m := by
    rw [← mem_names, ← names_traverse h, mem_names]
    exact mem_of_get? himage
  obtain ⟨value, hvalue⟩ := mem_iff_exists.mp hname
  obtain ⟨image', hvalue', hget⟩ := get?_traverse h hvalue
  rw [himage] at hget
  cases hget
  exact ⟨value, hvalue, hvalue'⟩

/-- The names of a map. -/
def domain (m : NameMap β) : NameSet := m.map fun _ _ => ()

@[simp] theorem mem_domain {m : NameMap β} {name : String} : name ∈ m.domain ↔ name ∈ m := mem_map

end NameMap

namespace NameSet

@[simp] theorem mem_add {s : NameSet} {name other : String} :
    other ∈ add s name ↔ other = name ∨ other ∈ s := NameMap.mem_insert

/-- Members determine a set. -/
theorem ext_mem {s s' : NameSet} (h : ∀ name, name ∈ s ↔ name ∈ s') : s = s' := by
  apply NameMap.ext_get?
  intro name
  have hname := h name
  rw [NameMap.mem_def, NameMap.mem_def] at hname
  cases hs : s.get? name <;> cases hs' : s'.get? name <;> simp_all

@[simp] theorem mem_foldl_add {l : List String} {s : NameSet} {name : String} :
    name ∈ l.foldl add s ↔ name ∈ l ∨ name ∈ s := by
  induction l generalizing s with
  | nil => simp
  | cons head rest ih =>
      rw [List.foldl_cons, ih, mem_add, List.mem_cons]
      tauto

end NameSet

end Mannequin
