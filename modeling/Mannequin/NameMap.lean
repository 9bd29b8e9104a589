/-!
# Maps and sets of names

A name map is a list of entries with strictly increasing names, so two maps
with the same content are the same map and every traversal meets the names in
order. Names are ordered by their characters, which for text in UTF-8 is the
order of the bytes.
-/

namespace Mannequin

/-- A finite map from names. -/
@[ext]
structure NameMap (β : Type) where
  entries : List (String × β)
  sorted : entries.Pairwise (fun a b => a.1 < b.1)

/-- A finite set of names. -/
abbrev NameSet := NameMap Unit

namespace NameMap

variable {β γ : Type}

instance [DecidableEq β] : DecidableEq (NameMap β) := fun m n =>
  decidable_of_iff (m.entries = n.entries) (NameMap.ext_iff (x := m) (y := n)).symm

/-- Put an entry in its place, replacing the entry of the same name. -/
def insertEntry (name : String) (value : β) : List (String × β) → List (String × β)
  | [] => [(name, value)]
  | (other, kept) :: rest =>
    if name < other then (name, value) :: (other, kept) :: rest
    else if name = other then (name, value) :: rest
    else (other, kept) :: insertEntry name value rest

theorem mem_insertEntry {name : String} {value : β} {e : String × β}
    {l : List (String × β)} (h : e ∈ insertEntry name value l) :
    e = (name, value) ∨ e ∈ l := by
  induction l with
  | nil => simpa [insertEntry] using h
  | cons head rest ih =>
    obtain ⟨other, kept⟩ := head
    rw [insertEntry] at h
    split at h
    · simpa using h
    · split at h
      · simp only [List.mem_cons] at h ⊢
        exact h.imp_right .inr
      · simp only [List.mem_cons] at h ⊢
        rcases h with h | h
        · exact .inr (.inl h)
        · exact (ih h).imp_right .inr

private theorem lt_of_not_lt_of_ne {a b : String} (h : ¬ a < b) (hne : a ≠ b) : b < a :=
  Std.lt_of_le_of_ne (Std.not_lt.mp h) (Ne.symm hne)

theorem pairwise_insertEntry (name : String) (value : β) {l : List (String × β)}
    (h : l.Pairwise (fun a b => a.1 < b.1)) :
    (insertEntry name value l).Pairwise (fun a b => a.1 < b.1) := by
  induction l with
  | nil => simp [insertEntry]
  | cons head rest ih =>
    obtain ⟨other, kept⟩ := head
    have hhead := (List.pairwise_cons.mp h).1
    have hrest := (List.pairwise_cons.mp h).2
    rw [insertEntry]
    split
    · rename_i hlt
      refine List.pairwise_cons.mpr ⟨fun e he => ?_, h⟩
      rcases List.mem_cons.mp he with rfl | he
      · exact hlt
      · exact String.lt_trans hlt (hhead e he)
    · rename_i hlt
      split
      · rename_i heq
        subst heq
        exact List.pairwise_cons.mpr ⟨hhead, hrest⟩
      · rename_i hne
        refine List.pairwise_cons.mpr ⟨fun e he => ?_, ih hrest⟩
        rcases mem_insertEntry he with rfl | he
        · exact lt_of_not_lt_of_ne hlt hne
        · exact hhead e he

def empty : NameMap β := ⟨[], List.Pairwise.nil⟩

instance : EmptyCollection (NameMap β) := ⟨empty⟩

instance : Inhabited (NameMap β) := ⟨empty⟩

def size (m : NameMap β) : Nat := m.entries.length

def isEmpty (m : NameMap β) : Bool := m.entries.isEmpty

/-- The names, in increasing order. -/
def names (m : NameMap β) : List String := m.entries.map Prod.fst

def get? (m : NameMap β) (name : String) : Option β := m.entries.lookup name

def contains (m : NameMap β) (name : String) : Bool := (m.get? name).isSome

instance : Membership String (NameMap β) := ⟨fun m name => m.contains name = true⟩

instance (name : String) (m : NameMap β) : Decidable (name ∈ m) :=
  inferInstanceAs (Decidable (m.contains name = true))

def insert (m : NameMap β) (name : String) (value : β) : NameMap β :=
  ⟨insertEntry name value m.entries, pairwise_insertEntry name value m.sorted⟩

/-- Insert unless the name is taken. -/
def insertNew (m : NameMap β) (name : String) (value : β) : NameMap β :=
  if name ∈ m then m else m.insert name value

def erase (m : NameMap β) (name : String) : NameMap β :=
  ⟨m.entries.filter (fun e => e.1 != name), m.sorted.filter _⟩

/-- The map of a list of entries. Of entries with the same name the last counts. -/
def ofList (l : List (String × β)) : NameMap β :=
  l.foldl (fun m e => m.insert e.1 e.2) ∅

/-- Where each name stands in a list. Of the places of a name the last counts. -/
def positions (names : List String) : NameMap Nat := ofList names.zipIdx

/-- The entries whose name and value pass a test. -/
def filter (m : NameMap β) (p : String → β → Bool) : NameMap β :=
  ⟨m.entries.filter (fun e => p e.1 e.2), m.sorted.filter _⟩

/-- Apply a function to every value. -/
def map (m : NameMap β) (f : String → β → γ) : NameMap γ :=
  ⟨m.entries.map (fun e => (e.1, f e.1 e.2)), by
    simpa [List.pairwise_map] using m.sorted⟩

/-- Apply a function that may fail to every entry of a list, from the first on. -/
def traverseEntries {ε : Type} (f : String → β → Except ε γ) :
    List (String × β) → Except ε (List (String × γ))
  | [] => .ok []
  | (name, value) :: rest => do
    let image ← f name value
    let images ← traverseEntries f rest
    return (name, image) :: images

theorem names_traverseEntries {ε : Type} {f : String → β → Except ε γ} {l : List (String × β)}
    {images : List (String × γ)} (h : traverseEntries f l = .ok images) :
    images.map Prod.fst = l.map Prod.fst := by
  induction l generalizing images with
  | nil =>
    cases h
    rfl
  | cons head rest ih =>
    obtain ⟨name, value⟩ := head
    simp only [traverseEntries, bind, Except.bind] at h
    split at h
    · cases h
    · split at h
      · cases h
      · rename_i hrest
        cases h
        simp [ih hrest]

/-- Apply a function that may fail to every value, in the order of the names.
The first failure is the result. -/
def traverse {ε : Type} (m : NameMap β) (f : String → β → Except ε γ) : Except ε (NameMap γ) :=
  match h : traverseEntries f m.entries with
  | .error e => .error e
  | .ok images => .ok ⟨images, by
      have hsorted := List.pairwise_map.mpr m.sorted
      rw [← names_traverseEntries h] at hsorted
      exact List.pairwise_map.mp hsorted⟩

@[simp] theorem entries_empty : (∅ : NameMap β).entries = [] := rfl

@[simp] theorem entries_insert (m : NameMap β) (name : String) (value : β) :
    (m.insert name value).entries = insertEntry name value m.entries := rfl

@[simp] theorem entries_erase (m : NameMap β) (name : String) :
    (m.erase name).entries = m.entries.filter (fun e => e.1 != name) := rfl

@[simp] theorem entries_filter (m : NameMap β) (p : String → β → Bool) :
    (m.filter p).entries = m.entries.filter (fun e => p e.1 e.2) := rfl

@[simp] theorem entries_map (m : NameMap β) (f : String → β → γ) :
    (m.map f).entries = m.entries.map (fun e => (e.1, f e.1 e.2)) := rfl

end NameMap

namespace NameSet

/-- Add a name. -/
def add (s : NameSet) (name : String) : NameSet := NameMap.insert s name ()

/-- The set of the names of a list. -/
def ofNames (l : List String) : NameSet := l.foldl add ∅

end NameSet

end Mannequin
