import Mathlib.Data.List.Nodup
import Mannequin.Skeleton.Assembly

/-!
# Entries laid over base bones

An entry for a base bone changes it where it stands, any other plain entry adds a bone
at the end. What is said of a bone later counts more: its parent is the one that the
last of its entries gives that gives one, and if none does, that of the base bone.
-/

namespace Mannequin

variable {α : Type}

namespace BoneEntry

@[simp] theorem override_name (entry : BoneEntry α) (bone : Bone α) :
    (entry.override bone).name = bone.name := rfl

theorem override_parent (entry : BoneEntry α) (bone : Bone α) :
    (entry.override bone).parent = entry.parent.elim bone.parent nonempty? := by
  rw [override]
  cases entry.parent <;> rfl

@[simp] theorem bone_name [Scalar α] (entry : BoneEntry α) : entry.bone.name = entry.name := rfl

theorem bone_parent [Scalar α] (entry : BoneEntry α) :
    entry.bone.parent = entry.parent.elim none nonempty? := by
  rw [bone]
  cases entry.parent <;> rfl

end BoneEntry

/-- Of items with different keys, only one has the key of an item. -/
theorem filter_eq_singleton {β : Type} {f : β → String} {l : List β} (hl : (l.map f).Nodup)
    {a : β} (ha : a ∈ l) : (l.filter fun b => f b = f a) = [a] := by
  induction l with
  | nil => cases ha
  | cons first rest ih =>
      rw [List.map_cons, List.nodup_cons] at hl
      rcases List.mem_cons.mp ha with rfl | ha
      · have hrest : (rest.filter fun b => f b = f a) = [] := by
          refine List.filter_eq_nil_iff.mpr fun b hb => ?_
          have hne : f b ≠ f a := fun heq => hl.1 (heq ▸ List.mem_map_of_mem hb)
          simpa using hne
        rw [List.filter_cons_of_pos (by simp), hrest]
      · have hne : f first ≠ f a := fun heq => hl.1 (heq ▸ List.mem_map_of_mem ha)
        rw [List.filter_cons_of_neg (by simpa using hne), ih hl.2 ha]

theorem find?_eq_some_of_nodup {β : Type} {f : β → String} {l : List β} (hl : (l.map f).Nodup)
    {a : β} (ha : a ∈ l) : (l.find? fun b => f b = f a) = some a := by
  rw [← List.head?_filter, filter_eq_singleton hl ha, List.head?_cons]

namespace Skeleton

variable {base added bones : List (Bone α)} {entries rest : List (BoneEntry α)}
  {entry : BoneEntry α} {bone : Bone α} {name : String}

/-! ### Overlaid bones -/

/-- A bone with what entries say about it, in their order. -/
def overlaid (entries : List (BoneEntry α)) (bone : Bone α) : Bone α :=
  entries.foldl (fun bone entry => if bone.name = entry.name then entry.override bone else bone)
    bone

theorem overlaid_cons (entry : BoneEntry α) (rest : List (BoneEntry α)) (bone : Bone α) :
    overlaid (entry :: rest) bone =
      overlaid rest (if bone.name = entry.name then entry.override bone else bone) := rfl

@[simp] theorem overlaid_name (entries : List (BoneEntry α)) (bone : Bone α) :
    (overlaid entries bone).name = bone.name := by
  induction entries generalizing bone with
  | nil => rfl
  | cons entry rest ih =>
      rw [overlaid_cons, ih]
      split <;> rfl

/-- The bones that entries add to base bones. -/
def addedEntries (base : List (Bone α)) (entries : List (BoneEntry α)) : List (BoneEntry α) :=
  entries.filter fun entry => entry.name ∉ base.map Bone.name

theorem addedEntries_cons_of_mem (h : entry.name ∈ base.map Bone.name) :
    addedEntries base (entry :: rest) = addedEntries base rest :=
  List.filter_cons_of_neg (by simpa using h)

theorem addedEntries_cons_of_not_mem (h : entry.name ∉ base.map Bone.name) :
    addedEntries base (entry :: rest) = entry :: addedEntries base rest :=
  List.filter_cons_of_pos (by simpa using h)

theorem not_mem_of_added (h : entry ∈ addedEntries base entries) :
    entry.name ∉ base.map Bone.name := by
  simpa using (List.mem_filter.mp h).2

theorem any_name {bones : List (Bone α)} :
    (bones.any fun bone => bone.name = name) = true ↔ name ∈ bones.map Bone.name := by
  simp

/-- What an entry says about a base bone changes nothing about which bones are added. -/
theorem addedEntries_override (entry : BoneEntry α) (base : List (Bone α))
    (rest : List (BoneEntry α)) :
    addedEntries
        (base.map fun bone => if bone.name = entry.name then entry.override bone else bone) rest =
      addedEntries base rest := by
  have hnames : (base.map fun bone =>
      if bone.name = entry.name then entry.override bone else bone).map Bone.name =
      base.map Bone.name := by
    rw [List.map_map]
    exact List.map_congr_left fun bone _ => overlaid_name [entry] bone
  rw [addedEntries, addedEntries, hnames]

variable [Scalar α]

/-- An overlay is made up of the overlaid base bones and of the bones that are added. -/
theorem of_overlay_eq_ok (h : overlay base added entries = .ok bones) :
    bones = base.map (overlaid entries) ++
      (added ++ (addedEntries base entries).map BoneEntry.bone) := by
  induction entries generalizing base added with
  | nil =>
      cases h
      have hsame : overlaid ([] : List (BoneEntry α)) = id := rfl
      simp [hsame, addedEntries]
  | cons entry rest ih =>
      rw [overlay] at h
      by_cases hbase : entry.name ∈ base.map Bone.name
      · rw [if_pos (any_name.mpr hbase)] at h
        rw [ih h, addedEntries_cons_of_mem hbase, addedEntries_override, List.map_map]
        rfl
      · rw [if_neg fun hany => hbase (any_name.mp hany)] at h
        split at h
        · cases h
        · have hsame : base.map (overlaid (entry :: rest)) = base.map (overlaid rest) := by
            refine List.map_congr_left fun bone hbone => ?_
            have hne : bone.name ≠ entry.name := fun heq =>
              hbase (heq ▸ List.mem_map_of_mem hbone)
            rw [overlaid_cons, if_neg hne]
          rw [ih h, addedEntries_cons_of_not_mem hbase, hsame, List.map_cons, List.append_assoc,
            List.singleton_append]

/-- Entries that add bones under different names can be laid over. -/
theorem exists_overlay_eq_ok
    (h : (added.map Bone.name ++ (addedEntries base entries).map BoneEntry.name).Nodup) :
    ∃ bones, overlay base added entries = .ok bones := by
  induction entries generalizing base added with
  | nil => exact ⟨_, rfl⟩
  | cons entry rest ih =>
      rw [overlay]
      by_cases hbase : entry.name ∈ base.map Bone.name
      · rw [addedEntries_cons_of_mem hbase] at h
        rw [if_pos (any_name.mpr hbase)]
        exact ih (by rwa [addedEntries_override])
      · rw [addedEntries_cons_of_not_mem hbase, List.map_cons] at h
        have hnew : entry.name ∉ added.map Bone.name := fun hadded =>
          (List.nodup_append'.mp h).2.2 hadded List.mem_cons_self
        rw [if_neg fun hany => hbase (any_name.mp hany),
          if_neg fun hany => hnew (any_name.mp hany)]
        refine ih ?_
        rwa [List.map_append, List.append_assoc]

/-- An overlay of entries that add bones under different names, as it is. -/
theorem overlay_eq_ok (h : ((addedEntries base entries).map BoneEntry.name).Nodup) :
    overlay base [] entries =
      .ok (base.map (overlaid entries) ++ (addedEntries base entries).map BoneEntry.bone) := by
  have hdistinct : (([] : List (Bone α)).map Bone.name ++
      (addedEntries base entries).map BoneEntry.name).Nodup := h
  obtain ⟨bones, hbones⟩ := exists_overlay_eq_ok hdistinct
  rw [hbones, of_overlay_eq_ok hbones, List.nil_append]

/-! ### Fields that entries give -/

variable {β γ : Type} {said : BoneEntry α → Option β}

/-- What the last of the entries for a bone says about it that says something. -/
def lastSaid (said : BoneEntry α → Option β) (entries : List (BoneEntry α)) (name : String) :
    Option β :=
  ((entries.filter fun entry => entry.name = name).filterMap said).getLast?

omit [Scalar α] in
theorem lastSaid_cons : lastSaid said (entry :: rest) name =
    (lastSaid said rest name).or (if entry.name = name then said entry else none) := by
  rw [lastSaid, lastSaid, List.filter_cons]
  by_cases hname : entry.name = name
  · cases hsaid : said entry with
    | none => simp [hname, hsaid]
    | some b => simp [hname, hsaid, List.getLast?_cons]
  · simp [hname]

omit [Scalar α] in
/-- A field that every entry replaces that says something about it is as the last of them
says. -/
theorem overlaid_field {kept : Bone α → γ} {image : β → γ}
    (hfield : ∀ entry bone, kept (entry.override bone) = (said entry).elim (kept bone) image)
    (entries : List (BoneEntry α)) (bone : Bone α) :
    kept (overlaid entries bone) =
      (lastSaid said entries bone.name).elim (kept bone) image := by
  induction entries generalizing bone with
  | nil => rfl
  | cons entry rest ih =>
      rw [overlaid_cons, ih, lastSaid_cons]
      by_cases hname : bone.name = entry.name
      · rw [if_pos hname, if_pos hname.symm, entry.override_name, hfield]
        cases lastSaid said rest bone.name <;> cases said entry <;> rfl
      · rw [if_neg hname, if_neg (Ne.symm hname), Option.or_none]

/-! ### Declared parents -/

/-- The parent that the last of the entries for a bone gives that gives one. -/
def lastParent (entries : List (BoneEntry α)) (name : String) : Option String :=
  ((entries.filter fun entry => entry.name = name).filterMap BoneEntry.parent).getLast?

/-- The parent of a bone after what entries say about it. -/
def declared (parent : Option String) (entries : List (BoneEntry α)) (name : String) :
    Option String :=
  (lastParent entries name).elim parent BoneEntry.nonempty?

omit [Scalar α] in
theorem overlaid_parent (entries : List (BoneEntry α)) (bone : Bone α) :
    (overlaid entries bone).parent = declared bone.parent entries bone.name :=
  overlaid_field BoneEntry.override_parent entries bone

omit [Scalar α] in
/-- An entry that adds a bone is the only one for it. -/
theorem lastParent_of_added (hadded : ((addedEntries base entries).map BoneEntry.name).Nodup)
    (h : entry ∈ addedEntries base entries) : lastParent entries entry.name = entry.parent := by
  have hnew := not_mem_of_added h
  have honly : (entries.filter fun other => other.name = entry.name) = [entry] := by
    rw [← filter_eq_singleton hadded h, addedEntries, List.filter_filter]
    refine List.filter_congr fun other _ => ?_
    by_cases heq : other.name = entry.name
    · simpa [heq] using hnew
    · simp [heq]
  rw [lastParent, honly]
  cases hparent : entry.parent <;> simp [hparent]

/-- The names of the bones of an overlay. -/
theorem map_name_of_overlay (h : overlay base [] entries = .ok bones) :
    bones.map Bone.name = base.map Bone.name ++ (addedEntries base entries).map BoneEntry.name := by
  have hbase : Bone.name ∘ overlaid entries = Bone.name := funext (overlaid_name entries)
  rw [of_overlay_eq_ok h, List.map_append, List.map_map, hbase, List.nil_append, List.map_map]
  rfl

/-- Every bone of an overlay has the parent that is declared for it. -/
theorem parent_of_overlay (h : overlay base [] entries = .ok bones)
    (hnames : (bones.map Bone.name).Nodup) (hbone : bone ∈ bones) :
    bone.parent =
      declared ((base.find? fun b => b.name = bone.name).bind Bone.parent) entries bone.name := by
  rw [map_name_of_overlay h] at hnames
  obtain ⟨hbase, hadded, -⟩ := List.nodup_append'.mp hnames
  rw [of_overlay_eq_ok h, List.nil_append] at hbone
  rcases List.mem_append.mp hbone with hbone | hbone
  · obtain ⟨b, hb, rfl⟩ := List.mem_map.mp hbone
    rw [overlaid_parent, overlaid_name, find?_eq_some_of_nodup hbase hb]
    rfl
  · obtain ⟨entry, hentry, rfl⟩ := List.mem_map.mp hbone
    have hnew : (base.find? fun b => b.name = entry.bone.name) = none := by
      refine List.find?_eq_none.mpr fun b hb heq => not_mem_of_added hentry ?_
      rw [← entry.bone_name, ← of_decide_eq_true heq]
      exact List.mem_map_of_mem hb
    rw [hnew, entry.bone_parent, declared, entry.bone_name, lastParent_of_added hadded hentry]
    rfl

end Skeleton

end Mannequin
