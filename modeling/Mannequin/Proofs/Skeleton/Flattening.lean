import Mannequin.Proofs.Character.Mirror
import Mannequin.Proofs.Skeleton.Description
import Mannequin.Proofs.Skeleton.Entries

/-!
# Lists that are laid over base bones

Entries for base bones change them where they stand, between entries that add bones and
others that mirror them. None of this says more than a list on its own can say: the base
bones with the last of everything that is said about them, after them the bones that are
added, and at the end the mirror images.
-/

namespace Mannequin.Skeleton

variable {α : Type} {base : List (Bone α)} {bone : Bone α} {items : List (Json α)}
  {entries : List (BoneEntry α)} {name : String}

/-! ### Base bones and what is said about them -/

/-- A bone with its parent and its ends as the last of the entries for it says that says
something about them. -/
def revised (entries : List (BoneEntry α)) (bone : Bone α) : Bone α :=
  { name := bone.name
    parent := declared bone.parent entries bone.name
    head := (lastSaid BoneEntry.head entries bone.name).getD bone.head
    tail := (lastSaid BoneEntry.tail entries bone.name).getD bone.tail }

theorem overlaid_end {kept : Bone α → Vec3 α} {said : BoneEntry α → Option (Vec3 α)}
    (hfield : ∀ entry bone, kept (entry.override bone) = (said entry).getD (kept bone))
    (entries : List (BoneEntry α)) (bone : Bone α) :
    kept (overlaid entries bone) = (lastSaid said entries bone.name).getD (kept bone) := by
  have helim : ∀ (given : Option (Vec3 α)) (v : Vec3 α), given.elim v id = given.getD v := by
    rintro (_ | _) _ <;> rfl
  rw [← helim]
  exact overlaid_field (fun entry bone => (hfield entry bone).trans (helim _ _).symm) entries bone

/-- Laying entries over a bone one after the other leaves what the last of them says. -/
theorem overlaid_eq_revised (entries : List (BoneEntry α)) (bone : Bone α) :
    overlaid entries bone = revised entries bone := by
  have hhead : (overlaid entries bone).head =
      (lastSaid BoneEntry.head entries bone.name).getD bone.head :=
    overlaid_end (fun _ _ => rfl) entries bone
  have htail : (overlaid entries bone).tail =
      (lastSaid BoneEntry.tail entries bone.name).getD bone.tail :=
    overlaid_end (fun _ _ => rfl) entries bone
  rw [revised, ← hhead, ← htail, ← overlaid_parent]
  rw [← overlaid_name entries bone]

theorem exists_of_lastSaid {β : Type} {said : BoneEntry α → Option β} {b : β}
    (h : lastSaid said entries name = some b) : ∃ entry ∈ entries, said entry = some b := by
  obtain ⟨entry, hentry, hsaid⟩ := List.mem_filterMap.mp (List.mem_of_getLast? h)
  exact ⟨entry, (List.mem_filter.mp hentry).1, hsaid⟩

/-! ### The items of a flat list -/

/-- The items of a list whose entries pass a test. -/
def itemsWhere (test : BoneEntry α → Bool) (items : List (Json α))
    (entries : List (BoneEntry α)) : List (Json α) :=
  ((items.zip entries).filter fun pair => test pair.2).map Prod.fst

theorem itemsWhere_cons (test : BoneEntry α → Bool) (item : Json α) (entry : BoneEntry α)
    (items : List (Json α)) (entries : List (BoneEntry α)) :
    itemsWhere test (item :: items) (entry :: entries) =
      if test entry then item :: itemsWhere test items entries
      else itemsWhere test items entries := by
  rw [itemsWhere, List.zip_cons_cons, List.filter_cons]
  split <;> rfl

theorem forall₂_itemsWhere {R : Json α → BoneEntry α → Prop} (h : List.Forall₂ R items entries)
    (test : BoneEntry α → Bool) :
    List.Forall₂ R (itemsWhere test items entries) (entries.filter test) := by
  induction h with
  | nil => exact .nil
  | cons hfirst _ ih =>
      rw [itemsWhere_cons, List.filter_cons]
      split
      · exact .cons hfirst ih
      · exact ih

/-- Base bones and items that are laid over them as one list: the bones as the last plain
entries leave them, the plain items that name no base bone, and the mirror items. -/
def flattened (base : List (Bone α)) (items : List (Json α)) (entries : List (BoneEntry α)) :
    List (Json α) :=
  base.map (fun bone => (revised (plainEntries entries) bone).toJson) ++
    itemsWhere (fun entry => entry.mirror.isNone ∧ entry.name ∉ base.map Bone.name) items entries ++
    itemsWhere (fun entry => entry.mirror.isSome) items entries

/-- The entries of a flat list that are no mirror images. -/
def flatPlain (base : List (Bone α)) (entries : List (BoneEntry α)) : List (BoneEntry α) :=
  base.map (fun bone => BoneEntry.ofBone (revised (plainEntries entries) bone)) ++
    addedEntries base (plainEntries entries)

/-- The entries of a flat list. -/
def flatEntries (base : List (Bone α)) (entries : List (BoneEntry α)) : List (BoneEntry α) :=
  flatPlain base entries ++ entries.filter fun entry => entry.mirror.isSome

theorem mirror_of_mem_flatPlain {entry : BoneEntry α} (h : entry ∈ flatPlain base entries) :
    entry.mirror = none := by
  rcases List.mem_append.mp h with h | h
  · obtain ⟨bone, -, rfl⟩ := List.mem_map.mp h
    rfl
  · have hplain := (List.mem_filter.mp (List.mem_filter.mp h).1).2
    exact Option.isNone_iff_eq_none.mp hplain

theorem plainEntries_flatEntries (base : List (Bone α)) (entries : List (BoneEntry α)) :
    plainEntries (flatEntries base entries) = flatPlain base entries := by
  have hplain : (flatPlain base entries).filter (fun entry => entry.mirror.isNone) =
      flatPlain base entries :=
    List.filter_eq_self.mpr fun entry hentry =>
      Option.isNone_iff_eq_none.mpr (mirror_of_mem_flatPlain hentry)
  have hmirrors : ((entries.filter fun entry => entry.mirror.isSome).filter
      fun entry => entry.mirror.isNone) = [] := by
    simp [List.filter_filter]
  rw [plainEntries, flatEntries, List.filter_append, hplain, hmirrors, List.append_nil]

theorem mirrorEntries_flatEntries (base : List (Bone α)) (entries : List (BoneEntry α)) :
    mirrorEntries (flatEntries base entries) = mirrorEntries entries := by
  have hplain : mirrorEntries (flatPlain base entries) = [] := by
    refine List.filterMap_eq_nil_iff.mpr fun entry hentry => ?_
    rw [mirror_of_mem_flatPlain hentry, Option.map_none]
  have hmirrors : mirrorEntries (entries.filter fun entry => entry.mirror.isSome) =
      mirrorEntries entries := by
    rw [mirrorEntries, List.filterMap_filter]
    refine List.filterMap_congr fun entry _ => ?_
    cases entry.mirror <;> rfl
  rw [mirrorEntries, flatEntries, List.filterMap_append, ← mirrorEntries, ← mirrorEntries, hplain,
    hmirrors, List.nil_append]

/-! ### Reading a flat list -/

variable [Scalar α] {epsilon : α}

/-- The ends that entries give are finite. -/
def Bounded (entries : List (BoneEntry α)) : Prop :=
  ∀ entry ∈ entries, (∀ head ∈ entry.head, head.AllFinite) ∧ ∀ tail ∈ entry.tail, tail.AllFinite

/-- A bone can still be written after it has been revised. -/
theorem writable_revised (hbone : bone.Writable) (hentries : Bounded entries) :
    (revised entries bone).Writable := by
  refine ⟨hbone.name, ?_, of_getD (fun head hhead => ?_) hbone.head,
    of_getD (fun tail htail => ?_) hbone.tail⟩
  · change declared bone.parent entries bone.name ≠ some ""
    rw [declared]
    cases lastParent entries bone.name with
    | none => exact hbone.parent
    | some parent => exact BoneEntry.nonempty?_ne parent
  · obtain ⟨entry, hentry, hsaid⟩ := exists_of_lastSaid hhead
    exact (hentries entry hentry).1 head hsaid
  · obtain ⟨entry, hentry, hsaid⟩ := exists_of_lastSaid htail
    exact (hentries entry hentry).2 tail hsaid

theorem bounded_of_readEntries (hread : readEntries (.arr items) = .ok entries) :
    Bounded (plainEntries entries) := fun entry hentry =>
  forall_mem_of_forall₂ (fun _ _ ⟨_, h⟩ => BoneEntry.allFinite_of_ofJson h)
    (Field.forall₂_of_items hread) entry (List.mem_filter.mp hentry).1

/-- A flat list can be read, if the items can, and has the entries it should. -/
theorem readEntries_flattened (hbase : ∀ bone ∈ base, bone.Writable)
    (hread : readEntries (.arr items) = .ok entries) :
    readEntries (.arr (flattened base items entries)) = .ok (flatEntries base entries) := by
  have hitems := Field.forall₂_of_items hread
  have hbounded := bounded_of_readEntries hread
  have hbones : List.Forall₂ (fun item entry => ∃ place, BoneEntry.ofJson place item = .ok entry)
      (base.map fun bone => (revised (plainEntries entries) bone).toJson)
      (base.map fun bone => BoneEntry.ofBone (revised (plainEntries entries) bone)) := by
    rw [List.forall₂_map_left_iff, List.forall₂_map_right_iff, List.forall₂_same]
    exact fun bone hbone =>
      ⟨.root "", BoneEntry.ofJson_toJson (writable_revised (hbase bone hbone) hbounded) _⟩
  have hadded : addedEntries base (plainEntries entries) =
      entries.filter fun entry => entry.mirror.isNone ∧ entry.name ∉ base.map Bone.name := by
    rw [addedEntries, plainEntries, List.filter_filter]
    refine List.filter_congr fun entry _ => ?_
    rw [Bool.decide_and, Bool.decide_coe, Bool.and_comm]
  refine Field.items_eq_ok BoneEntry.everywhere_ofJson ?_
  rw [flattened, flatEntries, flatPlain, hadded]
  exact List.rel_append (List.rel_append hbones (forall₂_itemsWhere hitems _))
    (forall₂_itemsWhere hitems _)

/-! ### Assembling a flat list -/

/-- The plain entries of a flat list give the bones that the base bones and the entries over
them give. -/
theorem overlay_flatPlain (hnames : (base.map Bone.name).Nodup)
    (hbase : ∀ bone ∈ base, bone.Writable) (hentries : Bounded (plainEntries entries))
    (hadded : ((addedEntries base (plainEntries entries)).map BoneEntry.name).Nodup) :
    overlay [] [] (flatPlain base entries) = overlay base [] (plainEntries entries) := by
  have hall : addedEntries [] (flatPlain base entries) = flatPlain base entries :=
    List.filter_eq_self.mpr fun _ _ => rfl
  have hdistinct : ((flatPlain base entries).map BoneEntry.name).Nodup := by
    have hbase : (base.map fun bone =>
        BoneEntry.ofBone (revised (plainEntries entries) bone)).map BoneEntry.name =
        base.map Bone.name := by
      rw [List.map_map]
      rfl
    rw [flatPlain, List.map_append, hbase, List.nodup_append']
    refine ⟨hnames, hadded, fun name hold hnew => ?_⟩
    obtain ⟨entry, hentry, rfl⟩ := List.mem_map.mp hnew
    exact not_mem_of_added hentry hold
  have hbones : (base.map fun bone =>
      (BoneEntry.ofBone (revised (plainEntries entries) bone)).bone) =
      base.map (overlaid (plainEntries entries)) := by
    refine List.map_congr_left fun bone hbone => ?_
    rw [BoneEntry.bone_ofBone (writable_revised (hbase bone hbone) hentries).parent,
      overlaid_eq_revised]
  rw [overlay_eq_ok hadded, overlay_eq_ok (by rwa [hall]), hall, flatPlain, List.map_append,
    List.map_map, List.map_nil, List.nil_append]
  exact congrArg (fun bones => Except.ok (bones ++ _)) hbones

/-- What is assembled depends on the plain bones and the mirror images only. -/
theorem assemble_congr {base' : List (Bone α)} {entries' : List (BoneEntry α)}
    (hplain : overlay base [] (plainEntries entries) = overlay base' [] (plainEntries entries'))
    (hmirrors : mirrorEntries entries = mirrorEntries entries') (epsilon : α) :
    assemble base entries epsilon = assemble base' entries' epsilon := by
  unfold plainEntries at hplain
  unfold mirrorEntries at hmirrors
  rw [assemble, hplain, hmirrors]
  rfl

/-- A preset and a list of a recipe are the bones of the preset and the list over them. -/
theorem ofRecipe_eq_assemble {preset : String} (hbase : Preset.bones? preset = some base)
    (hread : readEntries (.arr items) = .ok entries) (epsilon : α) :
    ofRecipe (.str preset) (.arr items) epsilon = assemble base entries epsilon := by
  have houtline : outline (.str preset) (.arr items) = pure ⟨base, entries⟩ := by
    have hpreset : ¬ (Json.str preset : Json α).isNull = true := Bool.false_ne_true
    have hlist : ¬ (Json.arr items).isNull = true := Bool.false_ne_true
    have hname : (liftM (Field.string (.root "skeleton_preset") (Json.str preset : Json α)) :
      Journaled String) = pure preset := rfl
    rw [outline, if_neg fun h => hpreset h.1, if_neg hpreset, hname, pure_bind]
    simp only [hbase, if_neg hlist, hread]
    rfl
  rw [ofRecipe, houtline, pure_bind]

/-- Laying a list over base bones is the same computation as reading its flat list on its
own: it gives the same skeleton or the same failure and tells the same. This holds of every
table of bones that can be written, and so of a preset and a list in a recipe. -/
theorem ofList_flattened (hnames : (base.map Bone.name).Nodup)
    (hbase : ∀ bone ∈ base, bone.Writable) (hread : readEntries (.arr items) = .ok entries)
    (hadded : ((addedEntries base (plainEntries entries)).map BoneEntry.name).Nodup)
    (epsilon : α) :
    assemble base entries epsilon = ofList (.arr (flattened base items entries)) epsilon ∧
      ∀ preset, Preset.bones? preset = some base →
        ofRecipe (.str preset) (.arr items) epsilon =
          ofList (.arr (flattened base items entries)) epsilon := by
  have hassemble : assemble base entries epsilon =
      ofList (.arr (flattened base items entries)) epsilon := by
    rw [ofList, readEntries_flattened hbase hread]
    refine assemble_congr ?_ (mirrorEntries_flatEntries base entries).symm epsilon
    rw [plainEntries_flatEntries,
      overlay_flatPlain hnames hbase (bounded_of_readEntries hread) hadded]
  refine ⟨hassemble, fun preset hpreset => ?_⟩
  rw [ofRecipe_eq_assemble hpreset hread, hassemble]

/-- Two horns, one as the image of the other, and a longer head, which is laid over twice. -/
def horns : List (Json ℚ) :=
  [.obj [("bone", .str "head"), ("tail", .arr [.int 0, .int 0, .int 2])],
    .obj [("bone", .str "horn_r"), ("mirror", .str "horn_l")],
    .obj [("bone", .str "horn_l"), ("parent", .str "head"),
      ("head", .arr [.int 1, .int 0, .int 2]), ("tail", .arr [.int 1, .int 0, .int 3])],
    .obj [("bone", .str "head"), ("parent", .str "chest"),
      ("tail", .arr [.int 0, .int 0, .int 3])]]

/-- The entries for these bones. -/
def hornEntries : List (BoneEntry ℚ) :=
  [⟨"head", none, some ⟨0, 0, 2⟩, none, none⟩,
    ⟨"horn_r", none, none, none, some "horn_l"⟩,
    ⟨"horn_l", some ⟨1, 0, 2⟩, some ⟨1, 0, 3⟩, some "head", none⟩,
    ⟨"head", none, some ⟨0, 0, 3⟩, some "chest", none⟩]

/-- The bones of the standard preset. -/
def standardBones : List (Bone ℚ) := Preset.basic.map Preset.Row.bone

theorem ofList_flattened_horns :
    readEntries (.arr horns) = .ok hornEntries ∧ ∃ s journal,
      Returns (ofRecipe (.str Preset.standard) (.arr horns) (1 / 1000)) Journal.empty s journal ∧
        Returns (ofList (.arr (flattened standardBones horns hornEntries)) (1 / 1000))
          Journal.empty s journal := by
  have hread : readEntries (.arr horns) = .ok hornEntries := by decide +kernel
  have hnames : (standardBones.map Bone.name).Nodup := by decide +kernel
  have hbase : ∀ bone ∈ standardBones, bone.Writable := by decide +kernel
  have hadded : ((addedEntries standardBones (plainEntries hornEntries)).map
      BoneEntry.name).Nodup := by decide +kernel
  obtain ⟨-, hrecipe⟩ := ofList_flattened hnames hbase hread hadded (1 / 1000)
  have hseen : seen (ofRecipe (.str Preset.standard) (.arr horns) (1 / 1000)) Journal.empty
      (fun _ _ => true) = some true := by decide +kernel
  obtain ⟨s, journal, h, -⟩ := exists_returns_of_seen hseen
  exact ⟨hread, s, journal, h, hrecipe Preset.standard rfl ▸ h⟩

end Mannequin.Skeleton
