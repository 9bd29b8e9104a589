import Mannequin.Proofs.Skeleton.Assembly

/-!
# What a recipe says about a skeleton

A recipe describes a skeleton by base bones and entries: a list on its own has no base,
and a preset gives one that the entries of the list are laid over. Everything that is
said of a skeleton afterwards is said in terms of these two.
-/

namespace Mannequin.Skeleton

variable {α : Type} [Scalar α] {s s' : Skeleton α} {base bones : List (Bone α)}
  {entries : List (BoneEntry α)} {list preset : Json α} {epsilon : α}
  {journal journal' : Journal}

/-! ### Entries -/

/-- The entries that are no mirror images. -/
def plainEntries (entries : List (BoneEntry α)) : List (BoneEntry α) :=
  entries.filter fun entry => entry.mirror.isNone

/-- The names of mirror images, each with the bone that it is the image of. -/
def mirrorEntries (entries : List (BoneEntry α)) : List (String × String) :=
  entries.filterMap fun entry => entry.mirror.map fun mirror => (entry.name, mirror)

/-- The names of the bones that are no mirror images. -/
def plainNames (base : List (Bone α)) (entries : List (BoneEntry α)) : List String :=
  base.map Bone.name ++ (addedEntries base (plainEntries entries)).map BoneEntry.name

/-- The parent that base bones and entries give to a bone. -/
def declaredParent (base : List (Bone α)) (entries : List (BoneEntry α)) (name : String) :
    Option String :=
  declared ((base.find? fun bone => bone.name = name).bind Bone.parent) (plainEntries entries) name

/-! ### Assembled skeletons -/

/-- A skeleton with plain bones in their order, each with its parent if this is a plain
bone too. -/
structure Plain (base : List (Bone α)) (entries : List (BoneEntry α)) (s : Skeleton α) :
    Prop where
  names : s.names = plainNames base entries
  nodup : s.names.Nodup
  parent : ∀ bone ∈ s.bones,
    bone.parent = (declaredParent base entries bone.name).filter (· ∈ plainNames base entries)

/-- The warnings for declared parents that are no plain bones. -/
def missingParents (base : List (Bone α)) (entries : List (BoneEntry α)) : List Warning :=
  (plainNames base entries).filterMap fun name =>
    missingParent (plainNames base entries) name (declaredParent base entries name)

/-- Bones of an overlay that are settled are plain bones, with a warning for each parent
that is missing. -/
theorem plain_of_returns_settleParents
    (hbones : overlay base [] (plainEntries entries) = .ok bones) (hs : s.bones = bones)
    (hnodup : s.names.Nodup) (h : Returns s.settleParents journal s' journal') :
    Plain base entries s' ∧
      journal'.warnings = journal.warnings ++ missingParents base entries := by
  obtain ⟨hsettled, hwarnings⟩ := settled_of_returns_settleParents h
  have hnames : s.names = plainNames base entries := by
    rw [names, hs, map_name_of_overlay hbones, plainNames]
  have hparent : ∀ bone ∈ s.bones, bone.parent = declaredParent base entries bone.name := by
    intro bone hbone
    rw [hs] at hbone
    exact parent_of_overlay hbones (by rw [← hs]; exact hnodup) hbone
  have hkept : s'.names = s.names := by
    rw [names, hsettled, List.map_map]
    rfl
  refine ⟨⟨hkept.trans hnames, hkept ▸ hnodup, fun bone hbone => ?_⟩, ?_⟩
  · rw [hsettled] at hbone
    obtain ⟨before, hbefore, rfl⟩ := List.mem_map.mp hbone
    rw [settled_name, ← hnames, ← hparent before hbefore]
    rfl
  · rw [hwarnings, missing, missingParents, ← hnames, names, List.filterMap_map]
    congr 1
    refine List.filterMap_congr fun bone hbone => ?_
    rw [Function.comp_apply, hparent bone hbone]

/-- To assemble a skeleton an overlay is made, its bones are added and settled, and mirror
images are added to them. -/
theorem parts_of_returns_assemble
    (h : Returns (assemble base entries epsilon) journal s journal') :
    ∃ (added plain : Skeleton α) (middle : Journal),
      overlay base [] (plainEntries entries) = .ok added.bones ∧ added.names.Nodup ∧
      Returns added.settleParents journal plain middle ∧
      Returns (addMirrors epsilon plain (mirrorEntries entries)) middle s journal' := by
  obtain ⟨bones, _, hoverlay, hrest⟩ := returns_bind.mp h
  obtain ⟨added, _, haddAll, hrest⟩ := returns_bind.mp hrest
  obtain ⟨plain, middle, hplain, hmirrors⟩ := returns_bind.mp hrest
  obtain ⟨hbones, rfl⟩ := returns_lift.mp hoverlay
  obtain ⟨hadded, rfl⟩ := returns_lift.mp haddAll
  have hempty : (empty : Skeleton α).names.Nodup := List.nodup_nil
  obtain ⟨hfrom, hnodup⟩ := of_addAll_eq_ok hempty hadded
  obtain rfl : added.bones = bones := hfrom
  exact ⟨added, plain, middle, hbones, hnodup, hplain, hmirrors⟩

/-- A skeleton is assembled from plain bones, to which mirror images are added. -/
theorem of_returns_assemble (h : Returns (assemble base entries epsilon) journal s journal') :
    ∃ plain middle, Plain base entries plain ∧
      middle.warnings = journal.warnings ++ missingParents base entries ∧
      Returns (addMirrors epsilon plain (mirrorEntries entries)) middle s journal' := by
  obtain ⟨added, plain, middle, hbones, hnodup, hplain, hmirrors⟩ := parts_of_returns_assemble h
  obtain ⟨hdone, hwarnings⟩ := plain_of_returns_settleParents hbones rfl hnodup hplain
  exact ⟨plain, middle, hdone, hwarnings, hmirrors⟩

/-! ### Written lists -/

/-- A list that can be read as entries. -/
def Written (list : Json α) (entries : List (BoneEntry α)) : Prop :=
  ∃ items, list = .arr items ∧ Field.items (.root "skeleton") BoneEntry.ofJson 0 items = .ok entries

/-- A preset and a list describe a skeleton by base bones and entries. -/
inductive Describes (preset list : Json α) : List (Bone α) → List (BoneEntry α) → Prop where
  /-- A list without a preset is the whole skeleton. -/
  | alone {entries : List (BoneEntry α)} (hpreset : preset = .null) (hgiven : IsGiven list)
      (hentries : Written list entries) : Describes preset list [] entries
  /-- A preset, which is the standard one if there is no list either, is laid over. -/
  | over {name : String} {base : List (Bone α)} {entries : List (BoneEntry α)}
      (hname : preset = .str name ∨ preset = .null ∧ ¬ IsGiven list ∧ name = Preset.standard)
      (hbase : Preset.bones? name = some base)
      (hentries : Written (if list.isNull then .arr [] else list) entries) :
      Describes preset list base entries

theorem written_of_readEntries (h : readEntries list = .ok entries) : Written list entries := by
  unfold readEntries at h
  split at h
  · exact ⟨_, rfl, h⟩
  · cases h

theorem of_returns_ofList (h : Returns (ofList list epsilon) journal s journal') :
    ∃ entries, Written list entries ∧
      Returns (assemble [] entries epsilon) journal s journal' := by
  obtain ⟨entries, _, hentries, hassemble⟩ := returns_bind.mp h
  obtain ⟨hread, rfl⟩ := returns_lift.mp hentries
  exact ⟨entries, written_of_readEntries hread, hassemble⟩

variable {given : Outline α}

theorem of_returns_over {name : String}
    (hname : preset = .str name ∨ preset = .null ∧ ¬ IsGiven list ∧ name = Preset.standard)
    (h : Returns (match Preset.bones? name with
      | none => refuse (SkeletonFault.unknownPreset name Preset.names) "skeleton_preset"
      | some base => do
        let entries ← readEntries (if list.isNull then .arr [] else list)
        return ⟨base, entries⟩) journal given journal') :
    Describes preset list given.base given.entries ∧ journal' = journal := by
  split at h
  · cases (returns_lift.mp h).1
  · rename_i base hbase
    obtain ⟨entries, _, hentries, hdone⟩ := returns_bind.mp h
    obtain ⟨hread, rfl⟩ := returns_lift.mp hentries
    obtain ⟨rfl, rfl⟩ := returns_pure.mp hdone
    exact ⟨.over hname hbase (written_of_readEntries hread), rfl⟩

/-- An outline is what its recipe describes, and there is no warning about it. -/
theorem of_returns_outline (h : Returns (outline preset list) journal given journal') :
    Describes preset list given.base given.entries ∧ journal'.warnings = journal.warnings := by
  unfold outline at h
  cases preset with
  | null =>
      by_cases hgiven : IsGiven list
      · rw [if_pos ⟨rfl, hgiven⟩] at h
        obtain ⟨entries, _, hentries, hdone⟩ := returns_bind.mp h
        obtain ⟨hread, rfl⟩ := returns_lift.mp hentries
        obtain ⟨rfl, rfl⟩ := returns_pure.mp hdone
        exact ⟨.alone rfl hgiven (written_of_readEntries hread), rfl⟩
      · rw [if_neg fun hboth => hgiven hboth.2] at h
        obtain ⟨_, told, htold, hrest⟩ := returns_bind.mp h
        obtain ⟨hdescribes, rfl⟩ := of_returns_over (.inr ⟨rfl, hgiven, rfl⟩) hrest
        exact ⟨hdescribes, Journaled.warnings_of_info htold⟩
  | str name =>
      obtain ⟨hdescribes, rfl⟩ := of_returns_over (.inl rfl) h
      exact ⟨hdescribes, rfl⟩
  | _ =>
      obtain ⟨_, _, hread, -⟩ := returns_bind.mp h
      cases (returns_lift.mp hread).1

/-- A skeleton is assembled from what its recipe describes, with no warning before. -/
theorem of_returns_ofRecipe (h : Returns (ofRecipe preset list epsilon) journal s journal') :
    ∃ base entries told, Describes preset list base entries ∧ told.warnings = journal.warnings ∧
      Returns (assemble base entries epsilon) told s journal' := by
  obtain ⟨given, told, houtline, hassemble⟩ := returns_bind.mp h
  obtain ⟨hdescribes, htold⟩ := of_returns_outline houtline
  exact ⟨given.base, given.entries, told, hdescribes, htold, hassemble⟩

end Mannequin.Skeleton
