import Mannequin.Proofs.Journal
import Mannequin.Proofs.Skeleton.Overlay

/-!
# What a skeleton is assembled from

A skeleton that is assembled has the bones of an overlay, without the parents that are
not among them, and after these the images that its mirror entries add. A parent is
dropped and an entry is skipped with a warning, and there are no other warnings.
-/

namespace Mannequin

namespace Skeleton

variable {α : Type} {s s' : Skeleton α} {bone : Bone α} {bones : List (Bone α)}
  {name mirror : String} {names : List String} {journal journal' : Journal}

/-! ### Names -/

theorem contains_iff : s.contains name = true ↔ name ∈ s.names := by
  simp [contains, joint?, names, bones]

theorem bone?_eq (s : Skeleton α) (name : String) :
    s.bone? name = s.bones.find? fun bone => bone.name = name := by
  rw [bone?, joint?, bones, List.find?_map]
  rfl

theorem of_bone?_eq_some (h : s.bone? name = some bone) : bone ∈ s.bones ∧ bone.name = name := by
  rw [bone?_eq] at h
  have hname := List.find?_some h
  exact ⟨List.mem_of_find?_eq_some h, of_decide_eq_true hname⟩

theorem names_append {images : List (Bone α)} (h : s'.bones = s.bones ++ images) :
    s'.names = s.names ++ images.map Bone.name := by
  rw [names, h, List.map_append]
  rfl

/-! ### Parents that are missing -/

/-- A bone whose parent is one of some names, or none. -/
def settled (names : List String) (bone : Bone α) : Bone α :=
  { bone with parent := bone.parent.filter (· ∈ names) }

@[simp] theorem settled_name (names : List String) (bone : Bone α) :
    (settled names bone).name = bone.name := rfl

/-- The warning for a parent that is not one of some names. -/
def missingParent (names : List String) (child : String) (parent : Option String) :
    Option Warning :=
  (parent.filter (· ∉ names)).map fun name => ⟨child, "parent '" ++ name ++ "' not found"⟩

/-- A bone whose parent is there, if it has one, stays as it is. -/
theorem settled_of_known (h : ∀ parent, bone.parent = some parent → parent ∈ names) :
    settled names bone = bone ∧ missingParent names bone.name bone.parent = none := by
  have hkept : bone.parent.filter (· ∈ names) = bone.parent := by
    cases hparent : bone.parent with
    | none => rfl
    | some parent => exact Option.filter_some_pos (by simpa using h parent hparent)
  have hnone : bone.parent.filter (· ∉ names) = none :=
    Option.filter_eq_none_iff.mpr fun parent hparent => by simpa using h parent hparent
  rw [settled, missingParent, hkept, hnone]
  exact ⟨rfl, rfl⟩

/-- A bone whose parent is not there loses it. -/
theorem settled_of_unknown {parent : String} (hparent : bone.parent = some parent)
    (h : parent ∉ names) :
    settled names bone = { bone with parent := none } ∧
      missingParent names bone.name bone.parent =
        some ⟨bone.name, "parent '" ++ parent ++ "' not found"⟩ := by
  rw [settled, missingParent, hparent, Option.filter_some_neg (by simpa using h),
    Option.filter_some_pos (by simpa using h)]
  exact ⟨rfl, rfl⟩

/-- Losing a parent is told as any warning is. -/
theorem reportParent_eq_warn (bone parent : String) :
    reportParent bone parent = Journaled.warn bone ("parent '" ++ parent ++ "' not found") :=
  Journaled.noteAs_eq_warn bone parent "' not found" rfl

theorem returns_settleParent (names : List String) (bone : Bone α) (journal : Journal) :
    Returns (settleParent names bone) journal (settled names bone)
      (journal.warned (missingParent names bone.name bone.parent).toList) := by
  rw [settleParent]
  split
  case h_1 hparent =>
    have hknown : ∀ parent, bone.parent = some parent → parent ∈ names :=
      fun parent h => absurd (hparent.symm.trans h) (Option.some_ne_none parent).symm
    obtain ⟨hsame, hsilent⟩ := settled_of_known hknown
    rw [hsame, hsilent, Option.toList_none, Journal.warned_nil]
    exact returns_pure.mpr ⟨rfl, rfl⟩
  case h_2 parent hparent =>
    split
    case isTrue hin =>
      have hknown : ∀ other, bone.parent = some other → other ∈ names :=
        fun other h => Option.some.inj (hparent.symm.trans h) ▸ hin
      obtain ⟨hsame, hsilent⟩ := settled_of_known hknown
      rw [hsame, hsilent, Option.toList_none, Journal.warned_nil]
      exact returns_pure.mpr ⟨rfl, rfl⟩
    case isFalse hunknown =>
      obtain ⟨hlost, htold⟩ := settled_of_unknown hparent hunknown
      rw [hlost, htold, reportParent_eq_warn]
      exact returns_bind.mpr ⟨(), _, Journaled.returns_warn.mpr rfl, rfl⟩

/-- A skeleton without the parents that it does not have. -/
def settle (s : Skeleton α) : Skeleton α :=
  ⟨s.joints.map fun joint => { joint with bone := settled s.names joint.bone }⟩

@[simp] theorem bones_settle (s : Skeleton α) : s.settle.bones = s.bones.map (settled s.names) := by
  rw [bones, bones, settle, List.map_map, List.map_map]
  rfl

@[simp] theorem frames_settle (s : Skeleton α) : s.settle.frames = s.frames := by
  rw [frames, frames, settle, List.map_map]
  rfl

@[simp] theorem names_settle (s : Skeleton α) : s.settle.names = s.names := by
  rw [names, names, bones_settle, List.map_map]
  rfl

/-- The warnings for the parents that a skeleton does not have. -/
def missing (s : Skeleton α) : List Warning :=
  s.bones.filterMap fun bone => missingParent s.names bone.name bone.parent

/-- Every bone is settled in its place, with its own warning. -/
theorem returns_settleParents (s : Skeleton α) (journal : Journal) :
    Returns s.settleParents journal s.settle (journal.warned s.missing) := by
  suffices h : ∀ (joints : List (Joint α)) (journal : Journal),
      Returns (joints.mapM fun joint => do
        return { joint with bone := ← settleParent s.names joint.bone }) journal
        (joints.map fun joint => { joint with bone := settled s.names joint.bone })
        (journal.warned ((joints.map Joint.bone).filterMap fun bone =>
          missingParent s.names bone.name bone.parent)) from
    returns_bind.mpr ⟨_, _, h s.joints journal, rfl⟩
  intro joints
  induction joints with
  | nil => exact fun journal => returns_pure.mpr ⟨rfl, (journal.warned_nil).symm⟩
  | cons joint rest ih =>
      intro journal
      have hfirst := returns_settleParent s.names joint.bone journal
      have htold : (missingParent s.names joint.bone.name joint.bone.parent).toList ++
          (rest.map Joint.bone).filterMap (fun bone =>
            missingParent s.names bone.name bone.parent) =
          ((joint :: rest).map Joint.bone).filterMap fun bone =>
            missingParent s.names bone.name bone.parent := by
        rw [List.map_cons, List.filterMap_cons]
        cases missingParent s.names joint.bone.name joint.bone.parent <;> rfl
      rw [List.mapM_cons, ← htold, ← Journal.warned_warned]
      refine returns_bind.mpr ⟨_, _, returns_bind.mpr ⟨_, _, hfirst, rfl⟩, ?_⟩
      exact returns_bind.mpr ⟨_, _, ih _, rfl⟩

theorem settled_of_returns_settleParents
    (h : Returns s.settleParents journal s' journal') :
    s'.bones = s.bones.map (settled s.names) ∧
      journal'.warnings = journal.warnings ++ s.missing := by
  obtain ⟨rfl, rfl⟩ := h.unique (returns_settleParents s journal)
  exact ⟨s.bones_settle, rfl⟩

/-! ### Bones that are added -/

variable [Scalar α] {epsilon : α}

theorem of_add_eq_ok (h : s.add bone epsilon = .ok s') :
    bone.name ∉ s.names ∧ s'.bones = s.bones ++ [bone] := by
  unfold Skeleton.add at h
  split at h
  · cases h
  · rename_i hnew
    obtain ⟨frame, -, hdone⟩ := bind_eq_ok.mp h
    cases hdone
    exact ⟨fun hmem => hnew (contains_iff.mpr hmem), List.map_append⟩

theorem nodup_names_of_add (hs : s.names.Nodup) (h : s.add bone epsilon = .ok s') :
    s'.names.Nodup := by
  obtain ⟨hnew, hbones⟩ := of_add_eq_ok h
  rw [names_append hbones, List.nodup_append']
  exact ⟨hs, List.nodup_singleton _, List.disjoint_singleton.mpr hnew⟩

theorem of_addAll_eq_ok (hs : s.names.Nodup) (h : s.addAll bones epsilon = .ok s') :
    s'.bones = s.bones ++ bones ∧ s'.names.Nodup := by
  unfold Skeleton.addAll at h
  induction bones generalizing s with
  | nil =>
      cases h
      exact ⟨(List.append_nil _).symm, hs⟩
  | cons bone rest ih =>
      rw [List.foldlM_cons] at h
      obtain ⟨middle, hfirst, hrest⟩ := bind_eq_ok.mp h
      obtain ⟨hbones, hnodup⟩ := ih (nodup_names_of_add hs hfirst) hrest
      rw [(of_add_eq_ok hfirst).2, List.append_assoc, List.singleton_append] at hbones
      exact ⟨hbones, hnodup⟩

/-- The warning for an entry whose mirrored bone is missing. -/
def missingSource (name mirror : String) : Warning :=
  ⟨name, "mirror source '" ++ mirror ++ "' not found"⟩

/-- Missing what is to be mirrored is told as any warning is. -/
theorem reportSource_eq_warn (bone mirror : String) :
    reportSource bone mirror =
      Journaled.warn bone ("mirror source '" ++ mirror ++ "' not found") :=
  Journaled.noteAs_eq_warn bone mirror "' not found" rfl

/-- A mirror entry is skipped if its source is not there, and else adds the image of its
source. -/
theorem of_returns_addMirror (h : Returns (addMirror epsilon s name mirror) journal s' journal') :
    (s.bone? mirror = none ∧ s' = s ∧
        journal'.warnings = journal.warnings ++ [missingSource name mirror]) ∨
      ∃ source, s.bone? mirror = some source ∧ s.add (s.mirrorBone name source) epsilon = .ok s' ∧
        journal'.warnings = journal.warnings := by
  unfold Skeleton.addMirror at h
  cases hsource : s.bone? mirror with
  | none =>
      simp only [hsource] at h
      obtain ⟨_, _, hwarn, hdone⟩ := returns_bind.mp h
      rw [reportSource_eq_warn] at hwarn
      obtain ⟨rfl, rfl⟩ := returns_pure.mp hdone
      exact .inl ⟨rfl, rfl, Journaled.warnings_of_warn hwarn⟩
  | some source =>
      simp only [hsource] at h
      obtain ⟨hadd, rfl⟩ := returns_lift.mp h
      exact .inr ⟨source, rfl, hadd, rfl⟩

/-- Add the images of mirror entries in order. -/
def addMirrors (epsilon : α) (s : Skeleton α) (mirrors : List (String × String)) :
    Journaled (Skeleton α) :=
  mirrors.foldlM (fun s (name, mirror) => addMirror epsilon s name mirror) s

/-- Mirror entries add images at the end, or are skipped. -/
theorem of_returns_addMirrors {mirrors : List (String × String)}
    (h : Returns (addMirrors epsilon s mirrors) journal s' journal') :
    ∃ images skipped, s'.bones = s.bones ++ images ∧
      journal'.warnings = journal.warnings ++ skipped ∧
      (∀ image ∈ images, image.name ∈ mirrors.map Prod.fst) ∧
      ∀ warning ∈ skipped, ∃ entry ∈ mirrors, warning = missingSource entry.1 entry.2 := by
  unfold addMirrors at h
  induction mirrors generalizing s journal with
  | nil =>
      rw [List.foldlM_nil] at h
      obtain ⟨rfl, rfl⟩ := returns_pure.mp h
      exact ⟨[], [], (List.append_nil _).symm, (List.append_nil _).symm, by simp, by simp⟩
  | cons entry rest ih =>
      rw [List.foldlM_cons] at h
      obtain ⟨middle, told, hfirst, hrest⟩ := returns_bind.mp h
      obtain ⟨images, skipped, hbones, hwarnings, himages, hskipped⟩ := ih hrest
      have hlater : ∀ image ∈ images, image.name ∈ (entry :: rest).map Prod.fst :=
        fun image himage => List.mem_cons_of_mem _ (himages image himage)
      have hkept : ∀ warning ∈ skipped, ∃ other ∈ entry :: rest,
          warning = missingSource other.1 other.2 := by
        intro warning hwarning
        obtain ⟨other, hother, heq⟩ := hskipped warning hwarning
        exact ⟨other, List.mem_cons_of_mem _ hother, heq⟩
      rcases of_returns_addMirror hfirst with ⟨-, rfl, hwarned⟩ | ⟨source, -, hadd, hwarned⟩
      · refine ⟨images, missingSource entry.1 entry.2 :: skipped, hbones, ?_, hlater,
          List.forall_mem_cons.mpr ⟨⟨entry, List.mem_cons_self, rfl⟩, hkept⟩⟩
        rw [hwarnings, hwarned, List.append_assoc, List.singleton_append]
      · refine ⟨s.mirrorBone entry.1 source :: images, skipped, ?_, by rw [hwarnings, hwarned],
          List.forall_mem_cons.mpr ⟨List.mem_cons_self, hlater⟩, hkept⟩
        rw [hbones, (of_add_eq_ok hadd).2, List.append_assoc, List.singleton_append]

end Skeleton

end Mannequin
