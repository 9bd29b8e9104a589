import Mathlib.Data.Fintype.Basic
import Mathlib.Data.Fintype.EquivFin
import Mathlib.Order.WellFounded
import Mannequin.Proofs.Skeleton.Parents

/-!
# Parents in a skeleton

The parents of a skeleton are always among its bones. Nothing looks for cycles in them:
from every bone the parents lead to a root exactly if this is so for the parents that are
declared among the plain bones. A mirror image never makes a difference, because its
parent is there before it.
-/

namespace Mannequin.Skeleton

open Relation

variable {α : Type} {s s' : Skeleton α} {bone : Bone α} {name parent : String}

/-! ### Ways up -/

/-- Every parent is a bone. -/
def Closed (s : Skeleton α) : Prop :=
  ∀ bone ∈ s.bones, ∀ parent, bone.parent = some parent → parent ∈ s.names

/-- A bone and its parent. -/
def Up (s : Skeleton α) (child parent : String) : Prop :=
  ∃ bone, s.bone? child = some bone ∧ bone.parent = some parent

/-- From a bone, the parents lead to a bone without one. -/
inductive Rooted (s : Skeleton α) : String → Prop where
  | root {name : String} {bone : Bone α} (hbone : s.bone? name = some bone)
      (hparent : bone.parent = none) : Rooted s name
  | child {name parent : String} (hup : s.Up name parent) (hrooted : Rooted s parent) :
      Rooted s name

/-- From every bone, the parents lead to a root. -/
def IsForest (s : Skeleton α) : Prop := ∀ name ∈ s.names, s.Rooted name

theorem mem_names_of_bone? (h : s.bone? name = some bone) : name ∈ s.names := by
  obtain ⟨hbone, rfl⟩ := of_bone?_eq_some h
  exact List.mem_map_of_mem hbone

theorem exists_bone?_of_mem (h : name ∈ s.names) : ∃ bone, s.bone? name = some bone := by
  rw [← contains_iff] at h
  obtain ⟨joint, hjoint⟩ := Option.isSome_iff_exists.mp h
  exact ⟨joint.bone, congrArg (Option.map Joint.bone) hjoint⟩

theorem Closed.of_up (hs : s.Closed) (h : s.Up name parent) : parent ∈ s.names := by
  obtain ⟨bone, hbone, hparent⟩ := h
  exact hs bone (of_bone?_eq_some hbone).1 parent hparent

theorem Up.eq {other : String} (h : s.Up name parent) (h' : s.Up name other) :
    parent = other := by
  obtain ⟨bone, hbone, hparent⟩ := h
  obtain ⟨bone', hbone', hother⟩ := h'
  cases hbone.symm.trans hbone'
  exact Option.some.inj (hparent.symm.trans hother)

/-- No way up from a rooted bone comes back to it. -/
theorem Rooted.not_cyclic (h : s.Rooted name) : ¬ TransGen s.Up name name := by
  induction h with
  | root hbone hparent =>
      intro hcycle
      obtain ⟨_, ⟨bone, hbone', hsome⟩, -⟩ := TransGen.head'_iff.mp hcycle
      cases hbone.symm.trans hbone'
      cases hparent.symm.trans hsome
  | child hup _ ih =>
      intro hcycle
      obtain ⟨next, hnext, hback⟩ := TransGen.head'_iff.mp hcycle
      obtain rfl := hup.eq hnext
      exact ih (TransGen.tail' hback hup)

/-- One bone is on the way up from another. -/
def Above (s : Skeleton α) (a b : {name // name ∈ s.names}) : Prop := TransGen s.Up b.1 a.1

/-- There are only finitely many bones to come through on the way up. -/
theorem wellFounded_above (h : ∀ name, ¬ TransGen s.Up name name) : WellFounded s.Above := by
  have : IsTrans _ s.Above := ⟨fun _ _ _ hab hbc => hbc.trans hab⟩
  have : Std.Irrefl s.Above := ⟨fun a => h a.1⟩
  exact Finite.wellFounded_of_trans_of_irrefl s.Above

theorem Closed.rooted_of_acyclic (hs : s.Closed) (h : ∀ name, ¬ TransGen s.Up name name)
    (a : {name // name ∈ s.names}) : s.Rooted a.1 := by
  induction a using (wellFounded_above h).induction with
  | _ a ih =>
      obtain ⟨bone, hbone⟩ := exists_bone?_of_mem a.2
      cases hparent : bone.parent with
      | none => exact .root hbone hparent
      | some parent =>
          have hup : s.Up a.1 parent := ⟨bone, hbone, hparent⟩
          exact .child hup (ih ⟨parent, hs.of_up hup⟩ (.single hup))

theorem Closed.isForest_iff (hs : s.Closed) : s.IsForest ↔ ∀ name, ¬ TransGen s.Up name name := by
  constructor
  · intro hforest name hcycle
    obtain ⟨_, ⟨_, hbone, -⟩, -⟩ := TransGen.head'_iff.mp hcycle
    exact (hforest name (mem_names_of_bone? hbone)).not_cyclic hcycle
  · intro hacyclic name hname
    exact hs.rooted_of_acyclic hacyclic ⟨name, hname⟩

/-! ### Images -/

theorem bone?_eq_none (h : name ∉ s.names) : s.bone? name = none :=
  Option.eq_none_iff_forall_ne_some.mpr fun _ hfound => h (mem_names_of_bone? hfound)

theorem bone?_of_append {images : List (Bone α)} (h : s'.bones = s.bones ++ images)
    (name : String) :
    s'.bone? name = (s.bone? name).or (images.find? fun bone => bone.name = name) := by
  rw [bone?_eq, h, List.find?_append, ← bone?_eq]

theorem bone?_append {images : List (Bone α)} (h : s'.bones = s.bones ++ images)
    (hname : name ∈ s.names) : s'.bone? name = s.bone? name := by
  obtain ⟨found, hfound⟩ := exists_bone?_of_mem hname
  rw [bone?_of_append h, hfound]
  rfl

theorem bone?_append_self (h : s'.bones = s.bones ++ [bone]) (hnew : bone.name ∉ s.names) :
    s'.bone? bone.name = some bone := by
  rw [bone?_of_append h, bone?_eq_none hnew]
  simp

theorem Rooted.append (h : s'.bones = s.bones ++ [bone]) (hrooted : s.Rooted name) :
    s'.Rooted name := by
  induction hrooted with
  | root hbone hparent =>
      exact .root ((bone?_append h (mem_names_of_bone? hbone)).trans hbone) hparent
  | child hup _ ih =>
      obtain ⟨found, hfound, hparent⟩ := hup
      exact .child ⟨found, (bone?_append h (mem_names_of_bone? hfound)).trans hfound, hparent⟩ ih

theorem Rooted.of_append (hs : s.Closed) (h : s'.bones = s.bones ++ [bone])
    (hrooted : s'.Rooted name) (hname : name ∈ s.names) : s.Rooted name := by
  induction hrooted with
  | root hbone hparent => exact .root ((bone?_append h hname).symm.trans hbone) hparent
  | child hup _ ih =>
      obtain ⟨found, hfound, hparent⟩ := hup
      have hbefore := (bone?_append h hname).symm.trans hfound
      exact .child ⟨found, hbefore, hparent⟩ (ih (hs.of_up ⟨found, hbefore, hparent⟩))

/-- A new bone whose parent is there already keeps a skeleton closed. -/
theorem Closed.append (hs : s.Closed) (h : s'.bones = s.bones ++ [bone])
    (hparent : ∀ parent, bone.parent = some parent → parent ∈ s.names) : s'.Closed := by
  intro other hother parent hsome
  rw [names_append h]
  rw [h] at hother
  rcases List.mem_append.mp hother with hold | hlast
  · exact List.mem_append_left _ (hs other hold parent hsome)
  · obtain rfl := List.mem_singleton.mp hlast
    exact List.mem_append_left _ (hparent parent hsome)

/-- A new bone whose parent is there already makes a skeleton neither more nor less of a
forest. -/
theorem Closed.isForest_append (hs : s.Closed) (h : s'.bones = s.bones ++ [bone])
    (hnew : bone.name ∉ s.names)
    (hparent : ∀ parent, bone.parent = some parent → parent ∈ s.names) :
    s'.IsForest ↔ s.IsForest := by
  have hnames : s'.names = s.names ++ [bone.name] := names_append h
  constructor
  · intro hforest name hname
    refine Rooted.of_append hs h (hforest name ?_) hname
    rw [hnames]
    exact List.mem_append_left _ hname
  · intro hforest name hname
    rw [hnames] at hname
    rcases List.mem_append.mp hname with hold | hlast
    · exact (hforest name hold).append h
    · obtain rfl := List.mem_singleton.mp hlast
      have hself := bone?_append_self h hnew
      cases hp : bone.parent with
      | none => exact .root hself hp
      | some parent =>
          exact .child ⟨bone, hself, hp⟩ ((hforest parent (hparent parent hp)).append h)

variable [Scalar α]

/-- The parent of an image is there before it. -/
theorem Closed.parent_mirrorBone (hs : s.Closed) {source : Bone α} (hsource : source ∈ s.bones)
    (h : (s.mirrorBone name source).parent = some parent) : parent ∈ s.names := by
  obtain ⟨before, hbefore, rfl⟩ := Option.map_eq_some_iff.mp h
  split
  · rename_i hcontains
    exact contains_iff.mp hcontains
  · exact hs source hsource before hbefore

variable {base : List (Bone α)} {entries : List (BoneEntry α)} {preset list : Json α}
  {epsilon : α} {journal journal' : Journal}

/-- What a mirror entry does to a closed skeleton. -/
theorem Closed.addMirror (hs : s.Closed) {mirror : String}
    (h : Returns (addMirror epsilon s name mirror) journal s' journal') :
    s'.Closed ∧ (s'.IsForest ↔ s.IsForest) := by
  rcases of_returns_addMirror h with ⟨-, rfl, -⟩ | ⟨source, hsource, hadd, -⟩
  · exact ⟨hs, .rfl⟩
  · obtain ⟨hnew, hbones⟩ := of_add_eq_ok hadd
    have hparent : ∀ parent, (s.mirrorBone name source).parent = some parent → parent ∈ s.names :=
      fun parent hparent => hs.parent_mirrorBone (of_bone?_eq_some hsource).1 hparent
    exact ⟨hs.append hbones hparent, hs.isForest_append hbones hnew hparent⟩

theorem Closed.addMirrors (hs : s.Closed) {mirrors : List (String × String)}
    (h : Returns (Skeleton.addMirrors epsilon s mirrors) journal s' journal') :
    s'.Closed ∧ (s'.IsForest ↔ s.IsForest) := by
  refine of_returns_foldlM (P := fun t => t.Closed ∧ (t.IsForest ↔ s.IsForest)) ?_ ⟨hs, .rfl⟩ h
  rintro t ⟨name, mirror⟩ t' _ _ ⟨hclosed, hforest⟩ hadd
  obtain ⟨hclosed', hforest'⟩ := hclosed.addMirror hadd
  exact ⟨hclosed', hforest'.trans hforest⟩

/-! ### Declared parents -/

/-- A plain bone is declared to have another plain bone as its parent. -/
def Declares (base : List (Bone α)) (entries : List (BoneEntry α)) (child parent : String) :
    Prop :=
  child ∈ plainNames base entries ∧ parent ∈ plainNames base entries ∧
    declaredParent base entries child = some parent

omit [Scalar α] in
theorem Plain.closed (h : Plain base entries s) : s.Closed := by
  intro bone hbone parent hparent
  rw [h.parent bone hbone, Option.filter_eq_some_iff] at hparent
  rw [h.names]
  exact of_decide_eq_true hparent.2

omit [Scalar α] in
theorem Plain.up_iff (h : Plain base entries s) {child parent : String} :
    s.Up child parent ↔ Declares base entries child parent := by
  rw [Declares, ← h.names]
  constructor
  · rintro ⟨bone, hbone, hparent⟩
    obtain ⟨hmem, rfl⟩ := of_bone?_eq_some hbone
    rw [h.parent bone hmem, Option.filter_eq_some_iff] at hparent
    exact ⟨mem_names_of_bone? hbone, h.names ▸ of_decide_eq_true hparent.2, hparent.1⟩
  · rintro ⟨hchild, hparent, hdeclared⟩
    obtain ⟨bone, hbone⟩ := exists_bone?_of_mem hchild
    obtain ⟨hmem, rfl⟩ := of_bone?_eq_some hbone
    have hplain : decide (parent ∈ plainNames base entries) = true := by
      simpa [h.names] using hparent
    exact ⟨bone, hbone, by rw [h.parent bone hmem, hdeclared, Option.filter_some, if_pos hplain]⟩

theorem isForest_of_returns_assemble
    (h : Returns (assemble base entries epsilon) journal s journal') :
    s.Closed ∧ (s.IsForest ↔ ∀ name, ¬ TransGen (Declares base entries) name name) := by
  obtain ⟨plain, _, hplain, -, hmirrors⟩ := of_returns_assemble h
  obtain ⟨hclosed, hforest⟩ := hplain.closed.addMirrors hmirrors
  have hup : plain.Up = Declares base entries := funext₂ fun _ _ => propext hplain.up_iff
  rw [← hup]
  exact ⟨hclosed, hforest.trans hplain.closed.isForest_iff⟩

/-- Every parent in a skeleton of a recipe is a bone of it, and the bones make up a forest
exactly if the declared parents have no cycle. -/
theorem isForest_iff_acyclic (h : Returns (ofRecipe preset list epsilon) journal s journal') :
    ∃ base entries, Describes preset list base entries ∧
      s.Closed ∧ (s.IsForest ↔ ∀ name, ¬ TransGen (Declares base entries) name name) := by
  obtain ⟨base, entries, _, hdescribes, -, hassemble⟩ := of_returns_ofRecipe h
  obtain ⟨hclosed, hforest⟩ := isForest_of_returns_assemble hassemble
  exact ⟨base, entries, hdescribes, hclosed, hforest⟩

/-- A hand on an arm on a trunk, and the images of the arm and the hand on the other side. -/
def upperBody : Json ℚ :=
  let point (x z : Int) : Json ℚ := .arr [.int x, .int 0, .int z]
  .arr [
    .obj [("bone", .str "trunk"), ("head", point 0 0), ("tail", point 0 1)],
    .obj [("bone", .str "arm_l"), ("head", point 0 1), ("tail", point 4 1),
      ("parent", .str "trunk")],
    .obj [("bone", .str "hand_l"), ("head", point 4 1), ("tail", point 5 1),
      ("parent", .str "arm_l")],
    .obj [("bone", .str "arm_r"), ("mirror", .str "arm_l")],
    .obj [("bone", .str "hand_r"), ("mirror", .str "hand_l")]]

theorem isForest_iff_acyclic_upperBody : ∃ s journal base entries,
    Returns (ofRecipe .null upperBody (1 / 1000)) Journal.empty s journal ∧
      Describes .null upperBody base entries ∧
      s.Closed ∧ (s.IsForest ↔ ∀ name, ¬ TransGen (Declares base entries) name name) ∧
      s.Up "hand_l" "arm_l" ∧ s.Up "arm_l" "trunk" ∧
      s.Up "hand_r" "arm_r" ∧ s.Up "arm_r" "trunk" ∧ s.IsForest := by
  have hseen : seen (ofRecipe .null upperBody (1 / 1000)) Journal.empty (fun s _ => s.bones) =
      some [⟨"trunk", none, ⟨0, 0, 0⟩, ⟨0, 0, 1⟩⟩,
        ⟨"arm_l", some "trunk", ⟨0, 0, 1⟩, ⟨4, 0, 1⟩⟩,
        ⟨"hand_l", some "arm_l", ⟨4, 0, 1⟩, ⟨5, 0, 1⟩⟩,
        ⟨"arm_r", some "trunk", ⟨0, 0, 1⟩, ⟨-4, 0, 1⟩⟩,
        ⟨"hand_r", some "arm_r", ⟨-4, 0, 1⟩, ⟨-5, 0, 1⟩⟩] := by
    decide +kernel
  obtain ⟨s, journal, h, hbones⟩ := exists_returns_of_seen hseen
  obtain ⟨base, entries, hdescribes, hclosed, hforest⟩ := isForest_iff_acyclic h
  have hbone (name : String) := (s.bone?_eq name).trans (congrArg (List.find? _) hbones)
  have hup_l : s.Up "arm_l" "trunk" := ⟨_, hbone "arm_l", rfl⟩
  have hup_r : s.Up "arm_r" "trunk" := ⟨_, hbone "arm_r", rfl⟩
  have hhand_l : s.Up "hand_l" "arm_l" := ⟨_, hbone "hand_l", rfl⟩
  have hhand_r : s.Up "hand_r" "arm_r" := ⟨_, hbone "hand_r", rfl⟩
  have htrunk : s.Rooted "trunk" := .root (hbone "trunk") rfl
  have hrooted : s.IsForest := by
    rw [IsForest, names, hbones]
    simp only [List.map_cons, List.map_nil, List.forall_mem_cons]
    exact ⟨htrunk, .child hup_l htrunk, .child hhand_l (.child hup_l htrunk),
      .child hup_r htrunk, .child hhand_r (.child hup_r htrunk), List.forall_mem_nil _⟩
  exact ⟨s, journal, base, entries, h, hdescribes, hclosed, hforest, hhand_l, hup_l, hhand_r,
    hup_r, hrooted⟩

/-- Two bones that are each the parent of the other. -/
def loop : Json ℚ :=
  .arr [
    .obj [("bone", .str "a"), ("parent", .str "b")],
    .obj [("bone", .str "b"), ("parent", .str "a")]]

/-- The two bones are taken as they are, and their parents lead to no root. -/
theorem exists_bone_without_root : ∃ s journal,
    Returns (ofRecipe .null loop (1 / 1000)) Journal.empty s journal ∧ journal.warnings = [] ∧
      "a" ∈ s.names ∧ ¬ s.Rooted "a" := by
  have hseen : seen (ofRecipe .null loop (1 / 1000)) Journal.empty (fun s journal =>
      (s.bone? "a", s.bone? "b", journal.warnings)) =
        some (some ⟨"a", some "b", ⟨0, 0, 0⟩, ⟨0, 0, 1 / 10⟩⟩,
          some ⟨"b", some "a", ⟨0, 0, 0⟩, ⟨0, 0, 1 / 10⟩⟩, []) := by
    decide +kernel
  obtain ⟨s, journal, h, hlook⟩ := exists_returns_of_seen hseen
  obtain ⟨ha, hrest⟩ := Prod.mk.inj hlook
  obtain ⟨hb, hwarnings⟩ := Prod.mk.inj hrest
  have hcycle : TransGen s.Up "a" "a" := .tail (.single ⟨_, ha, rfl⟩) ⟨_, hb, rfl⟩
  exact ⟨s, journal, h, hwarnings, mem_names_of_bone? ha, fun hrooted => hrooted.not_cyclic hcycle⟩

end Mannequin.Skeleton
