import Mannequin.Proofs.Character.Mirror
import Mannequin.Proofs.Skeleton.Description

/-!
# Parents as they are declared

Parents are settled when all plain bones are there and none of the mirror images is. A
plain bone keeps its declared parent if this is a plain bone, and loses it with a warning
otherwise, also where the parent is an image that the skeleton gets later.
-/

namespace Mannequin.Skeleton

variable {α : Type} [Scalar α] {s s' plain : Skeleton α} {base : List (Bone α)}
  {entries : List (BoneEntry α)} {list preset : Json α} {epsilon : α}
  {journal journal' : Journal}

theorem nodup_names_of_addMirrors {mirrors : List (String × String)} (hs : s.names.Nodup)
    (h : Returns (addMirrors epsilon s mirrors) journal s' journal') : s'.names.Nodup := by
  refine of_returns_foldlM (P := fun s => s.names.Nodup) ?_ hs h
  rintro s ⟨name, mirror⟩ s' _ _ hs hadd
  rcases of_returns_addMirror hadd with ⟨-, rfl, -⟩ | ⟨source, -, hadd, -⟩
  · exact hs
  · exact nodup_names_of_add hs hadd

/-- A skeleton and its warnings are as base bones and entries declare the parents, as far
as these are plain bones. -/
structure Settles (base : List (Bone α)) (entries : List (BoneEntry α)) (s : Skeleton α)
    (warnings : List Warning) : Prop where
  nodup : s.names.Nodup
  /-- The bones are all plain bones and after these images. -/
  names : ∃ images, s.names = plainNames base entries ++ images ∧
    images ⊆ (mirrorEntries entries).map Prod.fst
  /-- A plain bone has its declared parent exactly if this is a plain bone. -/
  parent : ∀ bone ∈ s.bones, bone.name ∈ plainNames base entries →
    bone.parent = (declaredParent base entries bone.name).filter (· ∈ plainNames base entries)
  /-- A parent is reported as missing exactly if it is no plain bone. -/
  warnings : ∃ skipped, warnings = missingParents base entries ++ skipped ∧
    ∀ warning ∈ skipped, ∃ entry ∈ mirrorEntries entries, warning = missingSource entry.1 entry.2

theorem settles_of_returns_assemble
    (h : Returns (assemble base entries epsilon) journal s journal') :
    ∃ warnings, journal'.warnings = journal.warnings ++ warnings ∧
      Settles base entries s warnings := by
  obtain ⟨plain, middle, hplain, hwarned, hmirrors⟩ := of_returns_assemble h
  obtain ⟨images, skipped, hbones, hwarnings, himages, hskipped⟩ := of_returns_addMirrors hmirrors
  have hnodup := nodup_names_of_addMirrors hplain.nodup hmirrors
  have hnames := names_append hbones
  rw [hplain.names] at hnames
  refine ⟨missingParents base entries ++ skipped,
    by rw [hwarnings, hwarned, List.append_assoc], ?_⟩
  refine ⟨hnodup, ⟨_, hnames, ?_⟩, ?_, skipped, rfl, hskipped⟩
  · intro name hname
    obtain ⟨image, himage, rfl⟩ := List.mem_map.mp hname
    exact himages image himage
  · intro bone hbone hin
    rw [hbones] at hbone
    rcases List.mem_append.mp hbone with hbone | himage
    · exact hplain.parent bone hbone
    · -- names are distinct, so an image does not have the name of a plain bone
      rw [hnames, List.nodup_append'] at hnodup
      exact absurd (List.mem_map_of_mem himage) (hnodup.2.2 hin)

/-- In every skeleton that a list gives, on its own or with a preset, a plain bone has the
last parent declared for it if this is a plain bone, and else has none and is reported. -/
theorem parents_settled (preset list : Json α) (epsilon : α) (journal journal' : Journal)
    (s : Skeleton α) :
    (Returns (ofList list epsilon) journal s journal' → ∃ entries warnings,
      Written list entries ∧ journal'.warnings = journal.warnings ++ warnings ∧
        Settles [] entries s warnings) ∧
      (Returns (ofRecipe preset list epsilon) journal s journal' → ∃ base entries warnings,
        Describes preset list base entries ∧ journal'.warnings = journal.warnings ++ warnings ∧
          Settles base entries s warnings) := by
  constructor
  · intro h
    obtain ⟨entries, hwritten, hassemble⟩ := of_returns_ofList h
    obtain ⟨warnings, hwarnings, hsettles⟩ := settles_of_returns_assemble hassemble
    exact ⟨entries, warnings, hwritten, hwarnings, hsettles⟩
  · intro h
    obtain ⟨base, entries, told, hdescribes, htold, hassemble⟩ := of_returns_ofRecipe h
    obtain ⟨warnings, hwarnings, hsettles⟩ := settles_of_returns_assemble hassemble
    exact ⟨base, entries, warnings, hdescribes, htold ▸ hwarnings, hsettles⟩

/-- An arm with its image on the other side, and a hand on the side of the image. -/
def arms : Json ℚ :=
  .arr [
    .obj [("bone", .str "arm_l"), ("head", .arr [.int 1, .int 0, .int 1]),
      ("tail", .arr [.int 5, .int 0, .int 1])],
    .obj [("bone", .str "arm_r"), ("mirror", .str "arm_l")],
    .obj [("bone", .str "hand_r"), ("parent", .str "arm_r")]]

/-- The entries for these bones. -/
def armEntries : List (BoneEntry ℚ) :=
  [⟨"arm_l", some ⟨1, 0, 1⟩, some ⟨5, 0, 1⟩, none, none⟩,
   ⟨"arm_r", none, none, none, some "arm_l"⟩,
   ⟨"hand_r", none, none, some "arm_r", none⟩]

theorem parents_settled_arms : ∃ s journal entries warnings,
    Returns (ofList arms (1 / 1000)) Journal.empty s journal ∧ Written arms entries ∧
      journal.warnings = warnings ∧ Settles [] entries s warnings := by
  have hseen : seen (ofList arms (1 / 1000)) Journal.empty (fun _ _ => true) = some true := by
    decide +kernel
  obtain ⟨s, journal, h, -⟩ := exists_returns_of_seen hseen
  obtain ⟨entries, warnings, hwritten, hwarnings, hsettles⟩ :=
    (parents_settled .null arms (1 / 1000) Journal.empty journal s).1 h
  exact ⟨s, journal, entries, warnings, h, hwritten, hwarnings, hsettles⟩

/-- The hand loses the parent that is declared for it, and this is reported as missing,
although the skeleton has it. -/
theorem exists_lost_parent : ∃ s journal, Written arms armEntries ∧
    Returns (ofList arms (1 / 1000)) Journal.empty s journal ∧
      "hand_r" ∈ plainNames [] armEntries ∧ declaredParent [] armEntries "hand_r" = some "arm_r" ∧
        s.contains "arm_r" = true ∧ (s.bone? "hand_r").map Bone.parent = some none ∧
          journal.warnings = [⟨"hand_r", "parent 'arm_r' not found"⟩] := by
  have hseen : seen (ofList arms (1 / 1000)) Journal.empty (fun s journal =>
      (s.contains "arm_r", (s.bone? "hand_r").map Bone.parent, journal.warnings)) =
        some (true, some none, [⟨"hand_r", "parent 'arm_r' not found"⟩]) := by
    decide +kernel
  obtain ⟨s, journal, h, hlook⟩ := exists_returns_of_seen hseen
  obtain ⟨hcontains, hrest⟩ := Prod.mk.inj hlook
  obtain ⟨hparent, hwarnings⟩ := Prod.mk.inj hrest
  exact ⟨s, journal, ⟨_, rfl, by decide +kernel⟩, h, by decide, by decide, hcontains, hparent,
    hwarnings⟩

end Mannequin.Skeleton
