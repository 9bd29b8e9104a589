import Mannequin.Proofs.Alias.Sources
import Mannequin.Proofs.Character.Makeup

/-!
# No definition is lost

Under lenient settings the pass through the definitions makes a mesh for every bone of the
skeleton and skips every other definition with a warning, in the order of the names. Each
mesh stands on its own bone and is made up as the definition says in which the chain of
its name ends.
-/

namespace Mannequin.Character

variable {α : Type}

theorem not_mem_partWarnings (bone key : String) (mesh : Blueprint.BoneMesh α) :
    (⟨key, notFound⟩ : Warning) ∉ partWarnings bone mesh := by
  have hstart : notFound ≠ partStart := by decide
  have hend : notFound ≠ partEnd := by decide
  rw [partWarnings]
  split <;> [skip; simp]
  split <;> split <;> simp [hstart, hend]

theorem not_mem_bridgeWarnings (bridges : List Bridge) (meshes : List (BoneMesh α))
    (key : String) : (⟨key, notFound⟩ : Warning) ∉ Bridge.warnings bridges meshes := by
  have hparent : Bridge.noParent ≠ notFound := by decide
  have hchild : Bridge.noChild ≠ notFound := by decide
  simp [Bridge.warnings, hparent, hchild]

variable [Scalar α] {context : Context α} {journal told : Journal}

/-! ### The pass through the definitions -/

/-- What is known of definitions that are done: those of bones have their meshes, and every
other one its warning. -/
structure Passed (context : Context α) (journal : Journal) (done : List (String × Json α))
    (placed : List (BoneMesh α)) (told : Journal) : Prop where
  bones : placed.map BoneMesh.bone = (done.map Prod.fst).filter context.skeleton.contains
  warnings : ∃ warnings, told = journal.warned warnings ∧ ∀ key,
    warnings.count ⟨key, notFound⟩ =
      ((done.map Prod.fst).filter fun name => !context.skeleton.contains name).count key

/-- One definition gives a mesh for its bone or is skipped with its warning. -/
theorem passed_of_returns_resolveMesh (hlenient : context.settings.strictBones = false)
    {bone : String} {definition : Json α} {result : Option (BoneMesh α)}
    (h : Returns (resolveMesh context bone definition) journal result told) :
    Passed context journal [(bone, definition)] result.toList told := by
  have hmade := (of_returns_resolveMesh h).1
  obtain ⟨read, _, hread, h⟩ := returns_bind.mp h
  obtain ⟨-, rfl⟩ := returns_lift.mp hread
  obtain ⟨mesh, _, hdropped, h⟩ := returns_bind.mp h
  obtain ⟨rfl, rfl⟩ := hdropped.unique (returns_dropBridges bone read journal)
  have hquiet : ∀ key, (partWarnings bone read).count ⟨key, notFound⟩ = 0 := fun key =>
    List.count_eq_zero_of_not_mem (not_mem_partWarnings bone key read)
  cases hjoint : context.skeleton.joint? bone with
  | none =>
      have hmissing : context.skeleton.contains bone = false := by
        rw [Skeleton.contains, hjoint, Option.isSome_none]
      simp only [hjoint, hlenient] at h
      obtain ⟨_, _, hwarn, h⟩ := returns_bind.mp h
      obtain rfl := Journaled.returns_warn.mp hwarn
      obtain ⟨rfl, rfl⟩ := returns_pure.mp h
      refine ⟨by simp [hmissing], _, Journal.warned_warned _ _ _, fun key => ?_⟩
      rw [List.count_append, hquiet, Nat.zero_add]
      simp [hmissing, List.count_singleton, Warning.mk.injEq]
  | some joint =>
      have hfound : context.skeleton.contains bone = true := by
        rw [Skeleton.contains, hjoint, Option.isSome_some]
      simp only [hjoint] at h
      obtain ⟨placed, _, hplaced, h⟩ := returns_bind.mp h
      obtain ⟨-, rfl⟩ := returns_lift.mp hplaced
      obtain ⟨rfl, rfl⟩ := returns_pure.mp h
      refine ⟨?_, _, rfl, fun key => ?_⟩
      · simp [hfound, (hmade placed rfl).bone_eq]
      · rw [hquiet]
        simp [hfound]

omit [Scalar α] in
theorem Passed.append {done done' : List (String × Json α)} {placed placed' : List (BoneMesh α)}
    {middle : Journal} (h : Passed context journal done placed middle)
    (h' : Passed context middle done' placed' told) :
    Passed context journal (done ++ done') (placed ++ placed') told := by
  obtain ⟨warnings, rfl, hcount⟩ := h.warnings
  obtain ⟨warnings', rfl, hcount'⟩ := h'.warnings
  constructor
  · rw [List.map_append, h.bones, h'.bones, List.map_append, List.filter_append]
  · refine ⟨warnings ++ warnings', Journal.warned_warned _ _ _, fun key => ?_⟩
    rw [List.count_append, hcount, hcount', List.map_append, List.filter_append,
      List.count_append]

theorem passed_of_returns_meshes (hlenient : context.settings.strictBones = false)
    {entries : List (String × Json α)} {placed : List (BoneMesh α)}
    (h : Returns (entries.filterMapM fun (bone, definition) =>
      resolveMesh context bone definition) journal placed told) :
    Passed context journal entries placed told := by
  have hstart : Passed context journal [] [] journal :=
    ⟨rfl, [], (journal.warned_nil).symm, fun _ => rfl⟩
  refine invariant_of_returns_filterMapM ?_ hstart h
  intro done placed entry result middle told hdone hmesh
  exact hdone.append (passed_of_returns_resolveMesh hlenient hmesh)

/-! ### Resolved characters -/

/-- A character has a mesh for every definition of a bone and a warning for every other
one, and all bool shapes of its recipe. Each mesh has the frame and the parent of its bone,
and is made up as the definition says that the chain of its name ends in. -/
structure Complete (c : Character α) (skeleton : Skeleton α) (recipe : Json α) : Prop where
  ascending : (c.meshes.map BoneMesh.bone).Pairwise (· < ·)
  bones : ∀ key, key ∈ c.meshes.map BoneMesh.bone ↔
    key ∈ (recipe.member "bone_meshes").members ∧ skeleton.contains key = true
  skipped : ∀ key, c.warnings.count ⟨key, notFound⟩ =
    if key ∈ (recipe.member "bone_meshes").members ∧ skeleton.contains key = false then 1 else 0
  boolShapes : ∀ key, key ∈ c.boolShapes ↔ key ∈ (recipe.member "bool_shapes").members
  frame : ∀ mesh ∈ c.meshes, skeleton.frame? mesh.bone = some mesh.frame
  parent : ∀ mesh ∈ c.meshes, (skeleton.bone? mesh.bone).map Bone.parent = some mesh.parent
  definition : ∀ mesh ∈ c.meshes, ∃ definition,
    (recipe.member "bone_meshes").member?
        (Alias.sourceKey (recipe.member "bone_meshes") mesh.bone) = some definition ∧
      ¬ Alias.IsMirror definition ∧ mesh.MadeUpAs definition

theorem MadeFrom.frame_parent {bone : String} {definition : Json α} {mesh : BoneMesh α}
    (h : MadeFrom context bone definition mesh) :
    context.skeleton.frame? bone = some mesh.frame ∧
      (context.skeleton.bone? bone).map Bone.parent = some mesh.parent := by
  obtain ⟨joint, read, hjoint, -, hplace⟩ := h
  have hplaced := Blueprint.BoneMesh.placed hplace
  rw [Skeleton.frame?, Skeleton.bone?, hjoint, hplaced.frame, hplaced.parent]
  exact ⟨rfl, rfl⟩

section

variable {skeleton : Skeleton α} {settings : Settings α} {recipe : Json α}
  {definitions shapes : NameMap (Json α)} {placed : List (BoneMesh α)}

theorem Course.mem_names
    (h : Course skeleton settings recipe journal context definitions shapes placed told)
    (key : String) : key ∈ definitions.names ↔ key ∈ (recipe.member "bone_meshes").members := by
  rw [NameMap.mem_names, ← h.table]
  exact Alias.mem_resolve h.resolves

/-- The pass warns once of every definition that is skipped, and linking the meshes does not
warn of any. -/
theorem Course.count_warnings
    (h : Course skeleton settings recipe journal context definitions shapes placed told)
    (hlenient : settings.strictBones = false) (key : String) :
    ((told.warnings ++ Bridge.warnings (Bridge.all placed) placed).drop
        journal.warnings.length).count ⟨key, notFound⟩ =
      if key ∈ (recipe.member "bone_meshes").members ∧ skeleton.contains key = false then 1
      else 0 := by
  have hmem := h.mem_names key
  obtain rfl := h.onSkeleton
  obtain rfl := h.underSettings
  obtain ⟨-, warnings, rfl, hcount⟩ := passed_of_returns_meshes hlenient h.meshes
  have hquiet : (Bridge.warnings (Bridge.all placed) placed).count ⟨key, notFound⟩ = 0 :=
    List.count_eq_zero_of_not_mem (not_mem_bridgeWarnings _ _ key)
  rw [Journal.warnings_warned, List.append_assoc, List.drop_left, List.count_append, hquiet,
    Nat.add_zero, hcount, ← NameMap.names, (definitions.nodup_names.filter _).count]
  refine if_congr ?_ rfl rfl
  rw [List.mem_filter, Bool.not_eq_true', hmem]

end

/-- Resolving a recipe under lenient settings loses, doubles and reorders nothing. -/
theorem resolveOn_complete {skeleton : Skeleton α} {settings : Settings α} {recipe : Json α}
    {journal journal' : Journal} {character : Character α}
    (hlenient : settings.strictBones = false)
    (h : Returns (resolveOn skeleton settings recipe) journal character journal') :
    character.Complete skeleton recipe := by
  obtain ⟨context, definitions, shapes, placed, told, hcourse, rfl⟩ := exists_course h
  have hmade := (hcourse.resolution []).made
  have hmem := hcourse.mem_names
  have hwarned := hcourse.count_warnings hlenient
  obtain rfl := hcourse.onSkeleton
  obtain rfl := hcourse.underSettings
  have hbones : (placed.map (Bridge.settle (Bridge.all placed))).map BoneMesh.bone =
      definitions.names.filter context.skeleton.contains := by
    rw [List.map_map]
    exact (passed_of_returns_meshes hlenient hcourse.meshes).bones
  constructor
  · rw [hbones]
    exact (List.pairwise_map.mpr definitions.sorted).filter _
  · intro key
    rw [hbones, List.mem_filter, hmem]
  · exact hwarned
  · intro key
    rw [← NameMap.mem_names, NameMap.names_traverse hcourse.boolShapes, NameMap.mem_names,
      Alias.mem_resolve hcourse.resolvesShapes]
  all_goals
    rw [List.forall_mem_map]
    intro mesh hmesh
    obtain ⟨definition, hdefinition, hfrom⟩ := hmade mesh hmesh
  · exact hfrom.frame_parent.1
  · exact hfrom.frame_parent.2
  · obtain ⟨hsource, hplain⟩ := Alias.member?_sourceKey hcourse.resolves hdefinition
    rw [hcourse.table] at hsource
    exact ⟨definition, hsource, hplain, hfrom.madeUpAs.settle _⟩

/-- A horned leg that the other leg and a tail take over, the latter through the former. -/
def hybrids : Json ℚ :=
  let horn : Json ℚ := .obj [("primitive", .str "cone"),
    ("dimensions", .arr [.int 1, .int 1, .int 1])]
  let spur : Json ℚ := .obj [("extrude", .obj [("start", .arr [.int 0, .int 0, .int 0]),
    ("end", .arr [.int 0, .int 1, .int 0])])]
  let leg : Json ℚ := .obj [
    ("attachments", .arr [horn, spur, .obj [("asset", .str "hoof.obj")]]),
    ("modifiers", .arr [.obj [("subdivide", .obj [("cuts", .int 2)])],
      .obj [("bool", .obj [("target", .str "hole")])]]),
    ("part", .obj [("base", horn), ("operations", .arr [
      .obj [("op", .str "subtract"), ("target", .obj [("asset", .str "groove.obj")])]])])]
  .obj [
    ("bone_meshes", .obj [("tail", .obj [("mirror", .str "leg_r")]), ("leg_l", leg),
      ("leg_r", .obj [("mirror", .str "leg_l")])]),
    ("bool_shapes", .obj [("slot", .obj [("mirror", .str "hole")]),
      ("hole", .obj [("primitive", .str "sphere"), ("dimensions", .arr [.int 1, .int 1, .int 1]),
        ("position", .arr [.int 0, .int 0, .int 0]), ("bone", .str "leg_l")])])]

theorem resolveOn_complete_hybrids : ∃ skeleton character journal,
    Skeleton.empty.addAll legs (1 / 1000) = .ok skeleton ∧
      (Settings.standard (α := ℚ)).strictBones = false ∧
      Returns (resolveOn skeleton Settings.standard hybrids) Journal.empty character journal ∧
      character.meshes.map BoneMesh.bone = ["leg_l", "leg_r"] ∧
      character.warnings = [⟨"tail", notFound⟩] ∧
      character.Complete skeleton hybrids := by
  have hresolves : ((Skeleton.empty.addAll legs (1 / 1000)).toOption.bind fun skeleton =>
      seen (resolveOn skeleton Settings.standard hybrids) Journal.empty fun character _ =>
        (character.meshes.map BoneMesh.bone, character.warnings)) =
      some (["leg_l", "leg_r"], [⟨"tail", notFound⟩]) := by
    decide +kernel
  cases hskeleton : Skeleton.empty.addAll legs (1 / 1000) with
  | error e =>
      rw [hskeleton] at hresolves
      cases hresolves
  | ok skeleton =>
      rw [hskeleton] at hresolves
      obtain ⟨character, journal, hreturns, hlook⟩ := exists_returns_of_seen hresolves
      obtain ⟨hbones, hwarnings⟩ := Prod.mk.inj hlook
      exact ⟨skeleton, character, journal, rfl, rfl, hreturns, hbones, hwarnings,
        resolveOn_complete rfl hreturns⟩

end Mannequin.Character
