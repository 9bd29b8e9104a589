import Mathlib.Data.List.Forall2
import Mannequin.Character
import Mannequin.Proofs.Alias
import Mannequin.Proofs.Character.Linking

/-!
# Where the meshes of a character come from

A recipe that is resolved has made each of its meshes from one definition: read
under the name of the bone, without bridges if it is a part, placed on the joint of
that bone, and settled between the bridges that were found. No definition for a bone
of the skeleton is left out.
-/

namespace Mannequin

namespace Blueprint

variable {α : Type} [Scalar α]

/-- Attachments are placed one by one, in their order. -/
theorem forall₂_placeAttachments {loc : Location} {frame : BoneFrame α} {epsilon : α}
    {index : Nat} {attachments : List (Attachment α)} {pieces : List (Piece α)}
    (h : placeAttachments loc frame epsilon index attachments = .ok pieces) :
    List.Forall₂ (fun a piece => ∃ place, a.place place frame epsilon = .ok piece)
      attachments pieces := by
  induction attachments generalizing index pieces with
  | nil =>
      cases h
      exact .nil
  | cons a rest ih =>
      obtain ⟨piece, hpiece, h⟩ := bind_eq_ok.mp h
      obtain ⟨others, hothers, h⟩ := bind_eq_ok.mp h
      cases h
      exact .cons ⟨_, hpiece⟩ (ih hothers)

namespace BoneMesh

/-- What a mesh that is placed on a bone takes over from its definition. -/
structure Placed (m : BoneMesh α) (bone : String) (parent : Option String)
    (frame : BoneFrame α) (settings : Settings α) (mesh : Mannequin.BoneMesh α) : Prop where
  part : mesh.part = m.part.map fun p => p.place frame
  attachments : placeAttachments (.key (Mannequin.BoneMesh.location bone) "attachments") frame
    settings.degenerateEpsilon 0 m.attachments = .ok mesh.attachments
  bone : mesh.bone = bone
  parent : mesh.parent = parent
  frame : mesh.frame = frame
  connectStart : mesh.connectStart = m.connectStart
  connectEnd : mesh.connectEnd = m.connectEnd
  modifiers : mesh.modifiers = m.modifiers
  material : mesh.material = m.material

theorem placed {m : BoneMesh α} {bone : String} {parent : Option String} {frame : BoneFrame α}
    {settings : Settings α} {mesh : Mannequin.BoneMesh α}
    (h : m.place bone parent frame settings = .ok mesh) :
    m.Placed bone parent frame settings mesh := by
  obtain ⟨_, -, h⟩ := bind_eq_ok.mp h
  obtain ⟨_, -, h⟩ := bind_eq_ok.mp h
  obtain ⟨_, -, h⟩ := bind_eq_ok.mp h
  obtain ⟨pieces, hpieces, h⟩ := bind_eq_ok.mp h
  cases h
  exact ⟨rfl, hpieces, rfl, rfl, rfl, rfl, rfl, rfl, rfl⟩

end BoneMesh

end Blueprint

namespace Character

variable {α : Type} [Scalar α]

/-- A definition that asks for no bridges if it is a part. -/
def withoutBridges (mesh : Blueprint.BoneMesh α) : Blueprint.BoneMesh α :=
  if mesh.part.isSome then { mesh with connectStart := .segmented, connectEnd := .segmented }
  else mesh

/-- A mesh is made from a definition under the name of a bone. -/
def MadeFrom (context : Context α) (bone : String) (definition : Json α) (mesh : BoneMesh α) :
    Prop :=
  ∃ joint read, context.skeleton.joint? bone = some joint ∧
    readMesh context bone definition = .ok read ∧
    (withoutBridges read).place bone joint.bone.parent joint.frame context.settings = .ok mesh

variable {journal journal' : Journal} {context : Context α} {bone : String} {definition : Json α}

/-- The warnings for the requests of a part. -/
def partWarnings (bone : String) (mesh : Blueprint.BoneMesh α) : List Warning :=
  if mesh.part.isSome then
    (if mesh.connectStart = .bridge then [⟨bone, partStart⟩] else []) ++
      if mesh.connectEnd = .bridge then [⟨bone, partEnd⟩] else []
  else []

omit [Scalar α] in
theorem returns_dropBridges (bone : String) (mesh : Blueprint.BoneMesh α) (journal : Journal) :
    Returns (dropBridges bone mesh) journal (withoutBridges mesh)
      (journal.warned (partWarnings bone mesh)) := by
  rw [dropBridges, withoutBridges, partWarnings]
  by_cases hpart : mesh.part.isSome
  · rw [if_pos hpart, if_pos hpart, if_pos hpart, ← Journal.warned_warned]
    by_cases hstart : mesh.connectStart = .bridge <;> by_cases hend : mesh.connectEnd = .bridge <;>
      simp only [hstart, hend, reduceIte, Journal.warned_nil] <;> rfl
  · rw [if_neg hpart, if_neg hpart, if_neg hpart, Journal.warned_nil]
    rfl

theorem MadeFrom.bone_eq {mesh : BoneMesh α} (h : MadeFrom context bone definition mesh) :
    mesh.bone = bone := by
  obtain ⟨joint, read, -, -, hplace⟩ := h
  exact (Blueprint.BoneMesh.placed hplace).bone

/-- A definition is skipped only if the skeleton does not have its bone. -/
theorem of_returns_resolveMesh {result : Option (BoneMesh α)}
    (h : Returns (resolveMesh context bone definition) journal result journal') :
    (∀ mesh, result = some mesh → MadeFrom context bone definition mesh) ∧
      (context.skeleton.contains bone → ∃ mesh, result = some mesh) := by
  obtain ⟨read, _, hread, h⟩ := returns_bind.mp h
  obtain ⟨dropped, _, hdropped, h⟩ := returns_bind.mp h
  obtain ⟨rfl, -⟩ := hdropped.unique (returns_dropBridges bone read _)
  rw [Skeleton.contains]
  cases hjoint : context.skeleton.joint? bone with
  | none =>
      simp only [hjoint] at h
      obtain ⟨_, h⟩ := of_returns_guarded h
      obtain ⟨_, _, -, h⟩ := returns_bind.mp h
      obtain ⟨rfl, -⟩ := returns_pure.mp h
      constructor
      · intro mesh hmesh
        cases hmesh
      · intro hcontains
        cases hcontains
  | some joint =>
      simp only [hjoint] at h
      obtain ⟨placed, _, hplaced, h⟩ := returns_bind.mp h
      obtain ⟨rfl, -⟩ := returns_pure.mp h
      constructor
      · rintro mesh ⟨⟩
        exact ⟨joint, read, hjoint, (returns_lift.mp hread).1, (returns_lift.mp hplaced).1⟩
      · intro _
        exact ⟨placed, rfl⟩

omit [Scalar α] in
theorem resolve_eq_ok {name : String} {table : Json α} {resolved : NameMap (Json α)}
    (h : definitions name table = .ok resolved) : Alias.resolve table = .ok resolved :=
  mapError_eq_ok.mp h

/-- The names of meshes that are made from definitions are as different as those of the
definitions. -/
theorem nodup_of_returns_meshes {definitions : NameMap (Json α)} {placed : List (BoneMesh α)}
    (h : Returns (definitions.entries.filterMapM fun (bone, definition) =>
      resolveMesh context bone definition) journal placed journal') :
    (placed.map BoneMesh.bone).Nodup := by
  refine definitions.nodup_names.sublist (sublist_of_returns_filterMapM ?_ h)
  intro entry mesh r r' hreturns
  exact ((of_returns_resolveMesh hreturns).1 mesh rfl).bone_eq

/-- How a recipe is resolved: what is read from it, and what the pass through its
definitions makes of them and tells. -/
structure Course (skeleton : Skeleton α) (settings : Settings α) (recipe : Json α)
    (journal : Journal) (context : Context α) (definitions shapes : NameMap (Json α))
    (placed : List (BoneMesh α)) (told : Journal) : Prop where
  onSkeleton : context.skeleton = skeleton
  underSettings : context.settings = settings
  table : context.table = recipe.member "bone_meshes"
  slots : slotCount (recipe.member "material_slots") = .ok context.slots
  resolves : Alias.resolve context.table = .ok definitions
  resolvesShapes : Alias.resolve (recipe.member "bool_shapes") = .ok shapes
  boolShapes : shapes.traverse (resolveBoolShape skeleton) = .ok context.boolShapes
  meshes : Returns (definitions.entries.filterMapM fun (bone, definition) =>
    resolveMesh context bone definition) journal placed told

/-- The meshes that are made are linked, and the warnings that are told on the way are kept. -/
theorem parts_of_returns_resolveOn {skeleton : Skeleton α} {settings : Settings α}
    {recipe : Json α} {character : Character α}
    (h : Returns (resolveOn skeleton settings recipe) journal character journal') :
    ∃ (context : Context α) (definitions shapes : NameMap (Json α))
      (placed : List (BoneMesh α)) (told : Journal),
      Course skeleton settings recipe journal context definitions shapes placed told ∧
      journal'.warnings = told.warnings ++ Bridge.warnings (Bridge.all placed) placed ∧
      character = {
        meshes := placed.map (Bridge.settle (Bridge.all placed))
        bridges := Bridge.all placed
        boolShapes := context.boolShapes
        warnings := journal'.warnings.drop journal.warnings.length } := by
  obtain ⟨_, _, hearlier, h⟩ := returns_bind.mp h
  obtain ⟨rfl, rfl⟩ := returns_pure.mp hearlier
  obtain ⟨_, _, hobject, h⟩ := returns_bind.mp h
  obtain ⟨-, rfl⟩ := returns_lift.mp hobject
  obtain ⟨definitions, _, hread, h⟩ := returns_bind.mp h
  obtain ⟨hdefinitions, rfl⟩ := returns_lift.mp hread
  split at h
  · obtain ⟨_, _, hrefused, -⟩ := returns_bind.mp h
    cases (returns_lift.mp hrefused).1
  obtain ⟨shapes, _, hread, h⟩ := returns_bind.mp h
  obtain ⟨hshapes, rfl⟩ := returns_lift.mp hread
  obtain ⟨slots, _, hread, h⟩ := returns_bind.mp h
  obtain ⟨hslots, rfl⟩ := returns_lift.mp hread
  obtain ⟨boolShapes, _, hread, h⟩ := returns_bind.mp h
  obtain ⟨hboolShapes, rfl⟩ := returns_lift.mp hread
  obtain ⟨placed, told, hplaced, h⟩ := returns_bind.mp h
  obtain ⟨linked, _, hlinked, h⟩ := returns_bind.mp h
  obtain ⟨rfl, rfl⟩ := hlinked.unique (Bridge.returns_link (nodup_of_returns_meshes hplaced) told)
  obtain ⟨_, _, hlater, h⟩ := returns_bind.mp h
  obtain ⟨rfl, rfl⟩ := returns_pure.mp hlater
  obtain ⟨_, _, hsummed, h⟩ := returns_bind.mp h
  obtain ⟨rfl, rfl⟩ := returns_pure.mp h
  have hwarnings := Journaled.warnings_of_info hsummed
  exact ⟨⟨skeleton, settings, recipe.member "bone_meshes", boolShapes, slots⟩, definitions, shapes,
    placed, told, ⟨rfl, rfl, rfl, hslots, resolve_eq_ok hdefinitions, resolve_eq_ok hshapes,
      hboolShapes, hplaced⟩, hwarnings, by rw [hwarnings]⟩

/-- The warnings of a character come from its definitions and from linking its meshes. -/
theorem exists_course {skeleton : Skeleton α} {settings : Settings α} {recipe : Json α}
    {character : Character α}
    (h : Returns (resolveOn skeleton settings recipe) journal character journal') :
    ∃ (context : Context α) (definitions shapes : NameMap (Json α))
      (placed : List (BoneMesh α)) (told : Journal),
      Course skeleton settings recipe journal context definitions shapes placed told ∧
      character = {
        meshes := placed.map (Bridge.settle (Bridge.all placed))
        bridges := Bridge.all placed
        boolShapes := context.boolShapes
        warnings := (told.warnings ++ Bridge.warnings (Bridge.all placed) placed).drop
          journal.warnings.length } := by
  obtain ⟨context, definitions, shapes, placed, told, hcourse, hwarnings, hcharacter⟩ :=
    parts_of_returns_resolveOn h
  rw [hwarnings] at hcharacter
  exact ⟨context, definitions, shapes, placed, told, hcourse, hcharacter⟩

/-- A character is resolved from definitions: its meshes are made from them in their
order, and linked. -/
structure Resolution (context : Context α) (definitions : NameMap (Json α))
    (placed : List (BoneMesh α)) (character : Character α) : Prop where
  resolves : Alias.resolve context.table = .ok definitions
  meshes : character.meshes = placed.map (Bridge.settle (Bridge.all placed))
  bridges : character.bridges = Bridge.all placed
  boolShapes : character.boolShapes = context.boolShapes
  made : ∀ mesh ∈ placed, ∃ definition, definitions.get? mesh.bone = some definition ∧
    MadeFrom context mesh.bone definition mesh
  complete : ∀ bone definition, definitions.get? bone = some definition →
    context.skeleton.contains bone → ∃ mesh ∈ placed, MadeFrom context bone definition mesh
  distinct : (placed.map BoneMesh.bone).Nodup

/-- The pass through the definitions makes a mesh from every definition of a bone. -/
theorem Course.resolution {skeleton : Skeleton α} {settings : Settings α} {recipe : Json α}
    {definitions shapes : NameMap (Json α)} {placed : List (BoneMesh α)} {told : Journal}
    (h : Course skeleton settings recipe journal context definitions shapes placed told)
    (warnings : List Warning) :
    Resolution context definitions placed
      ⟨placed.map (Bridge.settle (Bridge.all placed)), Bridge.all placed, context.boolShapes,
        warnings⟩ := by
  obtain ⟨hfrom, hinto⟩ := of_returns_filterMapM h.meshes
  refine ⟨h.resolves, rfl, rfl, rfl, ?_, ?_, nodup_of_returns_meshes h.meshes⟩
  · intro mesh hmesh
    obtain ⟨⟨bone, definition⟩, hentry, _, _, hreturns⟩ := hfrom mesh hmesh
    have hmade := (of_returns_resolveMesh hreturns).1 mesh rfl
    obtain rfl := hmade.bone_eq
    exact ⟨definition, NameMap.mem_entries_iff.mp hentry, hmade⟩
  · intro bone definition hdefinition hcontains
    obtain ⟨result, _, _, hreturns, hmem⟩ :=
      hinto (bone, definition) (NameMap.mem_entries_iff.mpr hdefinition)
    obtain ⟨hmade, hsome⟩ := of_returns_resolveMesh hreturns
    obtain ⟨mesh, hmesh⟩ := hsome hcontains
    exact ⟨mesh, hmem mesh hmesh, hmade mesh hmesh⟩

/-- A recipe that is resolved refers to its own slots and shapes. -/
theorem exists_resolution {skeleton : Skeleton α} {settings : Settings α} {recipe : Json α}
    {character : Character α}
    (h : Returns (resolveOn skeleton settings recipe) journal character journal') :
    ∃ (context : Context α) (definitions : NameMap (Json α)) (placed : List (BoneMesh α)),
      context.skeleton = skeleton ∧ context.settings = settings ∧
      context.table = recipe.member "bone_meshes" ∧
      slotCount (recipe.member "material_slots") = .ok context.slots ∧
      Resolution context definitions placed character := by
  obtain ⟨context, definitions, _, placed, _, hcourse, rfl⟩ := exists_course h
  exact ⟨context, definitions, placed, hcourse.onSkeleton, hcourse.underSettings, hcourse.table,
    hcourse.slots, hcourse.resolution _⟩

/-- The meshes of a resolved recipe are those of its definitions. -/
theorem of_returns_resolveOn {skeleton : Skeleton α} {settings : Settings α} {recipe : Json α}
    {character : Character α}
    (h : Returns (resolveOn skeleton settings recipe) journal character journal') :
    ∃ (context : Context α) (definitions : NameMap (Json α)) (bridges : List Bridge),
      context.skeleton = skeleton ∧ context.table = recipe.member "bone_meshes" ∧
      Alias.resolve context.table = .ok definitions ∧
      (∀ mesh ∈ character.meshes, ∃ definition placed,
        definitions.get? mesh.bone = some definition ∧
        MadeFrom context mesh.bone definition placed ∧ mesh = Bridge.settle bridges placed) ∧
      ∀ bone ∈ definitions, skeleton.contains bone →
        ∃ mesh ∈ character.meshes, mesh.bone = bone := by
  obtain ⟨context, definitions, placed, rfl, -, htable, -, hresolution⟩ := exists_resolution h
  refine ⟨context, definitions, Bridge.all placed, rfl, htable, hresolution.resolves, ?_, ?_⟩
  · intro mesh hmesh
    rw [hresolution.meshes] at hmesh
    obtain ⟨before, hbefore, rfl⟩ := List.mem_map.mp hmesh
    obtain ⟨definition, hdefinition, hmade⟩ := hresolution.made before hbefore
    exact ⟨definition, before, hdefinition, hmade, rfl⟩
  · intro bone hbone hcontains
    obtain ⟨definition, hdefinition⟩ := NameMap.mem_iff_exists.mp hbone
    obtain ⟨mesh, hmesh, hmade⟩ := hresolution.complete bone definition hdefinition hcontains
    refine ⟨Bridge.settle (Bridge.all placed) mesh, ?_, hmade.bone_eq⟩
    rw [hresolution.meshes]
    exact List.mem_map_of_mem hmesh

/-- A recipe that is resolved on its own is resolved on the skeleton that it describes, and
the warnings about this are put before its own. -/
theorem parts_of_returns_resolve {settings : Settings α} {recipe : Json α}
    {character : Character α} (h : Returns (resolve settings recipe) journal character journal') :
    ∃ skeleton resolved middle,
      Returns (Skeleton.ofRecipe (recipe.member "skeleton_preset") (recipe.member "skeleton")
        settings.degenerateEpsilon) journal skeleton middle ∧
      Returns (resolveOn skeleton settings recipe) middle resolved journal' ∧
      character =
        { resolved with
          warnings := middle.warnings.drop journal.warnings.length ++ resolved.warnings } := by
  obtain ⟨_, _, hearlier, h⟩ := returns_bind.mp h
  obtain ⟨rfl, rfl⟩ := returns_pure.mp hearlier
  obtain ⟨_, _, hobject, h⟩ := returns_bind.mp h
  obtain ⟨-, rfl⟩ := returns_lift.mp hobject
  obtain ⟨skeleton, _, hskeleton, h⟩ := returns_bind.mp h
  obtain ⟨_, _, htold, h⟩ := returns_bind.mp h
  obtain ⟨rfl, rfl⟩ := returns_pure.mp htold
  obtain ⟨resolved, _, hresolved, h⟩ := returns_bind.mp h
  obtain ⟨rfl, rfl⟩ := returns_pure.mp h
  exact ⟨skeleton, resolved, _, hskeleton, hresolved, rfl⟩

theorem exists_skeleton_of_returns_resolve {settings : Settings α} {recipe : Json α}
    {character : Character α} (h : Returns (resolve settings recipe) journal character journal') :
    ∃ skeleton resolved middle middle' warnings,
      Returns (Skeleton.ofRecipe (recipe.member "skeleton_preset") (recipe.member "skeleton")
        settings.degenerateEpsilon) journal skeleton middle ∧
      Returns (resolveOn skeleton settings recipe) middle resolved middle' ∧
      character = { resolved with warnings } := by
  obtain ⟨skeleton, resolved, middle, hskeleton, hresolved, heq⟩ := parts_of_returns_resolve h
  exact ⟨skeleton, resolved, middle, _, _, hskeleton, hresolved, heq⟩

theorem of_returns_resolve {settings : Settings α} {recipe : Json α} {character : Character α}
    (h : Returns (resolve settings recipe) journal character journal') :
    ∃ skeleton resolved middle middle' warnings,
      Returns (resolveOn skeleton settings recipe) middle resolved middle' ∧
      character = { resolved with warnings } := by
  obtain ⟨skeleton, resolved, _, _, _, -, hresolved, heq⟩ := exists_skeleton_of_returns_resolve h
  exact ⟨skeleton, resolved, _, _, _, hresolved, heq⟩

end Character

end Mannequin
