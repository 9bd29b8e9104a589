import Mannequin.Proofs.Build.Shaping
import Mannequin.Proofs.Character.Mirror

/-!
# What the meshes of a character refer to

A definition is accepted only if the material indices of its own and of its
attachments are slots, and if its boolean modifiers combine with shapes of the recipe.
Reflecting, placing and linking a mesh changes none of this. The indices in the shapes
of a part are not looked at: they are slots of the recipe exactly if the definition
says so.
-/

namespace Mannequin

variable {α : Type}

/-! ### Material indices -/

namespace Blueprint

/-- The material index of an attachment. Only primitives have one. -/
def Attachment.material : Attachment α → Option Nat
  | .primitive shape => shape.material
  | .extrude _ => none
  | .asset _ => none

/-- The material index of a shape of a part. -/
def Shape.material : Shape α → Option Nat
  | .primitive shape => shape.material
  | .asset _ => none

/-- The material indices in a part. -/
def Part.materials (p : Part α) : List Nat :=
  p.base.material.toList ++ p.operations.filterMap fun o => o.target.material

/-- The material indices of a mesh and of its attachments. -/
def BoneMesh.ownMaterials (m : BoneMesh α) : List Nat :=
  m.material.toList ++ m.attachments.filterMap Attachment.material

/-- The material indices in the part of a mesh. -/
def BoneMesh.partMaterials (m : BoneMesh α) : List Nat := m.part.elim [] Part.materials

end Blueprint

/-- The material indices in a part. -/
def Part.materials (p : Part α) : List Nat :=
  p.base.material.toList ++ p.operations.filterMap fun o => o.target.material

namespace BoneMesh

/-- The material indices of a mesh and of its attachments. -/
def ownMaterials (m : BoneMesh α) : List Nat :=
  m.material.toList ++ m.attachments.filterMap Piece.material

/-- The material indices in the part of a mesh. -/
def partMaterials (m : BoneMesh α) : List Nat := m.part.elim [] Part.materials

/-- The material indices of a mesh, wherever it carries one. -/
def materials (m : BoneMesh α) : List Nat := m.ownMaterials ++ m.partMaterials

end BoneMesh

variable [Scalar α]

namespace Blueprint

theorem Attachment.material_reflect (a : Attachment α) : a.reflect.material = a.material := by
  cases a <;> rfl

theorem Shape.material_reflect (s : Shape α) : s.reflect.material = s.material := by
  cases s <;> rfl

theorem Part.materials_reflect (p : Part α) : p.reflect.materials = p.materials := by
  rw [materials, materials, reflect, Shape.material_reflect, List.filterMap_map]
  congr 2
  funext o
  exact Shape.material_reflect o.target

theorem BoneMesh.ownMaterials_reflect (m : BoneMesh α) :
    m.reflect.ownMaterials = m.ownMaterials := by
  rw [ownMaterials, ownMaterials, reflect, List.filterMap_map]
  congr 2
  funext a
  exact a.material_reflect

theorem BoneMesh.partMaterials_reflect (m : BoneMesh α) :
    m.reflect.partMaterials = m.partMaterials := by
  rw [partMaterials, partMaterials, reflect]
  cases m.part with
  | none => rfl
  | some p => exact p.materials_reflect

theorem Shape.material_place (s : Shape α) (frame : BoneFrame α) :
    (s.place frame).material = s.material := by
  cases s <;> rfl

theorem Part.materials_place (p : Part α) (frame : BoneFrame α) :
    (p.place frame).materials = p.materials := by
  rw [materials, Mannequin.Part.materials, place, Shape.material_place, List.filterMap_map]
  congr 2
  funext o
  exact o.target.material_place frame

theorem Attachment.material_place {a : Attachment α} {loc : Location} {frame : BoneFrame α}
    {epsilon : α} {piece : Piece α} (h : a.place loc frame epsilon = .ok piece) :
    piece.material = a.material := by
  cases a with
  | primitive shape =>
      cases h
      rfl
  | asset shape =>
      cases h
      rfl
  | extrude shape =>
      obtain ⟨_, -, h⟩ := bind_eq_ok.mp h
      obtain ⟨_, -, h⟩ := bind_eq_ok.mp h
      obtain ⟨_, -, h⟩ := bind_eq_ok.mp h
      cases h
      rfl

theorem materials_placeAttachments {loc : Location} {frame : BoneFrame α} {epsilon : α}
    {index : Nat} {attachments : List (Attachment α)} {pieces : List (Piece α)}
    (h : placeAttachments loc frame epsilon index attachments = .ok pieces) :
    pieces.filterMap Piece.material = attachments.filterMap Attachment.material := by
  induction attachments generalizing index pieces with
  | nil =>
      cases h
      rfl
  | cons a rest ih =>
      obtain ⟨piece, hpiece, h⟩ := bind_eq_ok.mp h
      obtain ⟨others, hothers, h⟩ := bind_eq_ok.mp h
      cases h
      rw [List.filterMap_cons, List.filterMap_cons, Attachment.material_place hpiece,
        ih hothers]

namespace BoneMesh.Placed

variable {m : BoneMesh α} {bone : String} {parent : Option String} {frame : BoneFrame α}
  {settings : Settings α} {mesh : Mannequin.BoneMesh α}

theorem ownMaterials (h : m.Placed bone parent frame settings mesh) :
    mesh.ownMaterials = m.ownMaterials := by
  rw [Mannequin.BoneMesh.ownMaterials, BoneMesh.ownMaterials, h.material,
    materials_placeAttachments h.attachments]

theorem partMaterials (h : m.Placed bone parent frame settings mesh) :
    mesh.partMaterials = m.partMaterials := by
  rw [Mannequin.BoneMesh.partMaterials, BoneMesh.partMaterials, h.part]
  cases m.part with
  | none => rfl
  | some p => exact p.materials_place frame

end BoneMesh.Placed

end Blueprint

namespace Character

/-! ### Checks -/

variable {loc : Location} {shapes : NameMap (BoolShape α)} {slots : Nat}

omit [Scalar α] in
theorem of_checkSlot {material : Option Nat} (h : checkSlot loc slots material = .ok ()) :
    ∀ index ∈ material, index < slots := by
  intro index hindex
  cases hindex
  by_contra hover
  rw [checkSlot, if_neg hover] at h
  cases h

omit [Scalar α] in
theorem of_checkTargets {index : Nat} {modifiers : List (Blueprint.Modifier α)}
    (h : checkTargets loc shapes index modifiers = .ok ()) : Build.TargetsIn shapes modifiers := by
  induction modifiers generalizing index with
  | nil =>
      intro op target hmem
      cases hmem
  | cons m rest ih =>
      intro op target hmem
      cases m with
      | boolean op' target' =>
          rw [checkTargets] at h
          split at h
          case isTrue hknown =>
            cases hmem with
            | head => exact hknown
            | tail _ hmem => exact ih h op target hmem
          case isFalse => cases h
      | bevel width segments =>
          cases hmem with
          | tail _ hmem => exact ih h op target hmem
      | subdivide cuts =>
          cases hmem with
          | tail _ hmem => exact ih h op target hmem

omit [Scalar α] in
theorem of_checkAttachments {index : Nat} {attachments : List (Blueprint.Attachment α)}
    (h : checkAttachments loc slots index attachments = .ok ()) :
    ∀ material ∈ attachments.filterMap Blueprint.Attachment.material, material < slots := by
  induction attachments generalizing index with
  | nil =>
      intro material hmem
      cases hmem
  | cons a rest ih =>
      cases a with
      | primitive shape =>
          obtain ⟨_, hslot, h⟩ := bind_eq_ok.mp h
          intro material hmem
          obtain ⟨a, ha, hmaterial⟩ := List.mem_filterMap.mp hmem
          cases ha with
          | head => exact of_checkSlot hslot material hmaterial
          | tail _ ha => exact ih h material (List.mem_filterMap.mpr ⟨a, ha, hmaterial⟩)
      | extrude shape => exact ih h
      | asset shape => exact ih h

/-- A definition refers to slots and to shapes that there are. -/
structure Refers (shapes : NameMap (BoolShape α)) (slots : Nat) (m : Blueprint.BoneMesh α) :
    Prop where
  slots : ∀ index ∈ m.ownMaterials, index < slots
  targets : Build.TargetsIn shapes m.modifiers

omit [Scalar α] in
theorem of_checkReferences {m : Blueprint.BoneMesh α}
    (h : checkReferences loc shapes slots m = .ok ()) : Refers shapes slots m := by
  obtain ⟨_, hslot, h⟩ := bind_eq_ok.mp h
  obtain ⟨_, htargets, hattachments⟩ := bind_eq_ok.mp h
  refine ⟨fun index hindex => ?_, of_checkTargets htargets⟩
  rw [Blueprint.BoneMesh.ownMaterials, List.mem_append, Option.mem_toList] at hindex
  cases hindex with
  | inl hmesh => exact of_checkSlot hslot index hmesh
  | inr hattached => exact of_checkAttachments hattachments index hattached

theorem Refers.reflect {m : Blueprint.BoneMesh α} (h : Refers shapes slots m) :
    Refers shapes slots m.reflect := by
  refine ⟨?_, h.targets⟩
  rw [m.ownMaterials_reflect]
  exact h.slots

/-! ### Made meshes -/

variable {context : Context α} {bone : String} {definition : Json α} {mesh : BoneMesh α}

omit [Scalar α] in
theorem ownMaterials_withoutBridges (m : Blueprint.BoneMesh α) :
    (withoutBridges m).ownMaterials = m.ownMaterials := by
  unfold withoutBridges
  split <;> rfl

omit [Scalar α] in
theorem part_withoutBridges (m : Blueprint.BoneMesh α) : (withoutBridges m).part = m.part := by
  unfold withoutBridges
  split <;> rfl

omit [Scalar α] in
theorem modifiers_withoutBridges (m : Blueprint.BoneMesh α) :
    (withoutBridges m).modifiers = m.modifiers := by
  unfold withoutBridges
  split <;> rfl

/-- What is read refers to the slots and the shapes of the recipe. -/
theorem refers_of_readMesh {read : Blueprint.BoneMesh α}
    (h : readMesh context bone definition = .ok read) :
    Refers context.boolShapes context.slots read := by
  obtain ⟨m, -, h⟩ := bind_eq_ok.mp h
  obtain ⟨_, hcheck, h⟩ := bind_eq_ok.mp h
  have hrefers := of_checkReferences hcheck
  split at h
  · cases h
    exact hrefers.reflect
  · cases h
    exact hrefers

theorem MadeFrom.contains (h : MadeFrom context bone definition mesh) :
    context.skeleton.contains bone = true := by
  obtain ⟨joint, read, hjoint, -⟩ := h
  rw [Skeleton.contains, hjoint, Option.isSome_some]

theorem MadeFrom.targets (h : MadeFrom context bone definition mesh) :
    Build.TargetsIn context.boolShapes mesh.modifiers := by
  obtain ⟨joint, read, -, hread, hplace⟩ := h
  rw [(Blueprint.BoneMesh.placed hplace).modifiers, modifiers_withoutBridges]
  exact (refers_of_readMesh hread).targets

theorem MadeFrom.ownMaterials_lt (h : MadeFrom context bone definition mesh) :
    ∀ index ∈ mesh.ownMaterials, index < context.slots := by
  obtain ⟨joint, read, -, hread, hplace⟩ := h
  rw [(Blueprint.BoneMesh.placed hplace).ownMaterials, ownMaterials_withoutBridges]
  exact (refers_of_readMesh hread).slots

/-- The part of a mesh has the material indices of its definition. -/
theorem MadeFrom.partMaterials_eq (h : MadeFrom context bone definition mesh) :
    ∃ blueprint, Blueprint.BoneMesh.ofJson (BoneMesh.location bone)
        context.settings.defaultSegments definition = .ok blueprint ∧
      mesh.partMaterials = blueprint.partMaterials := by
  obtain ⟨joint, read, -, hread, hplace⟩ := h
  obtain ⟨blueprint, hblueprint, rfl⟩ := readMesh_eq_ok hread
  refine ⟨blueprint, hblueprint, ?_⟩
  rw [(Blueprint.BoneMesh.placed hplace).partMaterials, Blueprint.BoneMesh.partMaterials,
    part_withoutBridges, ← Blueprint.BoneMesh.partMaterials]
  split
  · exact blueprint.partMaterials_reflect
  · rfl

omit [Scalar α] in
theorem ownMaterials_settle (bridges : List Bridge) (mesh : BoneMesh α) :
    (Bridge.settle bridges mesh).ownMaterials = mesh.ownMaterials := rfl

/-- In a resolved character the material indices of meshes and of their attachments are
slots. All material indices are slots exactly if those in the parts are that the
definitions of its bones ask for. -/
theorem materials_lt_iff {skeleton : Skeleton α} {settings : Settings α} {recipe : Json α}
    {journal journal' : Journal} {character : Character α}
    (h : Returns (resolveOn skeleton settings recipe) journal character journal') :
    ∃ slots definitions, slotCount (recipe.member "material_slots") = .ok slots ∧
      Alias.resolve (recipe.member "bone_meshes") = .ok definitions ∧
      (∀ mesh ∈ character.meshes, ∀ index ∈ mesh.ownMaterials, index < slots) ∧
      ((∀ mesh ∈ character.meshes, ∀ index ∈ mesh.materials, index < slots) ↔
        ∀ bone definition blueprint, definitions.get? bone = some definition →
          skeleton.contains bone →
          Blueprint.BoneMesh.ofJson (BoneMesh.location bone) settings.defaultSegments
            definition = .ok blueprint →
          ∀ index ∈ blueprint.partMaterials, index < slots) := by
  obtain ⟨context, definitions, placed, rfl, rfl, htable, hslots, hresolution⟩ :=
    exists_resolution h
  have hown : ∀ mesh ∈ character.meshes, ∀ index ∈ mesh.ownMaterials, index < context.slots := by
    rw [hresolution.meshes, List.forall_mem_map]
    intro mesh hmesh
    obtain ⟨definition, -, hmade⟩ := hresolution.made mesh hmesh
    rw [ownMaterials_settle]
    exact hmade.ownMaterials_lt
  refine ⟨context.slots, definitions, hslots, htable ▸ hresolution.resolves, hown, ?_⟩
  constructor
  · intro hall bone definition blueprint hdefinition hcontains hblueprint index hindex
    obtain ⟨mesh, hmesh, hmade⟩ := hresolution.complete bone definition hdefinition hcontains
    obtain ⟨blueprint', hblueprint', hparts⟩ := hmade.partMaterials_eq
    rw [hblueprint] at hblueprint'
    cases hblueprint'
    rw [hresolution.meshes, List.forall_mem_map] at hall
    refine hall mesh hmesh index (List.mem_append_right _ ?_)
    rw [← hparts] at hindex
    exact hindex
  · intro hparts mesh hmesh index hindex
    cases List.mem_append.mp hindex with
    | inl hindex => exact hown mesh hmesh index hindex
    | inr hindex =>
        rw [hresolution.meshes] at hmesh
        obtain ⟨before, hbefore, rfl⟩ := List.mem_map.mp hmesh
        obtain ⟨definition, hdefinition, hmade⟩ := hresolution.made before hbefore
        obtain ⟨blueprint, hblueprint, heq⟩ := hmade.partMaterials_eq
        refine hparts before.bone definition blueprint hdefinition hmade.contains hblueprint index ?_
        rw [← heq]
        exact hindex

/-- A cube of the material of an index. -/
def cube (index : Int) : Json ℚ :=
  .obj [("primitive", .str "cube"), ("dimensions", .arr [.int 1, .int 1, .int 1]),
    ("material_index", .int index)]

/-- A recipe with one slot: a cube is attached to the hips, and one takes the place of the
chest. -/
def cubes : Json ℚ :=
  .obj [("material_slots", .arr [.str "clay"]),
    ("bone_meshes", .obj [("hips", .obj [("attachments", .arr [cube 0])]),
      ("chest", .obj [("part", .obj [("base", cube 0)])])])]

/-- The material indices in the part of a definition, none if it cannot be read. -/
def writtenIn (definition : String × Json ℚ) : List Nat :=
  match Blueprint.BoneMesh.ofJson (BoneMesh.location definition.1)
      (Settings.standard (α := ℚ)).defaultSegments definition.2 with
  | .ok blueprint => blueprint.partMaterials
  | .error _ => []

/-- Both cubes have the slot, the one in place of the chest because its definition asks for
no other. -/
theorem materials_lt_iff_cubes : ∃ character journal,
    Returns (resolve Settings.standard cubes) Journal.empty character journal ∧
      ∀ mesh ∈ character.meshes, ∀ index ∈ mesh.materials, index < 1 := by
  have hresolves : (outcome (resolve Settings.standard cubes) Journal.empty).1.isOk = true := by
    decide +kernel
  have hwritten : ((Alias.resolve (cubes.member "bone_meshes")).toOption.map fun definitions =>
      definitions.entries.flatMap writtenIn) = some [0] := by
    decide +kernel
  rcases houtcome : outcome (resolve Settings.standard cubes) Journal.empty with
    ⟨e | character, journal⟩
  · rw [houtcome] at hresolves
    cases hresolves
  · refine ⟨character, journal, houtcome, ?_⟩
    obtain ⟨skeleton, resolved, _, _, _, hresolved, rfl⟩ := of_returns_resolve houtcome
    obtain ⟨slots, definitions, hslots, hdefinitions, -, hiff⟩ := materials_lt_iff hresolved
    have hone : slotCount (cubes.member "material_slots") = .ok 1 := rfl
    rw [hone] at hslots
    cases hslots
    rw [hdefinitions] at hwritten
    have hzero : definitions.entries.flatMap writtenIn = [0] := Option.some.inj hwritten
    refine hiff.mpr fun bone definition blueprint hdefinition _ hblueprint index hindex => ?_
    have hmem : index ∈ definitions.entries.flatMap writtenIn := by
      refine List.mem_flatMap.mpr ⟨_, NameMap.mem_entries_iff.mpr hdefinition, ?_⟩
      rw [writtenIn, hblueprint]
      exact hindex
    rw [hzero, List.mem_singleton] at hmem
    rw [hmem]
    exact Nat.one_pos

/-- A recipe for the hips, a cube in their place. -/
def bareCube : Json ℚ :=
  .obj [("bone_meshes", .obj [("hips", .obj [("part", .obj [("base", cube 5)])])])]

/-- The cube that takes the place of the hips is accepted without a slot. -/
theorem exists_material_without_slot : ∃ character journal,
    Returns (resolve Settings.standard bareCube) Journal.empty character journal ∧
      slotCount (bareCube.member "material_slots") = .ok 0 ∧
      ∃ mesh ∈ character.meshes, 5 ∈ mesh.materials := by
  have hresolves : ((outcome (resolve Settings.standard bareCube) Journal.empty).1.toOption.map
      fun character => character.meshes.map BoneMesh.materials) = some [[5]] := by
    decide +kernel
  rcases houtcome : outcome (resolve Settings.standard bareCube) Journal.empty with
    ⟨e | character, journal⟩
  · rw [houtcome] at hresolves
    cases hresolves
  · rw [houtcome] at hresolves
    refine ⟨character, journal, houtcome, rfl, ?_⟩
    have hmaterials : character.meshes.map BoneMesh.materials = [[5]] := Option.some.inj hresolves
    obtain ⟨mesh, hmesh, heq⟩ := List.mem_map.mp (hmaterials ▸ List.mem_singleton_self [5])
    exact ⟨mesh, hmesh, heq ▸ List.mem_singleton_self _⟩

end Character

end Mannequin
