import Mannequin.Proofs.Character.References

/-!
# Resolved bridges

A bridge leads from a mesh that asks for one at its end to a mesh of a child bone that
asks for one at its start. Parts ask for none, so both are segments, and linking the
meshes takes the caps away where the bridge is to be. Every name in a resolved
character refers to something that the character has.
-/

namespace Mannequin

variable {α : Type}

namespace Bridge

variable {bridges : List Bridge} {b : Bridge} {mesh : BoneMesh α}

/-- A mesh that a bridge leads from has no cap at its end. -/
theorem capEnd_settle (hb : b ∈ bridges) (h : mesh.bone = b.parent) :
    (settle bridges mesh).capEnd = false := by
  have hall : (bridges.all fun b => b.parent ≠ mesh.bone) = false := by
    rw [List.all_eq_false]
    exact ⟨b, hb, by simp [h]⟩
  rw [settle, hall, Bool.and_false]

/-- A mesh that a bridge leads to has no cap at its start. -/
theorem capStart_settle (hb : b ∈ bridges) (h : mesh.bone = b.child) :
    (settle bridges mesh).capStart = false := by
  have hall : (bridges.all fun b => b.child ≠ mesh.bone) = false := by
    rw [List.all_eq_false]
    exact ⟨b, hb, by simp [h]⟩
  rw [settle, hall, Bool.and_false]

end Bridge

namespace Character

/-- The names in a character refer to what it has: the targets of modifiers to its bool
shapes, and the ends of bridges to meshes of its bones that are segments, open where the
bridge is to be. -/
structure Coherent (c : Character α) : Prop where
  distinct : (c.meshes.map BoneMesh.bone).Nodup
  targets : ∀ m ∈ c.meshes, Build.TargetsIn c.boolShapes m.modifiers
  ends : ∀ b ∈ c.bridges, b.parent ∈ c.meshes.map BoneMesh.bone ∧
    b.child ∈ c.meshes.map BoneMesh.bone
  openEnd : ∀ b ∈ c.bridges, ∀ m ∈ c.meshes, m.bone = b.parent →
    m.part = none ∧ m.capEnd = false
  openStart : ∀ b ∈ c.bridges, ∀ m ∈ c.meshes, m.bone = b.child →
    m.part = none ∧ m.capStart = false

variable [Scalar α] {context : Context α} {bone : String} {definition : Json α}
  {mesh : BoneMesh α}

omit [Scalar α] in
theorem part_eq_none_of_bridge {m : Blueprint.BoneMesh α}
    (h : (withoutBridges m).connectStart = .bridge ∨ (withoutBridges m).connectEnd = .bridge) :
    m.part = none := by
  unfold withoutBridges at h
  split at h
  case isTrue => rcases h with hstart | hend <;> contradiction
  case isFalse hpart => simpa using hpart

/-- A mesh that asks for a bridge is no part. -/
theorem MadeFrom.part_eq_none (h : MadeFrom context bone definition mesh)
    (hbridge : mesh.connectStart = .bridge ∨ mesh.connectEnd = .bridge) : mesh.part = none := by
  obtain ⟨joint, read, -, -, hplace⟩ := h
  have hplaced := Blueprint.BoneMesh.placed hplace
  rw [hplaced.connectStart, hplaced.connectEnd] at hbridge
  rw [hplaced.part, part_withoutBridges, part_eq_none_of_bridge hbridge, Option.map_none]

variable {definitions : NameMap (Json α)} {placed : List (BoneMesh α)} {character : Character α}

/-- Bones have one mesh each, so the mesh of a bone that has asked for a bridge is the one
that asked, and is no part. -/
theorem Resolution.part_eq_none (h : Resolution context definitions placed character)
    {asker : BoneMesh α} (hmesh : mesh ∈ placed) (hasker : asker ∈ placed)
    (hbone : mesh.bone = asker.bone)
    (hbridge : asker.connectStart = .bridge ∨ asker.connectEnd = .bridge) : mesh.part = none := by
  obtain rfl := List.inj_on_of_nodup_map h.distinct hmesh hasker hbone
  obtain ⟨definition, -, hmade⟩ := h.made mesh hmesh
  exact hmade.part_eq_none hbridge

/-- A resolved character has no dangling names. -/
theorem Resolution.coherent (h : Resolution context definitions placed character) :
    character.Coherent := by
  have hnames : character.meshes.map BoneMesh.bone = placed.map BoneMesh.bone := by
    rw [h.meshes, List.map_map]
    rfl
  constructor
  · rw [hnames]
    exact h.distinct
  · rw [h.meshes, List.forall_mem_map]
    intro mesh hmesh
    obtain ⟨definition, -, hmade⟩ := h.made mesh hmesh
    rw [h.boolShapes]
    exact hmade.targets
  · intro b hb
    rw [h.bridges] at hb
    obtain ⟨⟨parent, hparent, hname, -⟩, child, hchild, hname', -⟩ := Bridge.of_mem_all hb
    rw [hnames, ← hname, ← hname']
    exact ⟨List.mem_map_of_mem hparent, List.mem_map_of_mem hchild⟩
  · intro b hb
    rw [h.bridges] at hb
    rw [h.meshes, List.forall_mem_map]
    intro mesh hmesh hbone
    obtain ⟨⟨parent, hparent, hname, hbridge⟩, -⟩ := Bridge.of_mem_all hb
    have hpart := h.part_eq_none hmesh hparent (hbone.trans hname.symm) (.inr hbridge)
    exact ⟨hpart, Bridge.capEnd_settle hb hbone⟩
  · intro b hb
    rw [h.bridges] at hb
    rw [h.meshes, List.forall_mem_map]
    intro mesh hmesh hbone
    obtain ⟨-, child, hchild, hname, hbridge⟩ := Bridge.of_mem_all hb
    have hpart := h.part_eq_none hmesh hchild (hbone.trans hname.symm) (.inl hbridge)
    exact ⟨hpart, Bridge.capStart_settle hb hbone⟩

theorem coherent_of_returns_resolve {settings : Settings α} {recipe : Json α}
    {journal journal' : Journal} (h : Returns (resolve settings recipe) journal character journal') :
    character.Coherent := by
  obtain ⟨skeleton, resolved, _, _, _, hresolved, rfl⟩ := of_returns_resolve h
  obtain ⟨_, _, _, -, -, -, -, hresolution⟩ := exists_resolution hresolved
  have hcoherent := hresolution.coherent
  exact ⟨hcoherent.distinct, hcoherent.targets, hcoherent.ends, hcoherent.openEnd,
    hcoherent.openStart⟩

theorem nodup_children_of_returns_resolve {settings : Settings α} {recipe : Json α}
    {journal journal' : Journal}
    (h : Returns (resolve settings recipe) journal character journal') :
    (character.bridges.map Bridge.child).Nodup := by
  obtain ⟨skeleton, resolved, _, _, _, hresolved, rfl⟩ := of_returns_resolve h
  obtain ⟨_, _, _, -, -, -, -, hresolution⟩ := exists_resolution hresolved
  rw [hresolution.bridges]
  exact Bridge.nodup_children_all hresolution.distinct

end Character

end Mannequin
