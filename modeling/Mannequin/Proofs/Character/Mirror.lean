import Mathlib.Algebra.Order.Ring.Rat
import Mathlib.Data.Rat.Sqrt
import Mathlib.Tactic.Ring
import Mannequin.Proofs.Character.Reflection
import Mannequin.Proofs.Character.Resolution
import Mannequin.Proofs.Reading
import Mannequin.Proofs.Skeleton

/-!
# Mirrored bone meshes

A recipe may define the mesh of one side only and mirror it on the other. In exact
arithmetic the second mesh is then the reflection of the first, whatever the
definition says and whichever way the bone points.
-/

namespace Mannequin.Character

/-- A table defines one bone by itself and has another one mirror it. -/
structure Mirrors {α : Type} (table : Json α) (source image : String) : Prop where
  definition : ∃ definition, table.member? source = some definition ∧ ¬ Alias.IsMirror definition
  record : ∃ record, table.member? image = some record ∧
    record.member? "mirror" = some (.str source)

section

variable {α : Type} [Scalar α]

theorem readMesh_eq_ok {context : Context α} {bone : String} {definition : Json α}
    {read : Blueprint.BoneMesh α} (h : readMesh context bone definition = .ok read) :
    ∃ mesh, Blueprint.BoneMesh.ofJson (BoneMesh.location bone) context.settings.defaultSegments
        definition = .ok mesh ∧
      read = if CrossesSides bone (Alias.sourceKey context.table bone) then mesh.reflect
        else mesh := by
  obtain ⟨mesh, hmesh, h⟩ := bind_eq_ok.mp h
  obtain ⟨_, -, h⟩ := bind_eq_ok.mp h
  refine ⟨mesh, hmesh, ?_⟩
  by_cases hcrosses : CrossesSides bone (Alias.sourceKey context.table bone)
  · rw [if_pos hcrosses] at h ⊢
    exact (Except.ok.inj h).symm
  · rw [if_neg hcrosses] at h ⊢
    exact (Except.ok.inj h).symm

theorem withoutBridges_reflect (mesh : Blueprint.BoneMesh α) :
    withoutBridges mesh.reflect = (withoutBridges mesh).reflect := by
  have hpart : mesh.reflect.part.isSome = mesh.part.isSome := by
    rw [Blueprint.BoneMesh.reflect, Option.isSome_map]
  rw [withoutBridges, withoutBridges, hpart]
  split <;> rfl

theorem opposite_settle {mesh image : BoneMesh α} (bridges : List Bridge)
    (h : mesh.Opposite image) :
    (Bridge.settle bridges mesh).Opposite (Bridge.settle bridges image) :=
  ⟨h.frame, h.profile, h.radius, h.segment, h.field, h.part, h.attachments, h.modifiers,
    h.material⟩

/-- Meshes that are made from one definition on opposite bones are opposite, if the
second takes it from the first. -/
theorem MadeFrom.opposite [Scalar.Signed α] {context : Context α} {source image : String}
    {definition : Json α} {mesh mesh' : BoneMesh α} (hframed : context.skeleton.Framed)
    (hbones : context.skeleton.OppositeBones source image)
    (hsource : Alias.sourceKey context.table source = source)
    (himage : Alias.sourceKey context.table image = source)
    (h : MadeFrom context source definition mesh)
    (h' : MadeFrom context image definition mesh') : mesh.Opposite mesh' := by
  obtain ⟨joint, read, hjoint, hread, hplace⟩ := h
  obtain ⟨joint', read', hjoint', hread', hplace'⟩ := h'
  obtain ⟨blueprint, hblueprint, rfl⟩ := readMesh_eq_ok hread
  obtain ⟨blueprint', hblueprint', rfl⟩ := readMesh_eq_ok hread'
  obtain rfl := Blueprint.BoneMesh.placeless_ofJson _ _ _ _ _ _ hblueprint hblueprint'
  have hstays : ¬ CrossesSides source source := fun hcrosses => hcrosses.1 rfl
  have hcrosses : CrossesSides image source := ⟨hbones.ne, hbones.name⟩
  rw [hsource, if_neg hstays] at hplace
  rw [himage, if_pos hcrosses, withoutBridges_reflect] at hplace'
  obtain ⟨_, _, hfound, hfound', hframes⟩ := hbones.joints hframed
  rw [hjoint] at hfound
  rw [hjoint'] at hfound'
  cases hfound
  cases hfound'
  exact Blueprint.BoneMesh.concur_place _ _ _ _ _ _ hframes _ _ hplace hplace'

end

/-- When a recipe resolves that mirrors the mesh of a bone on the opposite bone, both
bones have their meshes, and these are opposite. Every skeleton that is built has the
frames of its bones. -/
theorem mirrored_opposite {α : Type} [Exact α] {skeleton : Skeleton α} {settings : Settings α}
    {recipe : Json α} {journal journal' : Journal} {character : Character α}
    {source image : String} (hframed : skeleton.Framed)
    (hbones : skeleton.OppositeBones source image)
    (hmirrors : Mirrors (recipe.member "bone_meshes") source image)
    (h : Returns (resolveOn skeleton settings recipe) journal character journal') :
    (∃ mesh ∈ character.meshes, mesh.bone = source) ∧
      (∃ mesh ∈ character.meshes, mesh.bone = image) ∧
      ∀ mesh ∈ character.meshes, ∀ mesh' ∈ character.meshes, mesh.bone = source →
        mesh'.bone = image → mesh.Opposite mesh' := by
  obtain ⟨context, definitions, bridges, rfl, htable, hresolve, hfrom, hinto⟩ :=
    of_returns_resolveOn h
  rw [← htable] at hmirrors
  obtain ⟨concrete, hconcrete, hplain⟩ := hmirrors.definition
  obtain ⟨record, hrecord, hmirror⟩ := hmirrors.record
  have hsource := Alias.get?_resolve_concrete hresolve hconcrete hplain
  have himage := Alias.get?_resolve_mirror hresolve hconcrete hplain hrecord hmirror
  obtain ⟨joint, joint', hjoint, hjoint', -⟩ := hbones.joints hframed
  have hcontains : context.skeleton.contains source = true := by
    rw [Skeleton.contains, hjoint, Option.isSome_some]
  have hcontains' : context.skeleton.contains image = true := by
    rw [Skeleton.contains, hjoint', Option.isSome_some]
  refine ⟨hinto source (NameMap.mem_of_get? hsource) hcontains,
    hinto image (NameMap.mem_of_get? himage) hcontains', ?_⟩
  rintro mesh hmesh mesh' hmesh' rfl rfl
  obtain ⟨_, placed, hdefinition, hmade, rfl⟩ := hfrom mesh hmesh
  obtain ⟨_, placed', hdefinition', hmade', rfl⟩ := hfrom mesh' hmesh'
  rw [hsource] at hdefinition
  rw [himage] at hdefinition'
  cases hdefinition
  cases hdefinition'
  exact opposite_settle bridges (hmade.opposite hframed hbones
    (Alias.sourceKey_of_concrete hconcrete hplain)
    (Alias.sourceKey_of_mirror hconcrete hplain hrecord hmirror) hmade')

/-- The rational numbers with roots that are exact on squares, and with the first terms of
the series of sine and cosine. -/
instance : Exact ℚ where
  sqrt := Rat.sqrt
  sin a := a - a ^ 3 / 6
  cos a := 1 - a ^ 2 / 2
  pi := 22 / 7
  text := toString
  sin_neg a := by ring
  cos_neg a := by ring

/-- Two legs that spread from the hips. -/
def legs : List (Bone ℚ) :=
  [⟨"leg_l", none, ⟨1, 0, 0⟩, ⟨25, 0, 7⟩⟩, ⟨"leg_r", none, ⟨-1, 0, 0⟩, ⟨-25, 0, 7⟩⟩]

/-- A twisted leg in steps with a knee to its side and a rod along it, and the mirror of all
this. -/
def strides : Json ℚ :=
  let leg : Json ℚ := .obj [
    ("twist", .int 30),
    ("extrusion_steps", .arr [.int 1, .obj [
      ("extrude", .int 1), ("translate", .arr [.int 1, .int 2, .int 0]), ("rotate", .int 15),
      ("tilt", .arr [.int 5, .int 10])]]),
    ("attachments", .arr [
      .obj [("primitive", .str "sphere"), ("dimensions", .arr [.int 1, .int 1, .int 1]),
        ("offset", .arr [.int 1, .int 0, .int 0])],
      .obj [("extrude", .obj [("start", .arr [.int 1, .int 0, .int 0]),
        ("end", .arr [.int 1, .int 0, .int 1])])]])]
  .obj [("bone_meshes", .obj [("leg_l", leg), ("leg_r", .obj [("mirror", .str "leg_l")])])]

/-- The legs are opposite. -/
theorem mirrored_opposite_legs : ∃ skeleton character journal,
    Skeleton.empty.addAll legs (1 / 1000) = .ok skeleton ∧
      Returns (resolveOn skeleton Settings.standard strides) Journal.empty character journal ∧
      ∃ mesh ∈ character.meshes, ∃ mesh' ∈ character.meshes, mesh.Opposite mesh' := by
  have hresolves : ((Skeleton.empty.addAll legs (1 / 1000)).toOption.map fun skeleton =>
      (skeleton.bone? "leg_l", skeleton.bone? "leg_r",
        (outcome (resolveOn skeleton Settings.standard strides) Journal.empty).1.isOk)) =
      some (legs[0]?, legs[1]?, true) := by
    decide +kernel
  cases hskeleton : Skeleton.empty.addAll legs (1 / 1000) with
  | error e =>
      rw [hskeleton] at hresolves
      cases hresolves
  | ok skeleton =>
      rw [hskeleton] at hresolves
      obtain ⟨hleft, hrest⟩ := Prod.mk.inj (Option.some.inj hresolves)
      obtain ⟨hright, hresolves⟩ := Prod.mk.inj hrest
      rcases houtcome : outcome (resolveOn skeleton Settings.standard strides) Journal.empty with
        ⟨e | character, journal⟩
      · rw [houtcome] at hresolves
        cases hresolves
      · have hmirrors : Mirrors (strides.member "bone_meshes") "leg_l" "leg_r" :=
          ⟨⟨_, rfl, by decide +kernel⟩, _, rfl, rfl⟩
        have hbones : skeleton.OppositeBones "leg_l" "leg_r" :=
          ⟨by decide +kernel, by decide, _, _, hleft, hright, by decide +kernel, by decide +kernel⟩
        obtain ⟨⟨mesh, hmesh, hsource⟩, ⟨mesh', hmesh', himage⟩, hopposite⟩ :=
          mirrored_opposite (Skeleton.framed_empty.addAll hskeleton) hbones hmirrors houtcome
        exact ⟨skeleton, character, journal, rfl, houtcome, mesh, hmesh, mesh', hmesh',
          hopposite mesh hmesh mesh' hmesh' hsource himage⟩

end Mannequin.Character
