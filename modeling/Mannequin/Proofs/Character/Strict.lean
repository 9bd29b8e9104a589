import Mannequin.Proofs.Character.Complete
import Mannequin.Proofs.Narrowing

/-!
# Strict settings

Strict settings refuse a recipe with a mesh for a bone that the skeleton does not have;
lenient ones skip that mesh with a warning. This is all that they decide. A recipe is
resolved under strict settings exactly if it is resolved under lenient ones with no mesh
skipped, and the character and everything that is told are the same.
-/

namespace Mannequin

variable {α : Type}

namespace Settings

/-- The settings of a run that refuses meshes for unknown bones. -/
def strict (settings : Settings α) : Settings α := { settings with strictBones := true }

/-- The settings of a run that skips meshes for unknown bones. -/
def lenient (settings : Settings α) : Settings α := { settings with strictBones := false }

end Settings

namespace Character

variable [Scalar α]

namespace Context

/-- What definitions refer to, under other settings. -/
def under (context : Context α) (settings : Settings α) : Context α := { context with settings }

end Context

variable {skeleton : Skeleton α} {settings : Settings α} {recipe : Json α}
  {context : Context α} {journal journal' : Journal} {character : Character α}

/-- A definition is resolved under strict settings if its bone is there, too. -/
theorem narrows_resolveMesh (context : Context α) (bone : String) (definition : Json α) :
    Narrows (context.skeleton.contains bone = true)
      (resolveMesh (context.under context.settings.strict) bone definition)
      (resolveMesh (context.under context.settings.lenient) bone definition) := by
  refine .after _ fun read _ _ _ => .after _ fun mesh _ _ _ => ?_
  rw [Skeleton.contains]
  simp only [Context.under]
  cases context.skeleton.joint? bone with
  | some joint => exact .refl _ rfl
  | none =>
      intro s result s'
      refine iff_of_false (fun h => ?_) fun h => Bool.false_ne_true h.2
      obtain ⟨_, _, hrefused, -⟩ := returns_bind.mp h
      cases (returns_lift.mp hrefused).1

/-- A recipe is resolved under strict settings if all bones that it gives meshes to are there,
too. -/
theorem narrows_resolveOn (skeleton : Skeleton α) (settings : Settings α) (recipe : Json α) :
    Narrows (∀ key ∈ (recipe.member "bone_meshes").members, skeleton.contains key = true)
      (resolveOn skeleton settings.strict recipe) (resolveOn skeleton settings.lenient recipe) := by
  refine .after _ fun earlier _ _ _ => .after _ fun _ _ _ _ => ?_
  refine .after _ fun definitions _ _ hread => .guarded ?_
  refine .after _ fun shapes _ _ _ => .after _ fun slots _ _ _ => ?_
  refine .after _ fun boolShapes _ _ _ => ?_
  have hmem : ∀ key, key ∈ definitions.names ↔ key ∈ (recipe.member "bone_meshes").members :=
    fun key => NameMap.mem_names.trans (Alias.mem_resolve (resolve_eq_ok (returns_lift.mp hread).1))
  let context : Context α :=
    ⟨skeleton, settings, recipe.member "bone_meshes", boolShapes, slots⟩
  have hmeshes := Narrows.filterMapM (l := definitions.entries) fun entry _ =>
    narrows_resolveMesh context entry.1 entry.2
  refine (hmeshes.before _).congr ?_
  rw [← List.forall_mem_map (f := Prod.fst) (P := fun key => skeleton.contains key = true)]
  exact forall_congr' fun key => imp_congr_left (hmem key)

/-- Under lenient settings no mesh is skipped exactly if all bones are there. -/
theorem forall_warnings_iff (hlenient : settings.strictBones = false)
    (h : Returns (resolveOn skeleton settings recipe) journal character journal') :
    (∀ warning ∈ character.warnings, warning.reason ≠ notFound) ↔
      ∀ key ∈ (recipe.member "bone_meshes").members, skeleton.contains key = true := by
  obtain ⟨context, definitions, shapes, placed, told, hcourse, rfl⟩ := exists_course h
  have hcount := hcourse.count_warnings hlenient
  constructor
  · intro hquiet key hkey
    by_contra hmissing
    have honce := hcount key
    rw [if_pos ⟨hkey, Bool.eq_false_of_not_eq_true hmissing⟩] at honce
    exact hquiet _ (List.count_pos_iff.mp (honce ▸ Nat.one_pos)) rfl
  · rintro hbones ⟨key, reason⟩ hwarning rfl
    have hpos := List.count_pos_iff.mpr hwarning
    rw [hcount key, if_neg] at hpos
    · exact Nat.lt_irrefl 0 hpos
    · rintro ⟨hkey, hmissing⟩
      exact Bool.false_ne_true (hmissing.symm.trans (hbones key hkey))

/-- Strict settings refuse a recipe only where lenient ones skip a mesh, and change nothing
else. -/
theorem resolveOn_strict_iff :
    Returns (resolveOn skeleton settings.strict recipe) journal character journal' ↔
      Returns (resolveOn skeleton settings.lenient recipe) journal character journal' ∧
        ∀ warning ∈ character.warnings, warning.reason ≠ notFound := by
  rw [narrows_resolveOn skeleton settings recipe journal character journal']
  exact and_congr_right fun h => (forall_warnings_iff rfl h).symm

end Character

end Mannequin
