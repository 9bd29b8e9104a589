import Mathlib.Algebra.BigOperators.Group.List.Basic
import Mannequin.Proofs.Renaming.Merging

/-!
# Plans for groups execute their mapping

The sources of a mapping are split by their targets: those of one target are
merged into it or are left to be renamed. No source is in two of the lists, so the
merges are independent of each other, and what is left is a renaming over the
groups as the merges leave them. Each group ends with what its sources had.
-/

namespace Mannequin.Renaming

variable {mapping : NameMap String} {source target name : String}

/-! ### Sources by their targets -/

theorem mem_entries_sourcesByTarget {e : String × List String} :
    e ∈ (sourcesByTarget mapping).entries ↔ e.2 = sourcesOf mapping e.1 ∧ e.2 ≠ [] := by
  obtain ⟨target, sources⟩ := e
  rw [NameMap.mem_entries_iff, get?_sourcesByTarget]
  by_cases h : sourcesOf mapping target = []
  · rw [if_pos h]
    simp [h]
  · rw [if_neg h, Option.some.injEq]
    constructor
    · rintro rfl
      exact ⟨rfl, h⟩
    · rintro ⟨heq, _⟩
      exact heq.symm

/-- Every name is the source of one target at most. -/
theorem nodup_flatMap_sources (mapping : NameMap String)
    (p : String × List String → Bool) :
    (((sourcesByTarget mapping).entries.filter p).flatMap Prod.snd).Nodup := by
  rw [List.nodup_flatMap]
  constructor
  · intro e he
    rw [(mem_entries_sourcesByTarget.mp (List.mem_filter.mp he).1).1]
    exact nodup_sourcesOf mapping e.1
  · refine List.Pairwise.imp_of_mem ?_ ((sourcesByTarget mapping).sorted.filter p)
    intro e f he hf hlt source hfirst hsecond
    rw [(mem_entries_sourcesByTarget.mp (List.mem_filter.mp he).1).1] at hfirst
    rw [(mem_entries_sourcesByTarget.mp (List.mem_filter.mp hf).1).1] at hsecond
    have heq := (mem_sourcesOf.mp hfirst).1.symm.trans (mem_sourcesOf.mp hsecond).1
    exact NameMap.ne_of_name_lt hlt (Option.some.inj heq)

/-- The sources of a target are merged into it. -/
def Merges (mapping : NameMap String) (target : String) : Prop :=
  IsMerged mapping target (sourcesOf mapping target)

instance (mapping : NameMap String) (target : String) : Decidable (Merges mapping target) :=
  inferInstanceAs (Decidable (IsMerged _ _ _))

theorem mem_merges {step : Merge} :
    step ∈ merges mapping ↔
      step.source ∈ sourcesOf mapping step.target ∧ Merges mapping step.target := by
  rw [merges, List.mem_flatMap]
  constructor
  · rintro ⟨e, he, hstep⟩
    obtain ⟨hentry, hmerged⟩ := List.mem_filter.mp he
    obtain ⟨source, hsource, rfl⟩ := List.mem_map.mp hstep
    rw [decide_eq_true_eq, (mem_entries_sourcesByTarget.mp hentry).1] at hmerged
    rw [(mem_entries_sourcesByTarget.mp hentry).1] at hsource
    exact ⟨hsource, hmerged⟩
  · rintro ⟨hsource, hmerged⟩
    refine ⟨(step.target, sourcesOf mapping step.target), List.mem_filter.mpr ⟨?_, ?_⟩, ?_⟩
    · exact mem_entries_sourcesByTarget.mpr ⟨rfl, List.ne_nil_of_mem hsource⟩
    · exact decide_eq_true hmerged
    · exact List.mem_map.mpr ⟨step.source, hsource, rfl⟩

theorem nodup_merges_source (mapping : NameMap String) :
    ((merges mapping).map Merge.source).Nodup := by
  have hsources := nodup_flatMap_sources mapping fun e => IsMerged mapping e.1 e.2
  rw [merges, List.map_flatMap]
  simpa only [List.map_map, Function.comp_def, List.map_id'] using hsources

theorem get?_unmerged :
    (unmerged mapping).get? source = some target ↔
      source ∈ sourcesOf mapping target ∧ ¬ Merges mapping target := by
  have hsources := nodup_flatMap_sources mapping fun e => ¬ IsMerged mapping e.1 e.2
  rw [unmerged, NameMap.get?_ofList]
  · constructor
    · intro h
      obtain ⟨e, he, hpair⟩ := List.mem_flatMap.mp (NameMap.mem_of_lookup_eq h)
      obtain ⟨hentry, hmerged⟩ := List.mem_filter.mp he
      obtain ⟨name, hname, hpair⟩ := List.mem_map.mp hpair
      cases hpair
      rw [decide_eq_true_eq, (mem_entries_sourcesByTarget.mp hentry).1] at hmerged
      rw [(mem_entries_sourcesByTarget.mp hentry).1] at hname
      exact ⟨hname, hmerged⟩
    · rintro ⟨hsource, hmerged⟩
      refine NameMap.lookup_eq_of_mem ?_ (List.mem_flatMap.mpr
        ⟨(target, sourcesOf mapping target), List.mem_filter.mpr ⟨?_, ?_⟩, ?_⟩)
      · rw [List.map_flatMap]
        simpa only [List.map_map, Function.comp_def, List.map_id'] using hsources
      · exact mem_entries_sourcesByTarget.mpr ⟨rfl, List.ne_nil_of_mem hsource⟩
      · exact decide_eq_true hmerged
      · exact List.mem_map.mpr ⟨source, hsource, rfl⟩
  · rw [List.map_flatMap]
    simpa only [List.map_map, Function.comp_def, List.map_id'] using hsources

theorem moving_unmerged (mapping : NameMap String) :
    moving (unmerged mapping) = unmerged mapping := by
  apply NameMap.ext_get?
  intro source
  apply Option.ext
  intro target
  rw [get?_moving, and_iff_left_iff_imp]
  intro h
  exact (mem_sourcesOf.mp (get?_unmerged.mp h).1).2

/-- A name is renamed, is merged into another one or does not change. -/
theorem isMoving_iff_exists :
    IsMoving mapping name ↔ ∃ target, name ∈ sourcesOf mapping target := by
  rw [isMoving_iff, NameMap.mem_iff_exists]
  exact exists_congr fun target => get?_moving.trans mem_sourcesOf.symm

theorem not_isMoving_of_merges (h : Merges mapping target) : ¬ IsMoving mapping target := h.2

/-- The merges into a target are those of its sources. -/
theorem sources_merges (mapping : NameMap String) (target : String) :
    List.Perm (((merges mapping).filter fun step => step.target = target).map Merge.source)
      (if Merges mapping target then sourcesOf mapping target else []) := by
  have hnodup : (((merges mapping).filter fun step => step.target = target).map
      Merge.source).Nodup :=
    (nodup_merges_source mapping).sublist (List.filter_sublist.map Merge.source)
  split
  case isTrue h =>
      rw [List.perm_ext_iff_of_nodup hnodup (nodup_sourcesOf mapping target)]
      intro source
      rw [List.mem_map]
      constructor
      · rintro ⟨step, hstep, rfl⟩
        obtain ⟨hmem, htarget⟩ := List.mem_filter.mp hstep
        obtain rfl := of_decide_eq_true htarget
        exact (mem_merges.mp hmem).1
      · intro hsource
        refine ⟨⟨source, target⟩, List.mem_filter.mpr ⟨?_, decide_eq_true rfl⟩, rfl⟩
        exact mem_merges.mpr ⟨hsource, h⟩
  case isFalse h =>
      rw [List.perm_nil, List.map_eq_nil_iff, List.filter_eq_nil_iff]
      intro step hstep htarget
      obtain rfl := of_decide_eq_true htarget
      exact h (mem_merges.mp hstep).2

/-! ### Planned groups -/

variable {M : Type} [AddCommMonoid M] {held after : NameMap M}

omit [AddCommMonoid M] in
theorem independent_merges (h : ∀ step ∈ merges mapping, step.source ∈ held) :
    Merge.Independent (merges mapping) held := by
  refine ⟨h, nodup_merges_source mapping, ?_⟩
  intro step hstep other hother heq
  refine not_isMoving_of_merges (mem_merges.mp hother).2 ?_
  rw [isMoving_iff_exists]
  exact ⟨step.target, heq ▸ (mem_merges.mp hstep).1⟩

theorem planGroups_eq_ok {existing : NameSet} {tempPrefix : String} {plan : GroupPlan}
    (h : planGroups mapping existing tempPrefix = .ok plan) :
    plan.merges = merges mapping ∧ (∀ step ∈ merges mapping, step.source ∈ existing) ∧
      Renaming.plan (unmerged mapping) ((merges mapping).foldl Merge.apply existing) tempPrefix =
        .ok plan.renames := by
  simp only [planGroups] at h
  split at h
  · cases h
  · rename_i hfind
    have hpresent : ∀ step ∈ merges mapping, step.source ∈ existing := by
      intro step hstep
      simpa using List.find?_eq_none.mp hfind step hstep
    cases hplan : Renaming.plan (unmerged mapping)
        ((merges mapping).foldl Merge.apply existing) tempPrefix with
    | error fault =>
        rw [hplan] at h
        cases h
    | ok renames =>
        rw [hplan] at h
        cases h
        exact ⟨rfl, hpresent, rfl⟩

/-- What becomes of weighted groups. One is there at the end when it was there and
did not change its name, or when another one moved to it. It holds its own weight,
unless that moved away, and the weights of all groups that moved to it. -/
structure Gathers (mapping : NameMap String) (held after : NameMap M) : Prop where
  present : ∀ name, name ∈ after ↔ (name ∈ held ∧ ¬ IsMoving mapping name) ∨
    ∃ source, mapping.get? source = some name ∧ source ≠ name
  weight : ∀ name, name ∈ after → after.get? name = some
    ((if name ∈ held ∧ ¬ IsMoving mapping name then weightOf held name else 0) +
      ((sourcesOf mapping name).map (weightOf held)).sum)

/-- The merges of a mapping, and a renaming of what they leave. -/
structure Regroups (mapping : NameMap String) (held after : NameMap M) : Prop where
  independent : Merge.Independent (merges mapping) held
  feasible : Feasible (unmerged mapping) (Merge.pourAll (merges mapping) held)
  moves : Moves (unmerged mapping) (Merge.pourAll (merges mapping) held) after

namespace Regroups

/-- A group that is merged into gets the weights of its sources. -/
theorem get?_of_merges (h : Regroups mapping held after) (hname : Merges mapping name) :
    after.get? name =
      some (weightOf held name + ((sourcesOf mapping name).map (weightOf held)).sum) := by
  have hstays : name ∉ unmerged mapping := by
    rw [NameMap.mem_iff_exists]
    rintro ⟨target, htarget⟩
    exact not_isMoving_of_merges hname
      (isMoving_iff_exists.mpr ⟨target, (get?_unmerged.mp htarget).1⟩)
  have hsource : ∀ step ∈ merges mapping, step.source ≠ name := by
    rintro step hstep rfl
    exact not_isMoving_of_merges hname
      (isMoving_iff_exists.mpr ⟨step.target, (mem_merges.mp hstep).1⟩)
  have hmem : name ∈ Merge.pourAll (merges mapping) held := by
    obtain ⟨source, hsource⟩ := List.exists_mem_of_length_pos (Nat.lt_of_succ_lt hname.1)
    exact h.independent.mem_pourAll.mpr
      (.inl ⟨⟨source, name⟩, mem_merges.mpr ⟨hsource, hname⟩, rfl⟩)
  have hperm := sources_merges mapping name
  rw [if_pos hname] at hperm
  rw [h.moves.kept hstays fun source hentry => (get?_unmerged.mp hentry).2 hname,
    get?_eq_some_weightOf hmem, h.independent.weightOf_pourAll hsource,
    ← (hperm.map (weightOf held)).sum_eq, List.map_map]
  rfl

/-- A group that is no source and that nothing is merged into has its lookup still
when the merges are done. -/
theorem get?_poured (h : Regroups mapping held after)
    (hsource : ∀ target, name ∈ sourcesOf mapping target → ¬ Merges mapping target)
    (htarget : ¬ Merges mapping name) :
    (Merge.pourAll (merges mapping) held).get? name = held.get? name := by
  apply h.independent.get?_pourAll_of_apart
  · rintro step hstep rfl
    obtain ⟨hmem, hmerges⟩ := mem_merges.mp hstep
    exact hsource step.target hmem hmerges
  · rintro step hstep rfl
    exact htarget (mem_merges.mp hstep).2

/-- A group that others are renamed to has one source, and gets its weight. -/
theorem get?_of_renamed (h : Regroups mapping held after) (hname : ¬ Merges mapping name)
    {source : String} (hsource : source ∈ sourcesOf mapping name) :
    sourcesOf mapping name = [source] ∧ ¬ (name ∈ held ∧ ¬ IsMoving mapping name) ∧
      source ∈ held ∧ after.get? name = some (weightOf held source) := by
  have hentry : (unmerged mapping).get? source = some name := get?_unmerged.mpr ⟨hsource, hname⟩
  have hmoving : IsMoving mapping source := isMoving_iff_exists.mpr ⟨name, hsource⟩
  have hpoured : (Merge.pourAll (merges mapping) held).get? source = held.get? source := by
    refine h.get?_poured ?_ fun hmerges => not_isMoving_of_merges hmerges hmoving
    intro target htarget
    have heq := (mem_sourcesOf.mp hsource).1.symm.trans (mem_sourcesOf.mp htarget).1
    exact Option.some.inj heq ▸ hname
  have hheld : source ∈ held := by
    have hmem := h.feasible.present (NameMap.mem_of_get? hentry)
    rwa [NameMap.mem_def, hpoured] at hmem
  refine ⟨?_, ?_, hheld, ?_⟩
  · refine List.perm_singleton.mp ((List.perm_ext_iff_of_nodup (nodup_sourcesOf mapping name)
      (List.nodup_singleton source)).mpr fun other => ?_)
    rw [List.mem_singleton]
    refine ⟨fun hother => ?_, fun heq => heq ▸ hsource⟩
    exact h.feasible.injective (get?_unmerged.mpr ⟨hother, hname⟩) hentry
  · rintro ⟨hmem, hstays⟩
    have hkept : name ∈ Merge.pourAll (merges mapping) held := by
      refine h.independent.mem_pourAll.mpr (.inr ⟨hmem, ?_⟩)
      rintro step hstep rfl
      exact hstays (isMoving_iff_exists.mpr ⟨step.target, (mem_merges.mp hstep).1⟩)
    obtain ⟨target, htarget⟩ := NameMap.mem_iff_exists.mp (h.feasible.free hentry hkept)
    exact hstays (isMoving_iff_exists.mpr ⟨target, (get?_unmerged.mp htarget).1⟩)
  · rw [h.moves.moved _ _ hentry, hpoured, get?_eq_some_weightOf hheld]

/-- A group that no other one moves to is gone if it moves, and is what it was if not. -/
theorem get?_of_no_sources (h : Regroups mapping held after)
    (hname : sourcesOf mapping name = []) :
    after.get? name = if IsMoving mapping name then none else held.get? name := by
  have hmerges : ¬ Merges mapping name := by
    intro hmerges
    have hlength := hmerges.1
    rw [hname] at hlength
    cases hlength
  have hnobody : ∀ source, (unmerged mapping).get? source ≠ some name := by
    intro source hentry
    have hsource := (get?_unmerged.mp hentry).1
    rw [hname] at hsource
    cases hsource
  by_cases hmem : name ∈ unmerged mapping
  · obtain ⟨target, htarget⟩ := NameMap.mem_iff_exists.mp hmem
    rw [if_pos (isMoving_iff_exists.mpr ⟨target, (get?_unmerged.mp htarget).1⟩)]
    exact h.moves.freed hmem hnobody
  · rw [h.moves.kept hmem hnobody]
    by_cases hmoving : IsMoving mapping name
    · -- it is merged into another one, and nothing is merged into it
      obtain ⟨target, htarget⟩ := isMoving_iff_exists.mp hmoving
      have hmerged : Merges mapping target := by
        by_contra hunmerged
        exact hmem (NameMap.mem_of_get? (get?_unmerged.mpr ⟨htarget, hunmerged⟩))
      rw [if_pos hmoving, ← NameMap.not_mem_iff, h.independent.mem_pourAll]
      rintro (⟨step, hstep, rfl⟩ | ⟨_, hsource⟩)
      · exact hmerges (mem_merges.mp hstep).2
      · exact hsource ⟨name, target⟩ (mem_merges.mpr ⟨htarget, hmerged⟩) rfl
    · rw [if_neg hmoving]
      refine h.get?_poured (fun target htarget _ => ?_) hmerges
      exact hmoving (isMoving_iff_exists.mpr ⟨target, htarget⟩)

theorem get?_eq (h : Regroups mapping held after) (name : String) :
    after.get? name =
      if (name ∈ held ∧ ¬ IsMoving mapping name) ∨ sourcesOf mapping name ≠ [] then
        some ((if name ∈ held ∧ ¬ IsMoving mapping name then weightOf held name else 0) +
          ((sourcesOf mapping name).map (weightOf held)).sum)
      else none := by
  rcases hsources : sourcesOf mapping name with _ | ⟨source, rest⟩
  · rw [h.get?_of_no_sources hsources]
    by_cases hmoving : IsMoving mapping name
    · simp [hmoving]
    · by_cases hheld : name ∈ held
      · simp [hmoving, hheld, get?_eq_some_weightOf hheld]
      · simp [hmoving, hheld, NameMap.not_mem_iff.mp hheld]
  · rw [if_pos (.inr (List.cons_ne_nil source rest)), ← hsources]
    by_cases hmerges : Merges mapping name
    · rw [h.get?_of_merges hmerges]
      by_cases hheld : name ∈ held
      · rw [if_pos ⟨hheld, not_isMoving_of_merges hmerges⟩]
      · rw [if_neg fun hstays => hheld hstays.1, weightOf_of_not_mem hheld]
    · have hsource : source ∈ sourcesOf mapping name := hsources ▸ List.mem_cons_self
      obtain ⟨hsingle, hgone, _, hget⟩ := h.get?_of_renamed hmerges hsource
      rw [hget, if_neg hgone, hsingle, List.map_singleton, List.sum_singleton, zero_add]

theorem gathers (h : Regroups mapping held after) : Gathers mapping held after := by
  have hsources : ∀ name, sourcesOf mapping name ≠ [] ↔
      ∃ source, mapping.get? source = some name ∧ source ≠ name := by
    intro name
    constructor
    · intro hne
      obtain ⟨source, hsource⟩ := List.exists_mem_of_ne_nil _ hne
      exact ⟨source, mem_sourcesOf.mp hsource⟩
    · rintro ⟨source, hsource⟩
      exact List.ne_nil_of_mem (mem_sourcesOf.mpr hsource)
  constructor
  · intro name
    rw [← hsources, NameMap.mem_def, h.get?_eq]
    split
    case isTrue hthere => exact iff_of_true rfl hthere
    case isFalse hthere => exact iff_of_false (by simp) hthere
  · intro name hname
    have hget := h.get?_eq name
    rw [NameMap.mem_def, hget] at hname
    split at hname
    case isTrue hthere => rw [hget, if_pos hthere]
    case isFalse => cases hname

end Regroups

/-- A plan for groups finds every group that it merges, its renaming steps are safe
over what the merges leave, and together they gather the weights. -/
theorem planGroups_gathers {tempPrefix : String} {plan : GroupPlan}
    (h : planGroups mapping held.domain tempPrefix = .ok plan) :
    Merge.AllFound plan.merges held ∧
      Step.AllSafe plan.renames (Merge.pourAll plan.merges held) ∧
      Gathers mapping held (Step.carryAll plan.renames (Merge.pourAll plan.merges held)) := by
  obtain ⟨hmerges, hpresent, hplan⟩ := planGroups_eq_ok h
  have hindependent : Merge.Independent (merges mapping) held :=
    independent_merges fun step hstep => NameMap.mem_domain.mp (hpresent step hstep)
  rw [hindependent.foldl_apply_domain] at hplan
  obtain ⟨hfeasible, hsafe, hmoves⟩ := plan_moves hplan
  rw [moving_unmerged] at hfeasible hmoves
  rw [hmerges]
  exact ⟨hindependent.allFound, hsafe, Regroups.gathers ⟨hindependent, hfeasible, hmoves⟩⟩

end Mannequin.Renaming
