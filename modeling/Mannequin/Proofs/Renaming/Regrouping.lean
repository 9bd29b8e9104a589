import Mannequin.Proofs.Renaming.Grouping
import Mannequin.Proofs.Renaming.Replay
import Mannequin.Proofs.Renaming.Verdict

/-!
# When groups can be planned

The sources of a shared target are merged into it, and all else is renamed over the names
that the merges leave. These names differ from those that exist at first: merged sources
are gone, and the targets they are merged into are there. Nevertheless whether there is a
plan can be said of the names that exist at first, because a name that merges take away or
bring in never stands in the way of a renaming that could be planned without them.
-/

namespace Mannequin.Renaming

variable {mapping : NameMap String} {existing : NameSet} {tempPrefix source target name : String}

/-! ### What is merged and what is left -/

theorem isMoving_iff_movesTo : IsMoving mapping name ↔ ∃ goal, MovesTo mapping name goal := by
  rw [isMoving_iff, mem_moving]

/-- Sources are merged into a shared target that does not move itself. -/
theorem merges_iff :
    Merges mapping target ↔ Shared mapping target ∧ ∀ goal, ¬ MovesTo mapping target goal := by
  rw [Merges, IsMerged, one_lt_length_sourcesOf, isMoving_iff_movesTo, not_exists]

theorem mem_merges_iff :
    ⟨source, target⟩ ∈ merges mapping ↔ MovesTo mapping source target ∧ Merges mapping target := by
  rw [mem_merges, mem_sourcesOf, MovesTo]

theorem movesTo_unmerged :
    MovesTo (unmerged mapping) source target ↔
      MovesTo mapping source target ∧ ¬ Merges mapping target := by
  rw [MovesTo, get?_unmerged, mem_sourcesOf, MovesTo]
  tauto

theorem MovesTo.eq {goal : String} (h : MovesTo mapping source target)
    (h' : MovesTo mapping source goal) : target = goal :=
  Option.some.inj (h.1.symm.trans h'.1)

/-- The names after the merges: the targets of merges are there, their sources are gone. -/
theorem mem_merged (hpresent : ∀ step ∈ merges mapping, step.source ∈ existing) :
    name ∈ (merges mapping).foldl Merge.apply existing ↔
      Merges mapping name ∨
        name ∈ existing ∧ ∀ target, MovesTo mapping name target → ¬ Merges mapping target := by
  -- weights play no part here, so every name may hold nothing
  have hindependent : Merge.Independent (merges mapping) (existing.holding fun _ => (0 : ℕ)) :=
    independent_merges fun step hstep => (existing.mem_holding _).mpr (hpresent step hstep)
  have hfold := hindependent.foldl_apply_domain
  rw [existing.domain_holding] at hfold
  rw [hfold, NameMap.mem_domain, hindependent.mem_pourAll, existing.mem_holding]
  refine or_congr ⟨?_, fun hmerges => ?_⟩ (and_congr_right fun _ => ⟨?_, ?_⟩)
  · rintro ⟨step, hstep, rfl⟩
    exact (mem_merges.mp hstep).2
  · obtain ⟨first, _, hfirst, -⟩ := (merges_iff.mp hmerges).1
    exact ⟨⟨first, name⟩, mem_merges_iff.mpr ⟨hfirst, hmerges⟩, rfl⟩
  · intro hkept target hmoves hmerges
    exact hkept ⟨name, target⟩ (mem_merges_iff.mpr ⟨hmoves, hmerges⟩) rfl
  · rintro hstays step hstep rfl
    obtain ⟨hmoves, hmerges⟩ := mem_merges_iff.mp hstep
    exact hstays step.target hmoves hmerges

/-! ### The verdict -/

/-- There is a plan exactly when all names to merge exist and nothing is in the way of
renaming the rest over what the merges leave. -/
theorem exists_planGroups_iff :
    (∃ plan, planGroups mapping existing tempPrefix = .ok plan) ↔
      (∀ step ∈ merges mapping, step.source ∈ existing) ∧
        Clear (unmerged mapping) ((merges mapping).foldl Merge.apply existing) := by
  constructor
  · rintro ⟨plan, hplan⟩
    obtain ⟨-, hpresent, hrenames⟩ := planGroups_eq_ok hplan
    exact ⟨hpresent, .of_plan hrenames⟩
  · rintro ⟨hpresent, hclear⟩
    obtain ⟨renames, hrenames⟩ := hclear.exists_plan tempPrefix
    have hfind : ((merges mapping).find? fun step => step.source ∉ existing) = none :=
      List.find?_eq_none.mpr fun step hstep => by simpa using hpresent step hstep
    refine ⟨⟨merges mapping, renames⟩, ?_⟩
    simp only [planGroups, hfind, hrenames]
    rfl

/-- A mapping of groups with nothing in its way. -/
structure Groupable (mapping : NameMap String) (existing : NameSet) : Prop where
  /-- Every name that moves exists. -/
  present : ∀ source target, MovesTo mapping source target → source ∈ existing
  /-- A name that several names move to stays. -/
  settled : ∀ target, Shared mapping target → ∀ goal, ¬ MovesTo mapping target goal
  /-- A name that one name moves to does not exist or makes way. -/
  free : ∀ source target, MovesTo mapping source target → ¬ Shared mapping target →
    target ∈ existing → ∃ goal, MovesTo mapping target goal

/-- Names that are merged exist, and what is left can be renamed. -/
theorem Groupable.clear (h : Groupable mapping existing) :
    (∀ step ∈ merges mapping, step.source ∈ existing) ∧
      Clear (unmerged mapping) ((merges mapping).foldl Merge.apply existing) := by
  have hpresent : ∀ step ∈ merges mapping, step.source ∈ existing := fun step hstep =>
    h.present step.source step.target (mem_merges_iff.mp hstep).1
  have hshared : ∀ target, ¬ Merges mapping target → ¬ Shared mapping target :=
    fun target hmerges hshared => hmerges (merges_iff.mpr ⟨hshared, h.settled target hshared⟩)
  refine ⟨hpresent, clear_iff.mpr ⟨?_, ?_, ?_⟩⟩
  · intro source target hmoves
    obtain ⟨hmoves, hmerges⟩ := movesTo_unmerged.mp hmoves
    refine (mem_merged hpresent).mpr (.inr ⟨h.present source target hmoves, ?_⟩)
    intro goal hgoal
    exact hmoves.eq hgoal ▸ hmerges
  · intro first second target hfirst hsecond
    obtain ⟨hfirst, hmerges⟩ := movesTo_unmerged.mp hfirst
    obtain ⟨hsecond, -⟩ := movesTo_unmerged.mp hsecond
    by_contra hne
    exact hshared target hmerges ⟨first, second, hfirst, hsecond, hne⟩
  · intro source target hmoves hleft
    obtain ⟨hmoves, hmerges⟩ := movesTo_unmerged.mp hmoves
    rcases (mem_merged hpresent).mp hleft with hmerged | ⟨hexists, hstays⟩
    · exact absurd hmerged hmerges
    · obtain ⟨goal, hgoal⟩ := h.free source target hmoves (hshared target hmerges) hexists
      exact ⟨goal, movesTo_unmerged.mpr ⟨hgoal, hstays goal hgoal⟩⟩

/-- What can be planned over the names that merges leave has nothing in its way at first. -/
theorem Groupable.of_clear (hpresent : ∀ step ∈ merges mapping, step.source ∈ existing)
    (hclear : Clear (unmerged mapping) ((merges mapping).foldl Merge.apply existing)) :
    Groupable mapping existing := by
  obtain ⟨hleft, hsingle, hfree⟩ := clear_iff.mp hclear
  have hunmerged : ∀ {target goal}, MovesTo mapping target goal → ¬ Merges mapping target :=
    fun hmoves hmerges => (merges_iff.mp hmerges).2 _ hmoves
  refine ⟨?_, ?_, ?_⟩
  · intro source target hmoves
    by_cases hmerges : Merges mapping target
    · exact hpresent ⟨source, target⟩ (mem_merges_iff.mpr ⟨hmoves, hmerges⟩)
    · have hthere := hleft source target (movesTo_unmerged.mpr ⟨hmoves, hmerges⟩)
      rcases (mem_merged hpresent).mp hthere with hmerged | ⟨hexists, -⟩
      · exact absurd hmerged (hunmerged hmoves)
      · exact hexists
  · rintro target ⟨first, second, hfirst, hsecond, hne⟩ goal hgoal
    refine hne (hsingle first second target ?_ ?_)
    · exact movesTo_unmerged.mpr ⟨hfirst, hunmerged hgoal⟩
    · exact movesTo_unmerged.mpr ⟨hsecond, hunmerged hgoal⟩
  · intro source target hmoves hshared hexists
    by_contra hstays
    have hmerges : ¬ Merges mapping target := fun hmerges => hshared (merges_iff.mp hmerges).1
    have hthere : target ∈ (merges mapping).foldl Merge.apply existing :=
      (mem_merged hpresent).mpr (.inr ⟨hexists, fun goal hgoal => absurd ⟨goal, hgoal⟩ hstays⟩)
    obtain ⟨goal, hgoal⟩ := hfree source target (movesTo_unmerged.mpr ⟨hmoves, hmerges⟩) hthere
    exact hstays ⟨goal, (movesTo_unmerged.mp hgoal).1⟩

/-- Groups can be planned exactly when the names that move exist, no name that several
names move to moves itself, and every other name that is moved to does not exist or moves
itself. The merges of a plan are the entries whose target is shared, each of them once. -/
theorem planGroups_verdict (mapping : NameMap String) (existing : NameSet) (tempPrefix : String) :
    ((∃ plan, planGroups mapping existing tempPrefix = .ok plan) ↔
      (∀ source target, MovesTo mapping source target → source ∈ existing) ∧
        (∀ target, Shared mapping target → ∀ goal, ¬ MovesTo mapping target goal) ∧
        ∀ source target, MovesTo mapping source target → ¬ Shared mapping target →
          target ∈ existing → ∃ goal, MovesTo mapping target goal) ∧
      ∀ plan, planGroups mapping existing tempPrefix = .ok plan →
        plan.merges.Nodup ∧ ∀ source target, ⟨source, target⟩ ∈ plan.merges ↔
          MovesTo mapping source target ∧ Shared mapping target := by
  have hverdict : (∃ plan, planGroups mapping existing tempPrefix = .ok plan) ↔
      Groupable mapping existing :=
    exists_planGroups_iff.trans ⟨fun ⟨hpresent, hclear⟩ => .of_clear hpresent hclear,
      fun h => h.clear⟩
  refine ⟨hverdict.trans ⟨fun h => ⟨h.present, h.settled, h.free⟩,
    fun ⟨hpresent, hsettled, hfree⟩ => ⟨hpresent, hsettled, hfree⟩⟩, fun plan hplan => ?_⟩
  have hgroupable := hverdict.mp ⟨plan, hplan⟩
  rw [(planGroups_eq_ok hplan).1]
  refine ⟨.of_map _ (nodup_merges_source mapping), fun source target => ?_⟩
  rw [mem_merges_iff, merges_iff]
  exact and_congr_right fun _ => and_iff_left_of_imp (hgroupable.settled target)

end Mannequin.Renaming
