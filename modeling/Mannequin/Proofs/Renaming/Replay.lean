import Mannequin.Proofs.Renaming.Plan

/-!
# Replaying a plan

The steps of a plan that was made for a set of names are all safe when they are
replayed over it, and they carry what every name holds to where the mapping wants
it. Names that do not change keep what they hold, and no other name is left, so
no temporary name survives.
-/

namespace Mannequin

/-- A set of names, each with something that it holds. -/
def NameSet.holding {β : Type} (s : NameSet) (content : String → β) : NameMap β :=
  NameMap.map s fun name _ => content name

namespace NameSet

variable {β : Type} (s : NameSet) (content : String → β)

@[simp] theorem mem_holding {name : String} : name ∈ s.holding content ↔ name ∈ s :=
  NameMap.mem_map

@[simp] theorem domain_holding : (s.holding content).domain = s :=
  ext_mem fun _ => NameMap.mem_domain.trans (mem_holding s content)

theorem get?_holding {name : String} (h : name ∈ s) :
    (s.holding content).get? name = some (content name) := by
  obtain ⟨value, hvalue⟩ := NameMap.mem_iff_exists.mp h
  rw [holding, NameMap.get?_map, hvalue, Option.map_some]

end NameSet

namespace Renaming

variable {β : Type}

namespace Step

theorem apply_domain {step : Step} {held : NameMap β} (h : step.IsSafe held) :
    step.apply held.domain = .ok (step.carry held).domain := by
  have hpresent : step.source ∈ held.domain := NameMap.mem_domain.mpr h.present
  have hfree : step.target ∉ held.domain := fun hmem => h.free (NameMap.mem_domain.mp hmem)
  rw [apply, if_neg (not_not.mpr hpresent), if_neg hfree]
  congr 1
  apply NameSet.ext_mem
  intro name
  rw [NameSet.mem_add, NameMap.mem_erase, NameMap.mem_domain, NameMap.mem_domain,
    mem_carry h.present]

theorem replayFrom_domain {steps : List Step} {held : NameMap β} (h : AllSafe steps held)
    (index : Nat) :
    replayFrom index held.domain steps = ((carryAll steps held).domain, .ok ()) := by
  induction steps generalizing held index with
  | nil => rfl
  | cons step rest ih =>
      rw [replayFrom, apply_domain h.1]
      exact ih h.2 (index + 1)

/-- What the names of a set hold after a list of steps. -/
def contents (steps : List Step) (existing : NameSet) (content : String → β) : NameMap β :=
  carryAll steps (existing.holding content)

end Step

/-- Every step of a plan finds its old name present and its new name absent.
Afterwards the new names of the mapping hold what the old ones held, the names
that do not change hold what they did, and there are no others. -/
theorem replay_plan {mapping : NameMap String} {existing : NameSet} {tempPrefix : String}
    {steps : List Step} (h : plan mapping existing tempPrefix = .ok steps)
    (content : String → β) :
    Step.AllSafe steps (existing.holding content) ∧
      Step.replay steps existing = ((Step.contents steps existing content).domain, .ok ()) ∧
      (∀ source target, mapping.get? source = some target → source ≠ target →
        (Step.contents steps existing content).get? target = some (content source)) ∧
      (∀ name, name ∈ existing → ¬ IsMoving mapping name →
        (Step.contents steps existing content).get? name = some (content name)) ∧
      ∀ name, name ∈ Step.contents steps existing content →
        (∃ source, mapping.get? source = some name ∧ source ≠ name) ∨
          name ∈ existing ∧ ¬ IsMoving mapping name := by
  have hplan : plan mapping (existing.holding content).domain tempPrefix = .ok steps := by
    rwa [NameSet.domain_holding]
  obtain ⟨hfeasible, hsafe, hmoves⟩ := plan_moves hplan
  refine ⟨hsafe, ?_, ?_, ?_, ?_⟩
  · have hreplay := Step.replayFrom_domain hsafe 0
    rwa [NameSet.domain_holding] at hreplay
  · intro source target hentry hne
    have hmoving := get?_moving.mpr ⟨hentry, hne⟩
    have hsource := hfeasible.present (NameMap.mem_of_get? hmoving)
    rw [Step.contents, hmoves.moved _ _ hmoving,
      NameSet.get?_holding _ _ ((NameSet.mem_holding _ _).mp hsource)]
  · intro name hname hstays
    rw [isMoving_iff] at hstays
    have hnobody : ∀ source, (moving mapping).get? source ≠ some name := by
      intro source hsource
      exact hstays (hfeasible.free hsource ((NameSet.mem_holding _ _).mpr hname))
    rw [Step.contents, hmoves.kept hstays hnobody, NameSet.get?_holding _ _ hname]
  · intro name hname
    rw [isMoving_iff]
    by_cases hgiven : ∃ source, (moving mapping).get? source = some name
    · obtain ⟨source, hsource⟩ := hgiven
      exact .inl ⟨source, get?_moving.mp hsource⟩
    · rw [not_exists] at hgiven
      have hstays : name ∉ moving mapping := by
        intro hmoving
        exact NameMap.not_mem_iff.mpr (hmoves.freed hmoving hgiven) hname
      rw [Step.contents, NameMap.mem_def, hmoves.kept hstays hgiven] at hname
      exact .inr ⟨(NameSet.mem_holding _ _).mp hname, hstays⟩

/-- Two names trade places, a chain hangs beside them, and the first temporary
name to try is in use. -/
theorem replay_plan_crowded :
    ∃ steps,
      plan (.ofList [("A", "B"), ("B", "A"), ("D", "E"), ("E", "F"), ("Z", "Z")])
        (.ofNames ["A", "B", "D", "E", "Z", "t_A"]) "t_" = .ok steps ∧
      (Step.replay steps (.ofNames ["A", "B", "D", "E", "Z", "t_A"])).2 = .ok () ∧
      (Step.contents steps (.ofNames ["A", "B", "D", "E", "Z", "t_A"]) id).get? "B" =
        some "A" := by
  have h : plan (.ofList [("A", "B"), ("B", "A"), ("D", "E"), ("E", "F"), ("Z", "Z")])
      (.ofNames ["A", "B", "D", "E", "Z", "t_A"]) "t_" =
      .ok [⟨"A", "t_A_1"⟩, ⟨"B", "t_B"⟩, ⟨"D", "t_D"⟩, ⟨"E", "F"⟩, ⟨"t_A_1", "B"⟩,
        ⟨"t_B", "A"⟩, ⟨"t_D", "E"⟩] := by
    decide +kernel
  obtain ⟨_, hreplay, hmoved, _⟩ := replay_plan h id
  exact ⟨_, h, congrArg Prod.snd hreplay, hmoved "A" "B" (by decide +kernel) (by decide)⟩

end Renaming

end Mannequin
