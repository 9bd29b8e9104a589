import Mannequin.Proofs.NameMap
import Mannequin.Renaming

/-!
# Simultaneous renaming, one step at a time

The entries of a renaming take effect at once: what the old names held before is
held by the new names afterwards. Safe steps reach the same end in order. At each
stage a renaming is left over, and a step either carries out one of its entries
or moves one aside to a name that is not in use.

The invariant of a stage is that the renaming left over can still be carried out.
A step keeps it, and what the rest of the renaming will do to the names as they
are then is what the whole of it does to the names as they were before.
-/

namespace Mannequin.Renaming

variable {β : Type}

namespace Step

/-- What the names hold after a step: the new name holds what the old one held. -/
def carry (step : Step) (held : NameMap β) : NameMap β :=
  match held.get? step.source with
  | some content => (held.erase step.source).insert step.target content
  | none => held

/-- What the names hold after a list of steps. -/
def carryAll (steps : List Step) (held : NameMap β) : NameMap β :=
  steps.foldl (fun held step => step.carry held) held

/-- The old name is there and the new one is not. -/
structure IsSafe (step : Step) (held : NameMap β) : Prop where
  present : step.source ∈ held
  free : step.target ∉ held

/-- Every step is safe when its turn comes. -/
def AllSafe : List Step → NameMap β → Prop
  | [], _ => True
  | step :: rest, held => step.IsSafe held ∧ AllSafe rest (step.carry held)

theorem get?_carry {step : Step} {held : NameMap β} (h : step.source ∈ held) (name : String) :
    (step.carry held).get? name =
      if name = step.target then held.get? step.source
      else if name = step.source then none
      else held.get? name := by
  obtain ⟨content, hcontent⟩ := NameMap.mem_iff_exists.mp h
  simp only [carry, hcontent, NameMap.get?_insert, NameMap.get?_erase]

theorem mem_carry {step : Step} {held : NameMap β} (h : step.source ∈ held) {name : String} :
    name ∈ step.carry held ↔ name = step.target ∨ name ≠ step.source ∧ name ∈ held := by
  rw [NameMap.mem_def, get?_carry h]
  by_cases htarget : name = step.target
  · simpa [htarget] using NameMap.mem_def.mp h
  · rw [if_neg htarget]
    by_cases hsource : name = step.source
    · rw [if_pos hsource]
      rw [hsource] at htarget
      simp [htarget, hsource]
    · rw [if_neg hsource]
      simp [htarget, hsource, NameMap.mem_def]

end Step

/-- All entries of a renaming take effect at once. A name that is given up and
not given to anybody is there no more, and the other names are as before. -/
structure Moves (mapping : NameMap String) (before after : NameMap β) : Prop where
  moved : ∀ source target, mapping.get? source = some target →
    after.get? target = before.get? source
  freed : ∀ {name}, name ∈ mapping → (∀ source, mapping.get? source ≠ some name) →
    after.get? name = none
  kept : ∀ {name}, name ∉ mapping → (∀ source, mapping.get? source ≠ some name) →
    after.get? name = before.get? name

/-- A renaming that can be carried out: its old names are there, its new names
differ, and one that is there already is given up. -/
structure Feasible (mapping : NameMap String) (held : NameMap β) : Prop where
  present : ∀ {source}, source ∈ mapping → source ∈ held
  injective : ∀ {source source' target}, mapping.get? source = some target →
    mapping.get? source' = some target → source = source'
  free : ∀ {source target}, mapping.get? source = some target → target ∈ held →
    target ∈ mapping

theorem Moves.of_empty (held : NameMap β) : Moves ∅ held held where
  moved _ _ h := by simp at h
  freed h := by simp at h
  kept _ _ := rfl

/-- A renaming under way: the entries that are left, by the names as they are
now, and what these names hold. -/
structure Stage (β : Type) where
  remaining : NameMap String
  held : NameMap β

namespace Stage

/-- Carry out an entry. -/
def finish (stage : Stage β) (source target : String) : Stage β :=
  { remaining := stage.remaining.erase source
    held := Step.carry ⟨source, target⟩ stage.held }

/-- Move an entry aside to a temporary name. -/
def park (stage : Stage β) (source temporary target : String) : Stage β :=
  { remaining := (stage.remaining.erase source).insert temporary target
    held := Step.carry ⟨source, temporary⟩ stage.held }

/-- The renaming that is left can be carried out. -/
def IsFeasible (stage : Stage β) : Prop := Feasible stage.remaining stage.held

variable {stage : Stage β} {source temporary target : String} {after : NameMap β}

theorem source_mem (hs : stage.IsFeasible) (entry : stage.remaining.get? source = some target) :
    source ∈ stage.held :=
  hs.present (NameMap.mem_of_get? entry)

/-! ### Carrying out an entry -/

theorem finish_safe (hs : stage.IsFeasible) (entry : stage.remaining.get? source = some target)
    (hopen : target ∉ stage.remaining) : Step.IsSafe ⟨source, target⟩ stage.held :=
  ⟨source_mem hs entry, fun htarget => hopen (hs.free entry htarget)⟩

theorem finish_feasible (hs : stage.IsFeasible)
    (entry : stage.remaining.get? source = some target) :
    (stage.finish source target).IsFeasible := by
  have hsource := source_mem hs entry
  constructor
  · intro other hother
    obtain ⟨hne, hmem⟩ := NameMap.mem_erase.mp hother
    exact (Step.mem_carry hsource).mpr (.inr ⟨hne, hs.present hmem⟩)
  · intro first second goal hfirst hsecond
    simp only [finish, NameMap.get?_erase, Option.ite_none_left_eq_some] at hfirst hsecond
    exact hs.injective hfirst.2 hsecond.2
  · intro other goal hgoal hheld
    simp only [finish, NameMap.get?_erase, Option.ite_none_left_eq_some] at hgoal
    rcases (Step.mem_carry hsource).mp hheld with heq | ⟨hne, hmem⟩
    · simp only at heq
      subst heq
      exact absurd (hs.injective hgoal.2 entry) hgoal.1
    · exact NameMap.mem_erase.mpr ⟨hne, hs.free hgoal.2 hmem⟩

theorem moves_of_finish (hs : stage.IsFeasible)
    (entry : stage.remaining.get? source = some target) (hopen : target ∉ stage.remaining)
    (h : Moves (stage.finish source target).remaining (stage.finish source target).held after) :
    Moves stage.remaining stage.held after := by
  have hsource := source_mem hs entry
  have hne : target ≠ source := fun heq => hopen (heq ▸ NameMap.mem_of_get? entry)
  -- no other entry has the same new name
  have hfree : ∀ other, (stage.finish source target).remaining.get? other ≠ some target := by
    intro other hother
    simp only [finish, NameMap.get?_erase, Option.ite_none_left_eq_some] at hother
    exact hother.1 (hs.injective hother.2 entry)
  have hleft : ∀ {name}, (∀ other, stage.remaining.get? other ≠ some name) →
      ∀ other, (stage.finish source target).remaining.get? other ≠ some name := by
    intro name hname other hother
    simp only [finish, NameMap.get?_erase, Option.ite_none_left_eq_some] at hother
    exact hname other hother.2
  constructor
  · intro other goal hgoal
    by_cases heq : other = source
    · subst heq
      cases entry.symm.trans hgoal
      have hkept := h.kept (fun hmem => hopen (NameMap.mem_erase.mp hmem).2) hfree
      rw [hkept, finish, Step.get?_carry hsource, if_pos rfl]
    · have hmoved := h.moved other goal (by
        simp only [finish, NameMap.get?_erase, if_neg heq, hgoal])
      have hother : other ≠ target := fun ht => hopen (ht ▸ NameMap.mem_of_get? hgoal)
      rw [hmoved, finish, Step.get?_carry hsource, if_neg hother, if_neg heq]
  · intro name hname hgoal
    by_cases heq : name = source
    · subst heq
      have hkept := h.kept (fun hmem => (NameMap.mem_erase.mp hmem).1 rfl) (hleft hgoal)
      rw [hkept, finish, Step.get?_carry hsource, if_neg (Ne.symm hne), if_pos rfl]
    · exact h.freed (NameMap.mem_erase.mpr ⟨heq, hname⟩) (hleft hgoal)
  · intro name hname hgoal
    have hns : name ≠ source := fun heq => hname (heq ▸ NameMap.mem_of_get? entry)
    have hnt : name ≠ target := fun heq => hgoal source (heq ▸ entry)
    have hkept := h.kept (fun hmem => hname (NameMap.mem_erase.mp hmem).2) (hleft hgoal)
    rw [hkept, finish, Step.get?_carry hsource, if_neg hnt, if_neg hns]

/-! ### Moving an entry aside -/

theorem park_safe (hs : stage.IsFeasible) (entry : stage.remaining.get? source = some target)
    (hfresh : temporary ∉ stage.held) : Step.IsSafe ⟨source, temporary⟩ stage.held :=
  ⟨source_mem hs entry, hfresh⟩

private theorem get?_park (other : String) :
    (stage.park source temporary target).remaining.get? other =
      if other = temporary then some target
      else if other = source then none
      else stage.remaining.get? other := by
  rw [park, NameMap.get?_insert, NameMap.get?_erase]

/-- The entries of a stage with an entry moved aside. -/
private theorem get?_park_eq_some {other goal : String}
    (h : (stage.park source temporary target).remaining.get? other = some goal) :
    other = temporary ∧ goal = target ∨
      other ≠ temporary ∧ other ≠ source ∧ stage.remaining.get? other = some goal := by
  rw [get?_park] at h
  split at h
  · rename_i heq
    exact .inl ⟨heq, (Option.some.inj h).symm⟩
  · rename_i hne
    rw [Option.ite_none_left_eq_some] at h
    exact .inr ⟨hne, h⟩

theorem park_feasible (hs : stage.IsFeasible)
    (entry : stage.remaining.get? source = some target) (hfresh : temporary ∉ stage.held)
    (hfree : ∀ other, stage.remaining.get? other ≠ some temporary) :
    (stage.park source temporary target).IsFeasible := by
  have hsource := source_mem hs entry
  constructor
  · intro other hother
    obtain ⟨goal, hgoal⟩ := NameMap.mem_iff_exists.mp hother
    rcases get?_park_eq_some hgoal with ⟨rfl, _⟩ | ⟨_, hne, hmem⟩
    · exact (Step.mem_carry hsource).mpr (.inl rfl)
    · exact (Step.mem_carry hsource).mpr (.inr ⟨hne, source_mem hs hmem⟩)
  · intro first second goal hfirst hsecond
    rcases get?_park_eq_some hfirst with ⟨rfl, rfl⟩ | ⟨_, hne, hmem⟩
    · rcases get?_park_eq_some hsecond with ⟨rfl, _⟩ | ⟨_, hne', hmem'⟩
      · rfl
      · exact absurd (hs.injective hmem' entry) hne'
    · rcases get?_park_eq_some hsecond with ⟨rfl, rfl⟩ | ⟨_, _, hmem'⟩
      · exact absurd (hs.injective hmem entry) hne
      · exact hs.injective hmem hmem'
  · intro other goal hgoal hheld
    have htarget : ∃ other, stage.remaining.get? other = some goal := by
      rcases get?_park_eq_some hgoal with ⟨_, rfl⟩ | ⟨_, _, hmem⟩
      · exact ⟨source, entry⟩
      · exact ⟨other, hmem⟩
    obtain ⟨origin, horigin⟩ := htarget
    have hne : goal ≠ temporary := fun heq => hfree origin (heq ▸ horigin)
    rcases (Step.mem_carry hsource).mp hheld with heq | ⟨hns, hmem⟩
    · exact absurd heq hne
    · exact NameMap.mem_insert.mpr (.inr (NameMap.mem_erase.mpr ⟨hns, hs.free horigin hmem⟩))

theorem moves_of_park (hs : stage.IsFeasible)
    (entry : stage.remaining.get? source = some target) (hfresh : temporary ∉ stage.held)
    (hfree : ∀ other, stage.remaining.get? other ≠ some temporary)
    (h : Moves (stage.park source temporary target).remaining
      (stage.park source temporary target).held after) :
    Moves stage.remaining stage.held after := by
  have hsource := source_mem hs entry
  have hns : source ≠ temporary := fun heq => hfresh (heq ▸ hsource)
  have hgoal_ne : ∀ {other goal}, stage.remaining.get? other = some goal → goal ≠ temporary :=
    fun hgoal heq => hfree _ (heq ▸ hgoal)
  -- the new names are the same before and after
  have hleft : ∀ {name}, (∀ other, stage.remaining.get? other ≠ some name) →
      ∀ other, (stage.park source temporary target).remaining.get? other ≠ some name := by
    intro name hname other hother
    rcases get?_park_eq_some hother with ⟨_, rfl⟩ | ⟨_, _, hmem⟩
    · exact hname source entry
    · exact hname other hmem
  constructor
  · intro other goal hgoal
    by_cases heq : other = source
    · subst heq
      cases entry.symm.trans hgoal
      have hmoved := h.moved temporary target (by
        rw [get?_park, if_pos rfl])
      rw [hmoved, park, Step.get?_carry hsource, if_pos rfl]
    · have hnt : other ≠ temporary := fun ht =>
        hfresh (ht ▸ source_mem hs hgoal)
      have hmoved := h.moved other goal (by
        rw [get?_park, if_neg hnt, if_neg heq, hgoal])
      rw [hmoved, park, Step.get?_carry hsource, if_neg hnt, if_neg heq]
  · intro name hname hgoal
    by_cases heq : name = source
    · subst heq
      have hgone : name ∉ (stage.park name temporary target).remaining := by
        rw [NameMap.not_mem_iff, get?_park, if_neg hns, if_pos rfl]
      rw [h.kept hgone (hleft hgoal), park, Step.get?_carry hsource, if_neg hns, if_pos rfl]
    · have hleft_mem : name ∈ (stage.park source temporary target).remaining :=
        NameMap.mem_insert.mpr (.inr (NameMap.mem_erase.mpr ⟨heq, hname⟩))
      exact h.freed hleft_mem (hleft hgoal)
  · intro name hname hgoal
    have hne : name ≠ source := fun heq => hname (heq ▸ NameMap.mem_of_get? entry)
    by_cases heq : name = temporary
    · subst heq
      have hmem : name ∈ (stage.park source name target).remaining :=
        NameMap.mem_insert.mpr (.inl rfl)
      rw [h.freed hmem (hleft hgoal), NameMap.not_mem_iff.mp hfresh]
    · have hnot : name ∉ (stage.park source temporary target).remaining := by
        rw [NameMap.not_mem_iff, get?_park, if_neg heq, if_neg hne]
        exact NameMap.not_mem_iff.mp hname
      rw [h.kept hnot (hleft hgoal), park, Step.get?_carry hsource, if_neg heq, if_neg hne]

end Stage

/-- The stages that a list of steps leads through. An entry is carried out once
no other entry waits for its new name; one is moved aside to a name that is not
there and that nobody is to get. -/
inductive Execution : List Step → Stage β → Stage β → Prop
  | done (stage : Stage β) : Execution [] stage stage
  | finish {source target : String} {steps : List Step} {stage last : Stage β}
      (entry : stage.remaining.get? source = some target) (unblocked : target ∉ stage.remaining)
      (rest : Execution steps (stage.finish source target) last) :
      Execution (⟨source, target⟩ :: steps) stage last
  | park {source temporary target : String} {steps : List Step} {stage last : Stage β}
      (entry : stage.remaining.get? source = some target) (fresh : temporary ∉ stage.held)
      (free : ∀ other, stage.remaining.get? other ≠ some temporary)
      (rest : Execution steps (stage.park source temporary target) last) :
      Execution (⟨source, temporary⟩ :: steps) stage last

namespace Execution

variable {steps more : List Step} {first middle last : Stage β}

theorem append (h : Execution steps first middle) (h' : Execution more middle last) :
    Execution (steps ++ more) first last := by
  induction h with
  | done => exact h'
  | finish entry unblocked _ ih => exact .finish entry unblocked (ih h')
  | park entry fresh free _ ih => exact .park entry fresh free (ih h')

theorem held (h : Execution steps first last) : last.held = Step.carryAll steps first.held := by
  induction h with
  | done => rfl
  | finish _ _ _ ih => exact ih
  | park _ _ _ _ ih => exact ih

/-- A renaming that can be carried out stays one, and every step on the way is safe. -/
theorem safe (h : Execution steps first last) (hs : first.IsFeasible) :
    Step.AllSafe steps first.held ∧ last.IsFeasible := by
  induction h with
  | done => exact ⟨trivial, hs⟩
  | finish entry unblocked _ ih =>
      obtain ⟨hsafe, hlast⟩ := ih (Stage.finish_feasible hs entry)
      exact ⟨⟨Stage.finish_safe hs entry unblocked, hsafe⟩, hlast⟩
  | park entry fresh free _ ih =>
      obtain ⟨hsafe, hlast⟩ := ih (Stage.park_feasible hs entry fresh free)
      exact ⟨⟨Stage.park_safe hs entry fresh, hsafe⟩, hlast⟩

/-- What the renaming left over does is what the whole renaming does. -/
theorem moves (h : Execution steps first last) (hs : first.IsFeasible) {after : NameMap β}
    (hm : Moves last.remaining last.held after) : Moves first.remaining first.held after := by
  induction h with
  | done => exact hm
  | finish entry unblocked _ ih =>
      exact Stage.moves_of_finish hs entry unblocked (ih (Stage.finish_feasible hs entry) hm)
  | park entry fresh free _ ih =>
      exact Stage.moves_of_park hs entry fresh free
        (ih (Stage.park_feasible hs entry fresh free) hm)

end Execution

end Mannequin.Renaming
