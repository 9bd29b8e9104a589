import Mannequin.Proofs.Renaming.Simultaneous
import Mannequin.Proofs.Renaming.Temporary
import Mannequin.Renaming.Groups

/-!
# Plans execute their mapping

A plan that is made leads through the stages of the renaming that its mapping
asks for, and nothing of that renaming is left at the end. What is checked before
planning is what makes the renaming one that can be carried out.
-/

namespace Mannequin.Renaming

variable {β : Type}

/-! ### Entries that move -/

theorem get?_moving {mapping : NameMap String} {source target : String} :
    (moving mapping).get? source = some target ↔
      mapping.get? source = some target ∧ source ≠ target := by
  rw [moving, NameMap.get?_filter, Option.filter_eq_some_iff, decide_eq_true_eq]

theorem isMoving_iff {mapping : NameMap String} {name : String} :
    IsMoving mapping name ↔ name ∈ moving mapping := by
  rw [IsMoving, NameMap.mem_iff_exists, Option.any_eq_true]
  refine exists_congr fun target => ?_
  rw [get?_moving, decide_eq_true_eq, ne_comm]

theorem moving_moving (mapping : NameMap String) : moving (moving mapping) = moving mapping := by
  apply NameMap.ext_get?
  intro source
  apply Option.ext
  intro target
  rw [get?_moving, get?_moving, and_assoc, and_self]

/-- The names that are to become a name, in order. -/
def sourcesOf (mapping : NameMap String) (target : String) : List String :=
  ((moving mapping).entries.filter fun e => e.2 = target).map Prod.fst

theorem mem_sourcesOf {mapping : NameMap String} {source target : String} :
    source ∈ sourcesOf mapping target ↔ mapping.get? source = some target ∧ source ≠ target := by
  rw [sourcesOf, List.mem_map, ← get?_moving, ← NameMap.mem_entries_iff]
  constructor
  · rintro ⟨⟨name, goal⟩, hmem, rfl⟩
    obtain ⟨hentry, hgoal⟩ := List.mem_filter.mp hmem
    obtain rfl : goal = target := of_decide_eq_true hgoal
    exact hentry
  · intro hentry
    exact ⟨(source, target), List.mem_filter.mpr ⟨hentry, decide_eq_true rfl⟩, rfl⟩

theorem nodup_sourcesOf (mapping : NameMap String) (target : String) :
    (sourcesOf mapping target).Nodup :=
  (moving mapping).nodup_names.sublist (List.filter_sublist.map Prod.fst)

theorem sourcesOf_moving (mapping : NameMap String) (target : String) :
    sourcesOf (moving mapping) target = sourcesOf mapping target := by
  rw [sourcesOf, moving_moving, sourcesOf]

/-- Grouping a list of entries adds its sources to the groups that are there. -/
private theorem get?_foldl_group (l : List (String × String)) (groups : NameMap (List String))
    (target : String) :
    (l.foldl (fun groups e => groups.insert e.2 ((groups.get? e.2).getD [] ++ [e.1])) groups).get?
        target =
      if (l.filter fun e => e.2 = target) = [] then groups.get? target
      else some ((groups.get? target).getD [] ++
        (l.filter fun e => e.2 = target).map Prod.fst) := by
  induction l generalizing groups with
  | nil => rfl
  | cons head rest ih =>
      obtain ⟨source, goal⟩ := head
      rw [List.foldl_cons, ih, NameMap.get?_insert]
      by_cases h : goal = target
      · subst h
        by_cases hrest : (rest.filter fun e => e.2 = goal) = []
        · simp [hrest]
        · simp [hrest]
      · rw [List.filter_cons_of_neg (by simpa using h), if_neg (Ne.symm h)]

theorem get?_sourcesByTarget (mapping : NameMap String) (target : String) :
    (sourcesByTarget mapping).get? target =
      if sourcesOf mapping target = [] then none else some (sourcesOf mapping target) := by
  rw [sourcesByTarget, get?_foldl_group]
  by_cases h : ((moving mapping).entries.filter fun e => e.2 = target) = []
  · rw [if_pos h, if_pos (by rw [sourcesOf, h, List.map_nil]), NameMap.get?_empty]
  · have hsources : sourcesOf mapping target ≠ [] := by simpa [sourcesOf] using h
    rw [if_neg h, if_neg hsources, NameMap.get?_empty, Option.getD_none, List.nil_append,
      sourcesOf]

/-! ### What is checked before planning -/

theorem mem_missingSources {pending : NameMap String} {existing : NameSet} {source : String} :
    source ∈ missingSources pending existing ↔ source ∈ pending ∧ source ∉ existing := by
  simp [missingSources]

theorem mem_sharedTargets {pending : NameMap String} {target : String} :
    target ∈ sharedTargets pending ↔ 1 < (sourcesOf pending target).length := by
  rw [sharedTargets, NameMap.mem_names, NameMap.mem_def, NameMap.get?_filter,
    get?_sourcesByTarget]
  by_cases h : sourcesOf pending target = []
  · simp [h]
  · simp [h, Option.filter]

theorem mem_takenTargets {pending : NameMap String} {existing : NameSet} {target : String} :
    target ∈ takenTargets pending existing ↔
      (∃ source, pending.get? source = some target) ∧ target ∈ existing ∧ target ∉ pending := by
  rw [takenTargets, List.mem_filter, List.mem_map, decide_eq_true_eq]
  refine and_congr_left fun _ => ⟨?_, ?_⟩
  · rintro ⟨⟨source, goal⟩, hmem, rfl⟩
    exact ⟨source, NameMap.mem_entries_iff.mp hmem⟩
  · rintro ⟨source, hsource⟩
    exact ⟨(source, target), NameMap.mem_entries_iff.mpr hsource, rfl⟩

/-- Two names of a list without repetitions make it longer than one. -/
private theorem one_lt_length {l : List String} {a b : String} (ha : a ∈ l) (hb : b ∈ l)
    (hne : a ≠ b) : 1 < l.length := by
  match l with
  | [c] => exact absurd ((List.mem_singleton.mp ha).trans (List.mem_singleton.mp hb).symm) hne
  | c :: d :: rest => simp

/-- A renaming that passes the checks can be carried out. -/
theorem feasible_of_checks {mapping : NameMap String} {held : NameMap β}
    (hmissing : missingSources (moving mapping) held.domain = [])
    (hshared : sharedTargets (moving mapping) = [])
    (htaken : takenTargets (moving mapping) held.domain = []) :
    Feasible (moving mapping) held := by
  constructor
  · intro source hsource
    by_contra habsent
    have hmem : source ∈ missingSources (moving mapping) held.domain :=
      mem_missingSources.mpr ⟨hsource, fun h => habsent (NameMap.mem_domain.mp h)⟩
    rw [hmissing] at hmem
    cases hmem
  · intro first second target hfirst hsecond
    by_contra hne
    have hmem : target ∈ sharedTargets (moving mapping) := by
      rw [mem_sharedTargets, sourcesOf_moving]
      exact one_lt_length (mem_sourcesOf.mpr (get?_moving.mp hfirst))
        (mem_sourcesOf.mpr (get?_moving.mp hsecond)) hne
    rw [hshared] at hmem
    cases hmem
  · intro source target hsource htarget
    by_contra hstays
    have hmem : target ∈ takenTargets (moving mapping) held.domain :=
      mem_takenTargets.mpr ⟨⟨source, hsource⟩, NameMap.mem_domain.mpr htarget, hstays⟩
    rw [htaken] at hmem
    cases hmem

/-! ### Moving entries aside -/

/-- The invariant while entries are moved aside: the stage has the entries that
were admitted and those that are still to come, and every name that is there or
that somebody is to get is taken. -/
structure Aside.Tracks (aside : Aside) (rest : List (String × String)) (stage : Stage β) :
    Prop where
  feasible : stage.IsFeasible
  entries : ∀ {source target}, stage.remaining.get? source = some target ↔
    aside.remaining.get? source = some target ∨ (source, target) ∈ rest
  distinct : (rest.map Prod.fst).Nodup
  apart : ∀ e ∈ rest, e.1 ∉ aside.remaining
  heldTaken : ∀ {name}, name ∈ stage.held → name ∈ aside.taken
  targetTaken : ∀ {source target}, stage.remaining.get? source = some target →
    target ∈ aside.taken

namespace Aside.Tracks

variable {aside : Aside} {rest : List (String × String)} {stage : Stage β}
  {source target temporary : String}

/-- An entry that stays where it is. -/
theorem keep (h : aside.Tracks ((source, target) :: rest) stage) :
    Aside.Tracks { aside with remaining := aside.remaining.insertNew source target } rest
      stage := by
  have hnew : source ∉ aside.remaining := h.apart _ List.mem_cons_self
  have hdistinct := List.nodup_cons.mp h.distinct
  have hne : ∀ e ∈ rest, e.1 ≠ source := fun e he heq =>
    hdistinct.1 (List.mem_map.mpr ⟨e, he, heq⟩)
  rw [NameMap.insertNew_of_not_mem hnew]
  refine ⟨h.feasible, ?_, hdistinct.2, ?_, h.heldTaken, h.targetTaken⟩
  · intro other goal
    rw [h.entries, NameMap.get?_insert, List.mem_cons, Prod.mk.injEq]
    by_cases heq : other = source
    · subst heq
      have habsent := NameMap.not_mem_iff.mp hnew
      simp [habsent, eq_comm]
    · simp [heq]
  · intro e he
    rw [NameMap.mem_insert, not_or]
    exact ⟨hne e he, h.apart e (List.mem_cons_of_mem _ he)⟩

/-- An entry that moves aside to a name that is not taken. -/
theorem park (h : aside.Tracks ((source, target) :: rest) stage)
    (hfree : temporary ∉ aside.taken) :
    Aside.Tracks
      { taken := NameSet.add aside.taken temporary
        steps := aside.steps ++ [⟨source, temporary⟩]
        remaining := aside.remaining.insertNew temporary target }
      rest (stage.park source temporary target) := by
  have entry : stage.remaining.get? source = some target :=
    h.entries.mpr (.inr List.mem_cons_self)
  have hfresh : temporary ∉ stage.held := fun hmem => hfree (h.heldTaken hmem)
  have hnobody : ∀ other, stage.remaining.get? other ≠ some temporary :=
    fun other hother => hfree (h.targetTaken hother)
  have hsource : source ∈ stage.held := Stage.source_mem h.feasible entry
  have hgone : source ∉ aside.remaining := h.apart _ List.mem_cons_self
  have hdistinct := List.nodup_cons.mp h.distinct
  have hne : ∀ e ∈ rest, e.1 ≠ source := fun e he heq =>
    hdistinct.1 (List.mem_map.mpr ⟨e, he, heq⟩)
  have hnt : ∀ e ∈ rest, e.1 ≠ temporary := fun e he heq =>
    hfresh (heq ▸ Stage.source_mem h.feasible (h.entries.mpr (.inr (List.mem_cons_of_mem _ he))))
  have hnew : temporary ∉ aside.remaining := by
    intro hmem
    obtain ⟨goal, hgoal⟩ := NameMap.mem_iff_exists.mp hmem
    exact hfresh (Stage.source_mem h.feasible (h.entries.mpr (.inl hgoal)))
  rw [NameMap.insertNew_of_not_mem hnew]
  refine ⟨Stage.park_feasible h.feasible entry hfresh hnobody, ?_, hdistinct.2, ?_, ?_, ?_⟩
  · intro other goal
    simp only [Stage.park, NameMap.get?_insert, NameMap.get?_erase]
    by_cases htemporary : other = temporary
    · subst htemporary
      have hnone : (other, goal) ∉ rest := fun hmem => hnt _ hmem rfl
      simp [hnone]
    · by_cases heq : other = source
      · subst heq
        have hnone : (other, goal) ∉ rest := fun hmem => hne _ hmem rfl
        simp [htemporary, hnone, NameMap.not_mem_iff.mp hgone]
      · simp only [htemporary, heq, if_false]
        rw [h.entries, List.mem_cons, Prod.mk.injEq]
        simp [heq]
  · intro e he
    rw [NameMap.mem_insert, not_or]
    exact ⟨hnt e he, h.apart e (List.mem_cons_of_mem _ he)⟩
  · intro name hname
    rw [NameSet.mem_add]
    exact ((Step.mem_carry hsource).mp hname).imp_right fun hmem => h.heldTaken hmem.2
  · intro other goal hgoal
    rw [NameSet.mem_add]
    simp only [Stage.park, NameMap.get?_insert, NameMap.get?_erase] at hgoal
    split at hgoal
    · cases hgoal
      exact .inr (h.targetTaken entry)
    · rw [Option.ite_none_left_eq_some] at hgoal
      exact .inr (h.targetTaken hgoal.2)

/-- Once every entry is admitted, those that remain are the entries of the stage. -/
theorem remaining_eq (h : aside.Tracks [] stage) : stage.remaining = aside.remaining := by
  apply NameMap.ext_get?
  intro source
  apply Option.ext
  intro target
  rw [h.entries]
  simp

end Aside.Tracks

/-- Admitting entries one after the other leads through stages of the renaming. -/
theorem execution_admit (tempPrefix : String) (pending : NameMap String)
    {rest : List (String × String)} {aside : Aside} {stage : Stage β}
    (h : aside.Tracks rest stage) :
    ∃ steps last,
      (rest.foldl (fun aside e => aside.admit tempPrefix pending e.1 e.2) aside).steps =
        aside.steps ++ steps ∧
      Execution steps stage last ∧
      (rest.foldl (fun aside e => aside.admit tempPrefix pending e.1 e.2) aside).Tracks []
        last := by
  induction rest generalizing aside stage with
  | nil => exact ⟨[], stage, (List.append_nil _).symm, .done stage, h⟩
  | cons head rest ih =>
      obtain ⟨source, target⟩ := head
      rw [List.foldl_cons, Aside.admit]
      split
      · have hfree := temporaryName_not_mem tempPrefix source aside.taken
        have entry : stage.remaining.get? source = some target :=
          h.entries.mpr (.inr List.mem_cons_self)
        obtain ⟨steps, last, hsteps, hexecution, htracks⟩ := ih (h.park hfree)
        refine ⟨_ :: steps, last, ?_, .park entry ?_ ?_ hexecution, htracks⟩
        · rw [hsteps, List.append_assoc, List.singleton_append]
        · exact fun hmem => hfree (h.heldTaken hmem)
        · exact fun other hother => hfree (h.targetTaken hother)
      · exact ih h.keep

/-- Setting entries aside leads from the whole renaming to what is left of it. -/
theorem execution_setAside (tempPrefix : String) {pending : NameMap String} {held : NameMap β}
    (h : Feasible pending held) :
    ∃ last, Execution (setAside tempPrefix pending held.domain).steps ⟨pending, held⟩
      ⟨(setAside tempPrefix pending held.domain).remaining, last⟩ := by
  let targets := (pending.entries.map Prod.snd).foldl NameSet.add held.domain
  have hstart : Aside.Tracks ⟨targets, [], ∅⟩ pending.entries ⟨pending, held⟩ := by
    refine ⟨h, ?_, pending.nodup_names, ?_, ?_, ?_⟩
    · intro source target
      rw [NameMap.mem_entries_iff]
      simp
    · intro e _
      exact NameMap.not_mem_empty e.1
    · intro name hname
      exact NameSet.mem_foldl_add.mpr (.inr (NameMap.mem_domain.mpr hname))
    · intro source target hentry
      refine NameSet.mem_foldl_add.mpr (.inl (List.mem_map.mpr ⟨(source, target), ?_, rfl⟩))
      exact NameMap.mem_entries_iff.mpr hentry
  obtain ⟨steps, ⟨remaining, last⟩, hsteps, hexecution, htracks⟩ :=
    execution_admit tempPrefix pending hstart
  have hremaining : remaining = (setAside tempPrefix pending held.domain).remaining :=
    htracks.remaining_eq
  refine ⟨last, ?_⟩
  rw [setAside, hsteps, List.nil_append]
  exact hremaining ▸ hexecution

/-! ### Passes over what remains -/

/-- A pass carries out entries of the renaming that remains. -/
theorem execution_pass {l : List (String × String)} {remaining : NameMap String}
    (hl : ∀ e ∈ l, remaining.get? e.1 = some e.2) (hdistinct : (l.map Prod.fst).Nodup)
    (held : NameMap β) :
    ∃ last, Execution (pass l remaining).1 ⟨remaining, held⟩ ⟨(pass l remaining).2, last⟩ := by
  induction l generalizing remaining held with
  | nil => exact ⟨held, .done _⟩
  | cons head rest ih =>
      obtain ⟨source, target⟩ := head
      have hrest := List.nodup_cons.mp hdistinct
      rw [pass]
      split
      · exact ih (fun e he => hl e (List.mem_cons_of_mem _ he)) hrest.2 held
      · rename_i hopen
        have hleft : ∀ e ∈ rest, (remaining.erase source).get? e.1 = some e.2 := by
          intro e he
          have hne : e.1 ≠ source := fun heq => hrest.1 (List.mem_map.mpr ⟨e, he, heq⟩)
          rw [NameMap.get?_erase, if_neg hne]
          exact hl e (List.mem_cons_of_mem _ he)
        obtain ⟨last, hexecution⟩ := ih hleft hrest.2 (Step.carry ⟨source, target⟩ held)
        exact ⟨last, .finish (hl _ List.mem_cons_self) hopen hexecution⟩

/-- Passes that come to an end carry out all of the renaming that remains. -/
theorem execution_settle {remaining : NameMap String} {steps : List Step}
    (h : settle remaining = .ok steps) (held : NameMap β) :
    ∃ last, Execution steps ⟨remaining, held⟩ ⟨∅, last⟩ := by
  induction remaining using settle.induct generalizing steps held with
  | case1 remaining hempty =>
      rw [settle, if_pos hempty] at h
      cases h
      rw [NameMap.isEmpty_iff.mp hempty]
      exact ⟨held, .done _⟩
  | case2 remaining hempty first left hpass hlt ih =>
      rw [settle, if_neg hempty] at h
      simp only [hpass, hlt, if_true] at h
      cases hleft : settle left with
      | error fault =>
          rw [hleft] at h
          cases h
      | ok more =>
          rw [hleft] at h
          cases h
          have hentries : ∀ e ∈ remaining.entries, remaining.get? e.1 = some e.2 :=
            fun e he => NameMap.mem_entries_iff.mp he
          obtain ⟨middle, hfirst⟩ := execution_pass hentries remaining.nodup_names held
          rw [hpass] at hfirst
          obtain ⟨last, hmore⟩ := ih hleft middle
          exact ⟨last, hfirst.append hmore⟩
  | case3 remaining hempty first left hpass hge =>
      rw [settle, if_neg hempty] at h
      simp only [hpass, hge, if_false] at h
      cases h

/-! ### The plan -/

/-- What a plan that is made has passed, and how it is put together. -/
theorem plan_eq_ok {mapping : NameMap String} {existing : NameSet} {tempPrefix : String}
    {steps : List Step} (h : plan mapping existing tempPrefix = .ok steps) :
    missingSources (moving mapping) existing = [] ∧ sharedTargets (moving mapping) = [] ∧
      takenTargets (moving mapping) existing = [] ∧
      ∃ more, settle (setAside tempPrefix (moving mapping) existing).remaining = .ok more ∧
        steps = (setAside tempPrefix (moving mapping) existing).steps ++ more := by
  simp only [plan] at h
  split at h
  · cases h
  · rename_i hmissing
    split at h
    · cases h
    · rename_i hshared
      split at h
      · cases h
      · rename_i htaken
        refine ⟨not_not.mp hmissing, not_not.mp hshared, not_not.mp htaken, ?_⟩
        cases hsettle : settle (setAside tempPrefix (moving mapping) existing).remaining with
        | error fault =>
            rw [hsettle] at h
            cases h
        | ok more =>
            rw [hsettle] at h
            cases h
            exact ⟨more, rfl, rfl⟩

/-- A plan executes its mapping, and nothing of it is left at the end. -/
theorem execution_plan {mapping : NameMap String} {tempPrefix : String} {held : NameMap β}
    {steps : List Step} (h : plan mapping held.domain tempPrefix = .ok steps) :
    Feasible (moving mapping) held ∧
      ∃ last, Execution steps ⟨moving mapping, held⟩ ⟨∅, last⟩ := by
  obtain ⟨hmissing, hshared, htaken, more, hmore, rfl⟩ := plan_eq_ok h
  have hfeasible : Feasible (moving mapping) held := feasible_of_checks hmissing hshared htaken
  obtain ⟨middle, haside⟩ := execution_setAside tempPrefix hfeasible
  obtain ⟨last, hsettle⟩ := execution_settle hmore middle
  exact ⟨hfeasible, last, haside.append hsettle⟩

/-- A plan is safe and does to the names what its mapping says. -/
theorem plan_moves {mapping : NameMap String} {tempPrefix : String} {held : NameMap β}
    {steps : List Step} (h : plan mapping held.domain tempPrefix = .ok steps) :
    Feasible (moving mapping) held ∧ Step.AllSafe steps held ∧
      Moves (moving mapping) held (Step.carryAll steps held) := by
  obtain ⟨hfeasible, last, hexecution⟩ := execution_plan h
  refine ⟨hfeasible, (hexecution.safe hfeasible).1, ?_⟩
  have hlast := hexecution.held
  exact hexecution.moves hfeasible (hlast ▸ Moves.of_empty last)

end Mannequin.Renaming
