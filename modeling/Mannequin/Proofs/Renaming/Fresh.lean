import Mannequin.Proofs.Returns
import Mannequin.Proofs.Renaming.Verdict

/-!
# The temporary names of a plan

Entries whose new names are still to be renamed are handed temporary names one after the
other. Each of these is free among the names that exist, the new names and the temporary
names handed out before it, so they are apart from one another and from all other names of
the plan. That holds too where the plain temporary name of one source is a numbered one of
another, because a name is taken as soon as it is handed out.

New names are those of entries that change a name. The other entries ask for nothing and
are left out before any name is handed out.
-/

namespace Mannequin.Renaming

variable {mapping : NameMap String} {existing taken : NameSet} {tempPrefix name : String}

/-! ### Handing out names -/

/-- Temporary names for sources in turn. A name is taken once it is handed out. -/
def handOut (tempPrefix : String) : NameSet → List String → List String
  | _, [] => []
  | taken, source :: rest =>
    let temporary := temporaryName tempPrefix source taken
    temporary :: handOut tempPrefix (NameSet.add taken temporary) rest

theorem not_mem_of_mem_handOut {sources : List String}
    (h : name ∈ handOut tempPrefix taken sources) : name ∉ taken := by
  induction sources generalizing taken with
  | nil => cases h
  | cons source rest ih =>
      rcases List.mem_cons.mp h with rfl | hrest
      · exact temporaryName_not_mem tempPrefix source taken
      · exact fun hmem => ih hrest (NameSet.mem_add.mpr (.inr hmem))

theorem nodup_handOut (tempPrefix : String) (taken : NameSet) (sources : List String) :
    (handOut tempPrefix taken sources).Nodup := by
  induction sources generalizing taken with
  | nil => exact List.nodup_nil
  | cons source rest ih =>
      refine List.nodup_cons.mpr ⟨fun hagain => ?_, ih _⟩
      exact not_mem_of_mem_handOut hagain (NameSet.mem_add.mpr (.inl rfl))

/-! ### The temporary names of a mapping -/

/-- The names that move to a name that moves itself, in order. -/
def waiting (mapping : NameMap String) : List String :=
  ((moving mapping).filter fun _ target => target ∈ moving mapping).names

/-- The names that exist and the names that others move to. -/
def reserved (mapping : NameMap String) (existing : NameSet) : NameSet :=
  ((moving mapping).entries.map Prod.snd).foldl NameSet.add existing

/-- The temporary names that are handed out while a mapping is planned, in order. -/
def temporaries (mapping : NameMap String) (existing : NameSet) (tempPrefix : String) :
    List String :=
  handOut tempPrefix (reserved mapping existing) (waiting mapping)

theorem mem_waiting : name ∈ waiting mapping ↔
    ∃ target goal, MovesTo mapping name target ∧ MovesTo mapping target goal := by
  rw [waiting, NameMap.mem_names, NameMap.mem_iff_exists]
  refine exists_congr fun target => ?_
  rw [NameMap.get?_filter, Option.filter_eq_some_iff, decide_eq_true_eq, get?_moving, mem_moving,
    exists_and_left, MovesTo]

theorem mem_reserved :
    name ∈ reserved mapping existing ↔
      (∃ source, MovesTo mapping source name) ∨ name ∈ existing := by
  rw [reserved, NameSet.mem_foldl_add, List.mem_map]
  refine or_congr_left ⟨?_, ?_⟩
  · rintro ⟨⟨source, target⟩, hentry, rfl⟩
    exact ⟨source, get?_moving.mp (NameMap.mem_entries_iff.mp hentry)⟩
  · rintro ⟨source, hmoves⟩
    exact ⟨(source, name), NameMap.mem_entries_iff.mpr (get?_moving.mpr hmoves), rfl⟩

/-! ### The steps of a plan -/

/-- The steps of entries that are admitted one after the other: those whose new name is still
to be renamed are handed temporary names in turn. -/
theorem steps_admit (tempPrefix : String) (pending : NameMap String)
    (l : List (String × String)) (aside : Aside) :
    ∃ steps,
      (l.foldl (fun aside e => aside.admit tempPrefix pending e.1 e.2) aside).steps =
        aside.steps ++ steps ∧
      steps.map Step.source = (l.filter fun e => e.2 ∈ pending).map Prod.fst ∧
      steps.map Step.target =
        handOut tempPrefix aside.taken ((l.filter fun e => e.2 ∈ pending).map Prod.fst) := by
  induction l generalizing aside with
  | nil => exact ⟨[], (List.append_nil _).symm, rfl, rfl⟩
  | cons head rest ih =>
      obtain ⟨source, target⟩ := head
      obtain ⟨steps, hsteps, hsource, htarget⟩ :=
        ih <| aside.admit tempPrefix pending source target
      rw [List.foldl_cons, hsteps]
      unfold Aside.admit at htarget ⊢
      by_cases hwaits : target ∈ pending
      · rw [List.filter_cons_of_pos (by simpa using hwaits)]
        rw [if_pos hwaits] at htarget ⊢
        refine ⟨⟨source, temporaryName tempPrefix source aside.taken⟩ :: steps, ?_, ?_, ?_⟩
        · rw [List.append_assoc, List.singleton_append]
        · rw [List.map_cons, List.map_cons, hsource]
        · rw [List.map_cons, List.map_cons, handOut, htarget]
      · rw [List.filter_cons_of_neg (by simpa using hwaits)]
        rw [if_neg hwaits] at htarget ⊢
        exact ⟨steps, rfl, hsource, htarget⟩

theorem steps_setAside (mapping : NameMap String) (existing : NameSet) (tempPrefix : String) :
    (setAside tempPrefix (moving mapping) existing).steps.map Step.source = waiting mapping ∧
      (setAside tempPrefix (moving mapping) existing).steps.map Step.target =
        temporaries mapping existing tempPrefix := by
  obtain ⟨steps, hsteps, hsource, htarget⟩ :=
    steps_admit tempPrefix (moving mapping) (moving mapping).entries
      ⟨reserved mapping existing, [], ∅⟩
  have hall : (setAside tempPrefix (moving mapping) existing).steps = steps := hsteps
  rw [hall]
  exact ⟨hsource, htarget⟩

theorem mem_of_mem_pass {l : List (String × String)} {remaining : NameMap String} {step : Step}
    (h : step ∈ (pass l remaining).1) : (step.source, step.target) ∈ l := by
  induction l generalizing remaining with
  | nil => cases h
  | cons head rest ih =>
      obtain ⟨source, target⟩ := head
      rw [pass] at h
      split at h
      · exact List.mem_cons_of_mem _ (ih h)
      · rcases List.mem_cons.mp h with rfl | hrest
        · exact List.mem_cons_self
        · exact List.mem_cons_of_mem _ (ih hrest)

/-- A pass leaves entries that were there. -/
theorem get?_of_get?_pass {l : List (String × String)} {remaining : NameMap String}
    {source target : String} (h : (pass l remaining).2.get? source = some target) :
    remaining.get? source = some target := by
  induction l generalizing remaining with
  | nil => exact h
  | cons head rest ih =>
      rw [pass] at h
      split at h
      · exact ih h
      · have hleft := ih h
        rw [NameMap.get?_erase, Option.ite_none_left_eq_some] at hleft
        exact hleft.2

/-- Passes carry out entries that remain, and do nothing else. -/
theorem get?_of_mem_settle {remaining : NameMap String} {steps : List Step}
    (h : settle remaining = .ok steps) {step : Step} (hstep : step ∈ steps) :
    remaining.get? step.source = some step.target := by
  induction remaining using settle.induct generalizing steps with
  | case1 remaining hempty =>
      rw [settle, if_pos hempty] at h
      cases h
      cases hstep
  | case2 remaining hempty first left hpass hlt ih =>
      rw [settle, if_neg hempty] at h
      simp only [hpass, hlt, if_true] at h
      obtain ⟨more, hmore, rfl⟩ := map_eq_ok.mp h
      rcases List.mem_append.mp hstep with hfirst | hlater
      · have hmem : step ∈ (pass remaining.entries remaining).1 := by rwa [hpass]
        exact NameMap.mem_entries_iff.mp (mem_of_mem_pass hmem)
      · have hleft := ih hmore hlater
        apply get?_of_get?_pass
        rwa [hpass]
  | case3 remaining hempty first left hpass hge =>
      rw [settle, if_neg hempty] at h
      simp only [hpass, hge, if_false] at h
      cases h

/-- A plan first moves names that wait to temporary names. Its other steps bring in no names
but those that the mapping asks for. -/
theorem exists_steps_of_plan {steps : List Step}
    (h : plan mapping existing tempPrefix = .ok steps) :
    ∃ aside rest, steps = aside ++ rest ∧ aside.map Step.source = waiting mapping ∧
      aside.map Step.target = temporaries mapping existing tempPrefix ∧
      ∀ step ∈ rest, ∃ source, MovesTo mapping source step.target := by
  obtain ⟨-, -, -, rest, hrest, rfl⟩ := plan_eq_ok h
  obtain ⟨hsource, htarget⟩ := steps_setAside mapping existing tempPrefix
  refine ⟨_, rest, rfl, hsource, htarget, fun step hstep => ?_⟩
  obtain ⟨source, hentry⟩ :=
    (sorts_setAside tempPrefix (moving mapping) existing).given (get?_of_mem_settle hrest hstep)
  exact ⟨source, get?_moving.mp hentry⟩

/-! ### Temporary names are apart from all others -/

/-- A search for a temporary name that nothing bounds ends all the same, after at most one
candidate more than there are taken names, and the name that it ends on is not taken. The
temporary names of a plan are pairwise different, none of them exists, and no name moves to
one of them. They are what the names that move to a name that moves itself are renamed to at
first; all other steps of the plan lead to names that some name moves to.

An entry that gives a name to itself asks for nothing, and the name is not reserved by it. It
may be a temporary name. -/
theorem temporaries_fresh (tempPrefix : String) :
    (∀ (source : String) (taken : NameSet), ∃ tries ≤ taken.size + 1,
        (∀ tried found, Search taken (tempPrefix ++ source) 0 tried found ↔
          tried = tries ∧ found = temporaryName tempPrefix source taken) ∧
        temporaryName tempPrefix source taken ∉ taken) ∧
      ∀ (mapping : NameMap String) (existing : NameSet),
        (temporaries mapping existing tempPrefix).Nodup ∧
          (∀ temporary ∈ temporaries mapping existing tempPrefix,
            temporary ∉ existing ∧ ∀ source, ¬ MovesTo mapping source temporary) ∧
          ∀ steps, plan mapping existing tempPrefix = .ok steps →
            ∃ aside rest, steps = aside ++ rest ∧
              (∀ name, name ∈ aside.map Step.source ↔
                ∃ target goal, MovesTo mapping name target ∧ MovesTo mapping target goal) ∧
              aside.map Step.target = temporaries mapping existing tempPrefix ∧
              ∀ step ∈ rest, ∃ source, MovesTo mapping source step.target := by
  refine ⟨fun source taken => ?_, fun mapping existing => ⟨?_, ?_, ?_⟩⟩
  · obtain ⟨tries, hle, hsearch⟩ := search_temporaryName tempPrefix source taken
    refine ⟨tries, hle, fun tried found => ⟨hsearch.unique, ?_⟩, temporaryName_not_mem _ _ _⟩
    rintro ⟨rfl, rfl⟩
    exact hsearch
  · exact nodup_handOut tempPrefix _ _
  · intro temporary hmem
    have hfree := not_mem_of_mem_handOut hmem
    rw [mem_reserved, not_or, not_exists] at hfree
    exact hfree.symm
  · intro steps hplan
    obtain ⟨aside, rest, hsplit, hsource, htarget, hrest⟩ := exists_steps_of_plan hplan
    refine ⟨aside, rest, hsplit, fun name => ?_, htarget, hrest⟩
    rw [hsource]
    exact mem_waiting

/-- The plain temporary name of one source is in use, and the numbered one that it gets instead
is the plain one of another source. -/
theorem temporaries_fresh_lookalikes :
    ∃ steps aside rest,
      plan (.ofList [("A", "B"), ("B", "A"), ("A_1", "C"), ("C", "A_1")])
        (.ofNames ["A", "A_1", "B", "C", "t_A"]) "t_" = .ok steps ∧
      steps = aside ++ rest ∧
      aside.map Step.target = ["t_A_1", "t_A_1_1", "t_B", "t_C"] ∧
      (aside.map Step.target).Nodup := by
  have hplan : plan (.ofList [("A", "B"), ("B", "A"), ("A_1", "C"), ("C", "A_1")])
      (.ofNames ["A", "A_1", "B", "C", "t_A"]) "t_" =
      .ok [⟨"A", "t_A_1"⟩, ⟨"A_1", "t_A_1_1"⟩, ⟨"B", "t_B"⟩, ⟨"C", "t_C"⟩, ⟨"t_A_1", "B"⟩,
        ⟨"t_A_1_1", "C"⟩, ⟨"t_B", "A"⟩, ⟨"t_C", "A_1"⟩] := by
    decide +kernel
  have hnames : temporaries (.ofList [("A", "B"), ("B", "A"), ("A_1", "C"), ("C", "A_1")])
      (.ofNames ["A", "A_1", "B", "C", "t_A"]) "t_" = ["t_A_1", "t_A_1_1", "t_B", "t_C"] := by
    decide +kernel
  obtain ⟨-, hfresh⟩ := temporaries_fresh "t_"
  obtain ⟨hnodup, -, hsteps⟩ := hfresh _ _
  obtain ⟨aside, rest, hsplit, -, htarget, -⟩ := hsteps _ hplan
  exact ⟨_, aside, rest, hplan, hsplit, htarget.trans hnames, htarget ▸ hnodup⟩

/-- Two names that are exchanged, and one that is given to itself. -/
def exchange : NameMap String := .ofList [("A", "B"), ("B", "A"), ("t_A", "t_A")]

/-- The exchange goes through the name that is given to itself. -/
theorem exists_temporary_in_mapping :
    plan exchange (.ofNames ["A", "B"]) "t_" =
        .ok [⟨"A", "t_A"⟩, ⟨"B", "t_B"⟩, ⟨"t_A", "B"⟩, ⟨"t_B", "A"⟩] ∧
      ∃ temporary ∈ temporaries exchange (.ofNames ["A", "B"]) "t_",
        ∃ source, exchange.get? source = some temporary := by
  refine ⟨by decide +kernel, "t_A", ?_, "t_A", ?_⟩
  · decide +kernel
  · decide +kernel

end Mannequin.Renaming
