import Mathlib.Data.Finset.Card
import Mannequin.Proofs.Renaming.Plan
import Mannequin.Proofs.Renaming.Progress

/-!
# When a renaming can be planned

Three things stand in the way of a renaming: a name to rename that does not exist, a new
name that several names ask for, and a new name that is taken by a name that stays. If
none of them is there a plan is made. Otherwise the first kind that is there is reported,
with all the names that it concerns, and nothing else goes wrong.
-/

namespace Mannequin.Renaming

/-! ### What stands in the way -/

/-- A mapping gives a name another name. -/
def MovesTo (mapping : NameMap String) (source target : String) : Prop :=
  mapping.get? source = some target ∧ source ≠ target

/-- A name is to move and does not exist. -/
def Missing (mapping : NameMap String) (existing : NameSet) (source : String) : Prop :=
  (∃ target, MovesTo mapping source target) ∧ source ∉ existing

/-- Several names are to move to one name. -/
def Shared (mapping : NameMap String) (target : String) : Prop :=
  ∃ first second, MovesTo mapping first target ∧ MovesTo mapping second target ∧ first ≠ second

/-- A name that is moved to exists and does not move away. -/
def Taken (mapping : NameMap String) (existing : NameSet) (target : String) : Prop :=
  (∃ source, MovesTo mapping source target) ∧ target ∈ existing ∧
    ∀ goal, ¬ MovesTo mapping target goal

variable {mapping : NameMap String} {existing : NameSet} {tempPrefix name : String}

theorem mem_moving : name ∈ moving mapping ↔ ∃ target, MovesTo mapping name target := by
  rw [NameMap.mem_iff_exists]
  exact exists_congr fun target => get?_moving

theorem mem_missingSources_iff :
    name ∈ missingSources (moving mapping) existing ↔ Missing mapping existing name := by
  rw [mem_missingSources, mem_moving, Missing]

theorem one_lt_length_sourcesOf :
    1 < (sourcesOf mapping name).length ↔ Shared mapping name := by
  rw [← List.toFinset_card_of_nodup (nodup_sourcesOf mapping name), Finset.one_lt_card_iff, Shared]
  simp only [List.mem_toFinset, mem_sourcesOf, MovesTo]

theorem mem_sharedTargets_iff :
    name ∈ sharedTargets (moving mapping) ↔ Shared mapping name := by
  rw [mem_sharedTargets, sourcesOf_moving, one_lt_length_sourcesOf]

theorem mem_takenTargets_iff :
    name ∈ takenTargets (moving mapping) existing ↔ Taken mapping existing name := by
  rw [mem_takenTargets, mem_moving, not_exists, Taken]
  exact and_congr_left fun _ => exists_congr fun source => get?_moving

/-- A list of names is empty if it lists what is never the case. -/
private theorem eq_nil_iff_of_mem_iff {names : List String} {P : String → Prop}
    (h : ∀ name, name ∈ names ↔ P name) : names = [] ↔ ∀ name, ¬ P name := by
  rw [List.eq_nil_iff_forall_not_mem]
  exact forall_congr' fun name => not_congr (h name)

theorem missingSources_eq_nil_iff :
    missingSources (moving mapping) existing = [] ↔ ∀ name, ¬ Missing mapping existing name :=
  eq_nil_iff_of_mem_iff fun _ => mem_missingSources_iff

theorem sharedTargets_eq_nil_iff :
    sharedTargets (moving mapping) = [] ↔ ∀ name, ¬ Shared mapping name :=
  eq_nil_iff_of_mem_iff fun _ => mem_sharedTargets_iff

theorem takenTargets_eq_nil_iff :
    takenTargets (moving mapping) existing = [] ↔ ∀ name, ¬ Taken mapping existing name :=
  eq_nil_iff_of_mem_iff fun _ => mem_takenTargets_iff

/-! ### Reports -/

/-- A message names something if it holds the name in quotation marks. -/
def Names (message name : String) : Prop :=
  ∃ before after, message = before ++ ("'" ++ name ++ "'") ++ after

theorem Names.within {message : String} (h : Names message name) (before after : String) :
    Names (before ++ message ++ after) name := by
  obtain ⟨start, stop, rfl⟩ := h
  exact ⟨before ++ start, stop ++ after, by simp only [String.append_assoc]⟩

theorem names_quoted {names : List String} (h : name ∈ names) :
    Names (Fault.quoted names) name := by
  induction names with
  | nil => cases h
  | cons first rest ih =>
      cases rest with
      | nil =>
          obtain rfl := List.mem_singleton.mp h
          exact ⟨"", "", by simp [Fault.quoted]⟩
      | cons second rest =>
          have hquoted : Fault.quoted (first :: second :: rest) =
              "'" ++ first ++ "'" ++ ", " ++ Fault.quoted (second :: rest) := by
            simp only [Fault.quoted, List.map_cons, String.intercalate_cons_cons]
          rw [hquoted]
          rcases List.mem_cons.mp h with rfl | hrest
          · have hfirst : Names ("'" ++ name ++ "'") name := ⟨"", "", by simp⟩
            have hwithin := hfirst.within "" (", " ++ Fault.quoted (second :: rest))
            rwa [String.empty_append, ← String.append_assoc] at hwithin
          · have hwithin := (ih hrest).within ("'" ++ first ++ "'" ++ ", ") ""
            rwa [String.append_empty] at hwithin

/-- A fault is of a kind, and its message names all that are at fault. -/
structure Fault.Reports (fault : Fault) (kind : ErrorKind) (atFault : String → Prop) : Prop where
  kind : fault.kind = kind
  named : ∀ name, atFault name → Names fault.message name

theorem reports_missing :
    (Fault.missing (missingSources (moving mapping) existing)).Reports .missingTarget
      (Missing mapping existing) := by
  refine ⟨rfl, fun name hname => ?_⟩
  have hquoted := names_quoted (mem_missingSources_iff.mpr hname)
  have hwithin := hquoted.within "vertex groups to rename do not exist: " ""
  rwa [String.append_empty] at hwithin

theorem reports_collision :
    (Fault.collision (sharedTargets (moving mapping))).Reports .collision (Shared mapping) :=
  ⟨rfl, fun _ hname => (names_quoted (mem_sharedTargets_iff.mpr hname)).within _ _⟩

theorem reports_conflict :
    (Fault.conflict (takenTargets (moving mapping) existing)).Reports .conflict
      (Taken mapping existing) := by
  refine ⟨rfl, fun name hname => ?_⟩
  have hquoted := names_quoted (mem_takenTargets_iff.mpr hname)
  have hwithin := hquoted.within "rename destinations already exist: " ""
  rwa [String.append_empty] at hwithin

/-! ### The verdict -/

/-- A renaming with nothing in its way. -/
structure Clear (mapping : NameMap String) (existing : NameSet) : Prop where
  present : ∀ name, ¬ Missing mapping existing name
  single : ∀ name, ¬ Shared mapping name
  free : ∀ name, ¬ Taken mapping existing name

theorem Clear.exists_plan (h : Clear mapping existing) (tempPrefix : String) :
    ∃ steps, plan mapping existing tempPrefix = .ok steps := by
  have hmissing := missingSources_eq_nil_iff.mpr h.present
  have hshared := sharedTargets_eq_nil_iff.mpr h.single
  have htaken := takenTargets_eq_nil_iff.mpr h.free
  obtain ⟨more, hmore⟩ := exists_settle_setAside tempPrefix (moving mapping) existing
  refine ⟨(setAside tempPrefix (moving mapping) existing).steps ++ more, ?_⟩
  simp only [plan, hmissing, hshared, htaken, hmore, ne_eq, not_true_eq_false, if_false]
  rfl

theorem plan_of_missing (h : ∃ name, Missing mapping existing name) :
    plan mapping existing tempPrefix =
      .error (.missing (missingSources (moving mapping) existing)) := by
  have hmissing : missingSources (moving mapping) existing ≠ [] := by
    rwa [ne_eq, missingSources_eq_nil_iff, not_forall_not]
  rw [plan, if_pos hmissing]

theorem plan_of_shared (hmissing : ∀ name, ¬ Missing mapping existing name)
    (h : ∃ name, Shared mapping name) :
    plan mapping existing tempPrefix = .error (.collision (sharedTargets (moving mapping))) := by
  have hshared : sharedTargets (moving mapping) ≠ [] := by
    rwa [ne_eq, sharedTargets_eq_nil_iff, not_forall_not]
  rw [plan, if_neg (not_not.mpr (missingSources_eq_nil_iff.mpr hmissing)), if_pos hshared]

theorem plan_of_taken (hmissing : ∀ name, ¬ Missing mapping existing name)
    (hshared : ∀ name, ¬ Shared mapping name) (h : ∃ name, Taken mapping existing name) :
    plan mapping existing tempPrefix =
      .error (.conflict (takenTargets (moving mapping) existing)) := by
  have htaken : takenTargets (moving mapping) existing ≠ [] := by
    rwa [ne_eq, takenTargets_eq_nil_iff, not_forall_not]
  rw [plan, if_neg (not_not.mpr (missingSources_eq_nil_iff.mpr hmissing)),
    if_neg (not_not.mpr (sharedTargets_eq_nil_iff.mpr hshared)), if_pos htaken]

theorem Clear.of_plan {steps : List Step} (h : plan mapping existing tempPrefix = .ok steps) :
    Clear mapping existing := by
  obtain ⟨hmissing, hshared, htaken, -⟩ := plan_eq_ok h
  exact ⟨missingSources_eq_nil_iff.mp hmissing, sharedTargets_eq_nil_iff.mp hshared,
    takenTargets_eq_nil_iff.mp htaken⟩

/-- Nothing is in the way when the names that move exist, move to different names, and make
way for each other. -/
theorem clear_iff : Clear mapping existing ↔
    (∀ source target, MovesTo mapping source target → source ∈ existing) ∧
      (∀ first second target, MovesTo mapping first target → MovesTo mapping second target →
        first = second) ∧
      ∀ source target, MovesTo mapping source target → target ∈ existing →
        ∃ goal, MovesTo mapping target goal := by
  constructor
  · intro h
    refine ⟨fun source target hmoves => ?_, fun first second target hfirst hsecond => ?_,
      fun source target hmoves hexists => ?_⟩
    · by_contra habsent
      exact h.present source ⟨⟨target, hmoves⟩, habsent⟩
    · by_contra hne
      exact h.single target ⟨first, second, hfirst, hsecond, hne⟩
    · by_contra hstays
      exact h.free target ⟨⟨source, hmoves⟩, hexists, not_exists.mp hstays⟩
  · rintro ⟨hpresent, hsingle, hfree⟩
    refine ⟨?_, ?_, ?_⟩
    · rintro source ⟨⟨target, hmoves⟩, habsent⟩
      exact habsent (hpresent source target hmoves)
    · rintro target ⟨first, second, hfirst, hsecond, hne⟩
      exact hne (hsingle first second target hfirst hsecond)
    · rintro target ⟨⟨source, hmoves⟩, hexists, hstays⟩
      obtain ⟨goal, hgoal⟩ := hfree source target hmoves hexists
      exact hstays goal hgoal

/-- Planning never ends for want of progress. -/
theorem kind_ne_internal {fault : Fault} (h : plan mapping existing tempPrefix = .error fault) :
    fault.kind ≠ .internal := by
  by_cases hmissing : ∃ name, Missing mapping existing name
  · rw [plan_of_missing hmissing] at h
    cases h
    exact ErrorKind.noConfusion
  · rw [not_exists] at hmissing
    by_cases hshared : ∃ name, Shared mapping name
    · rw [plan_of_shared hmissing hshared] at h
      cases h
      exact ErrorKind.noConfusion
    · rw [not_exists] at hshared
      by_cases htaken : ∃ name, Taken mapping existing name
      · rw [plan_of_taken hmissing hshared htaken] at h
        cases h
        exact ErrorKind.noConfusion
      · have hclear : Clear mapping existing := ⟨hmissing, hshared, not_exists.mp htaken⟩
        obtain ⟨steps, hsteps⟩ := hclear.exists_plan tempPrefix
        rw [hsteps] at h
        cases h

/-- A plan is made exactly when the names that move exist, no two of them move to one name,
and every existing name that is moved to moves itself. Otherwise the first of the three
that fails is reported, naming all that are at fault, and never a lack of progress. A plan
that fails is an error alone: no steps come with it. -/
theorem plan_verdict (mapping : NameMap String) (existing : NameSet) (tempPrefix : String) :
    ((∃ steps, plan mapping existing tempPrefix = .ok steps) ↔
      (∀ source target, MovesTo mapping source target → source ∈ existing) ∧
        (∀ first second target, MovesTo mapping first target → MovesTo mapping second target →
          first = second) ∧
        ∀ source target, MovesTo mapping source target → target ∈ existing →
          ∃ goal, MovesTo mapping target goal) ∧
      ((∃ name, Missing mapping existing name) →
        ∃ fault, plan mapping existing tempPrefix = .error fault ∧
          fault.Reports .missingTarget (Missing mapping existing)) ∧
      ((∀ name, ¬ Missing mapping existing name) → (∃ name, Shared mapping name) →
        ∃ fault, plan mapping existing tempPrefix = .error fault ∧
          fault.Reports .collision (Shared mapping)) ∧
      ((∀ name, ¬ Missing mapping existing name) → (∀ name, ¬ Shared mapping name) →
        (∃ name, Taken mapping existing name) →
        ∃ fault, plan mapping existing tempPrefix = .error fault ∧
          fault.Reports .conflict (Taken mapping existing)) ∧
      ∀ fault, plan mapping existing tempPrefix = .error fault → fault.kind ≠ .internal := by
  refine ⟨?_, ?_, ?_, ?_, fun _ => kind_ne_internal⟩
  · rw [← clear_iff]
    exact ⟨fun ⟨_, hsteps⟩ => .of_plan hsteps, fun hclear => hclear.exists_plan tempPrefix⟩
  · intro hmissing
    exact ⟨_, plan_of_missing hmissing, reports_missing⟩
  · intro hmissing hshared
    exact ⟨_, plan_of_shared hmissing hshared, reports_collision⟩
  · intro hmissing hshared htaken
    exact ⟨_, plan_of_taken hmissing hshared htaken, reports_conflict⟩

end Mannequin.Renaming
