import Mannequin.Proofs.Renaming.Temporary

/-!
# Every pass makes progress

Once the entries whose new names are still to be renamed have moved aside, an entry
that waits for its new name waits for one that stayed where it is, and that one waits
for nobody: its own new name is not to be renamed, and temporary names are nobody's new
names. So while entries remain one of them can be carried out, and the passes come to
an end with nothing left.
-/

namespace Mannequin.Renaming

/-! ### Passes over entries that flow -/

/-- An entry that waits for its new name waits for an entry that does not wait. -/
def Flows (remaining : NameMap String) : Prop :=
  ∀ source target, remaining.get? source = some target → target ∈ remaining →
    ∃ goal, remaining.get? target = some goal ∧ goal ∉ remaining

variable {remaining : NameMap String}

/-- While entries remain, one of them does not wait. -/
theorem Flows.exists_open (h : Flows remaining) (hne : ¬ remaining.isEmpty) :
    ∃ e ∈ remaining.entries, e.2 ∉ remaining := by
  rw [NameMap.isEmpty, List.isEmpty_iff] at hne
  obtain ⟨⟨source, target⟩, hentry⟩ := List.exists_mem_of_ne_nil _ hne
  by_cases hwaits : target ∈ remaining
  · obtain ⟨goal, hgoal, hopen⟩ := h source target (NameMap.mem_entries_iff.mp hentry) hwaits
    exact ⟨(target, goal), NameMap.mem_entries_iff.mpr hgoal, hopen⟩
  · exact ⟨(source, target), hentry, hwaits⟩

/-- Nobody has to wait for longer when an entry is carried out. -/
theorem Flows.erase (h : Flows remaining) (name : String) : Flows (remaining.erase name) := by
  intro source target hentry hwaits
  rw [NameMap.get?_erase, Option.ite_none_left_eq_some] at hentry
  obtain ⟨hne, hmem⟩ := NameMap.mem_erase.mp hwaits
  obtain ⟨goal, hgoal, hopen⟩ := h source target hentry.2 hmem
  refine ⟨goal, ?_, fun hleft => hopen (NameMap.mem_erase.mp hleft).2⟩
  rw [NameMap.get?_erase, if_neg hne, hgoal]

theorem Flows.pass (h : Flows remaining) (l : List (String × String)) :
    Flows (Renaming.pass l remaining).2 := by
  induction l generalizing remaining with
  | nil => exact h
  | cons head rest ih =>
      rw [Renaming.pass]
      split
      · exact ih h
      · exact ih (h.erase head.1)

theorem size_pass_le (l : List (String × String)) (remaining : NameMap String) :
    (pass l remaining).2.size ≤ remaining.size := by
  induction l generalizing remaining with
  | nil => exact Nat.le_refl _
  | cons head rest ih =>
      rw [pass]
      split
      · exact ih remaining
      · exact Nat.le_trans (ih _) (NameMap.size_erase_le remaining head.1)

/-- A pass that meets an entry that does not wait carries out an entry. -/
theorem size_pass_lt {l : List (String × String)} (hl : ∀ e ∈ l, e.1 ∈ remaining)
    {e : String × String} (he : e ∈ l) (hopen : e.2 ∉ remaining) :
    (pass l remaining).2.size < remaining.size := by
  induction l with
  | nil => cases he
  | cons head rest ih =>
      rw [pass]
      split
      case isTrue hwaits =>
        have hrest : e ∈ rest := by
          rcases List.mem_cons.mp he with rfl | hrest
          · exact absurd hwaits hopen
          · exact hrest
        exact ih (fun e he => hl e (List.mem_cons_of_mem _ he)) hrest
      case isFalse =>
        calc (pass rest (remaining.erase head.1)).2.size
            ≤ (remaining.erase head.1).size := size_pass_le rest _
          _ < remaining.size := NameMap.size_erase_lt (hl head List.mem_cons_self)

/-- Passes over entries that flow come to an end with nothing left. -/
theorem Flows.exists_settle (h : Flows remaining) : ∃ steps, settle remaining = .ok steps := by
  induction remaining using settle.induct with
  | case1 remaining hempty => exact ⟨[], by rw [settle, if_pos hempty]⟩
  | case2 remaining hempty first left hpass hlt ih =>
      have hleft : Flows left := by
        have hflows := h.pass remaining.entries
        rwa [hpass] at hflows
      obtain ⟨steps, hsteps⟩ := ih hleft
      refine ⟨first ++ steps, ?_⟩
      rw [settle, if_neg hempty]
      simp only [hpass, hlt, if_true, hsteps]
      rfl
  | case3 remaining hempty first left hpass hge =>
      obtain ⟨e, he, hopen⟩ := h.exists_open hempty
      have hmem : ∀ e ∈ remaining.entries, e.1 ∈ remaining := fun e he =>
        NameMap.mem_of_get? (NameMap.mem_entries_iff.mp he)
      have hlt := size_pass_lt hmem he hopen
      rw [hpass] at hlt
      exact absurd hlt hge

/-! ### What remains of the entries that were admitted -/

variable {pending : NameMap String} {aside : Aside} {tempPrefix : String}

/-- The invariant while entries are moved aside. New names are taken, so a temporary name
is nobody's new name. What remains has the new names of the whole renaming, and stands
under its own name, with a new name that is not to be renamed, or under a temporary one. -/
structure Aside.Sorts (pending : NameMap String) (aside : Aside) : Prop where
  taken : ∀ {source target}, pending.get? source = some target → target ∈ aside.taken
  given : ∀ {source target}, aside.remaining.get? source = some target →
    ∃ origin, pending.get? origin = some target
  placed : ∀ {source target}, aside.remaining.get? source = some target →
    (pending.get? source = some target ∧ target ∉ pending) ∨
      ∀ origin, pending.get? origin ≠ some source

theorem Aside.Sorts.step (h : aside.Sorts pending) {source target : String}
    (entry : pending.get? source = some target) :
    Aside.Sorts pending <| aside.admit tempPrefix pending source target := by
  unfold Aside.admit
  split
  case isTrue =>
    have hfree := temporaryName_not_mem tempPrefix source aside.taken
    refine ⟨?_, ?_, ?_⟩
    · intro other goal hgoal
      exact NameSet.mem_add.mpr (.inr (h.taken hgoal))
    · intro other goal hgoal
      rcases NameMap.get?_insertNew_eq_some hgoal with ⟨-, rfl⟩ | hold
      · exact ⟨source, entry⟩
      · exact h.given hold
    · intro other goal hgoal
      rcases NameMap.get?_insertNew_eq_some hgoal with ⟨rfl, -⟩ | hold
      · exact .inr fun origin horigin => hfree (h.taken horigin)
      · exact h.placed hold
  case isFalse hstays =>
    refine ⟨h.taken, ?_, ?_⟩
    · intro other goal hgoal
      rcases NameMap.get?_insertNew_eq_some hgoal with ⟨-, rfl⟩ | hold
      · exact ⟨source, entry⟩
      · exact h.given hold
    · intro other goal hgoal
      rcases NameMap.get?_insertNew_eq_some hgoal with ⟨rfl, rfl⟩ | hold
      · exact .inl ⟨entry, hstays⟩
      · exact h.placed hold

theorem Aside.Sorts.steps (h : aside.Sorts pending) {l : List (String × String)}
    (hl : ∀ e ∈ l, pending.get? e.1 = some e.2) :
    Aside.Sorts pending <|
      l.foldl (fun aside e => aside.admit tempPrefix pending e.1 e.2) aside := by
  induction l generalizing aside with
  | nil => exact h
  | cons head rest ih =>
      rw [List.foldl_cons]
      apply ih (h.step (hl head List.mem_cons_self))
      exact fun e he => hl e (List.mem_cons_of_mem _ he)

theorem sorts_setAside (tempPrefix : String) (pending : NameMap String) (existing : NameSet) :
    (setAside tempPrefix pending existing).Sorts pending := by
  have hentries : ∀ e ∈ pending.entries, pending.get? e.1 = some e.2 :=
    fun e he => NameMap.mem_entries_iff.mp he
  refine Aside.Sorts.steps ⟨?_, ?_, ?_⟩ hentries
  · intro source target hentry
    refine NameSet.mem_foldl_add.mpr (.inl (List.mem_map.mpr ⟨(source, target), ?_, rfl⟩))
    exact NameMap.mem_entries_iff.mpr hentry
  · intro source target hentry
    cases hentry
  · intro source target hentry
    cases hentry

/-- What remains once entries have moved aside flows. -/
theorem Aside.Sorts.flows (h : aside.Sorts pending) : Flows aside.remaining := by
  -- a name that somebody is to get is no temporary one
  have hown : ∀ {source target origin}, aside.remaining.get? source = some target →
      pending.get? origin = some source → pending.get? source = some target ∧ target ∉ pending := by
    intro source target origin hentry horigin
    rcases h.placed hentry with hplaced | hnobody
    · exact hplaced
    · exact absurd horigin (hnobody origin)
  intro source target hentry hwaits
  obtain ⟨goal, hgoal⟩ := NameMap.mem_iff_exists.mp hwaits
  obtain ⟨origin, horigin⟩ := h.given hentry
  obtain ⟨hpending, hlast⟩ := hown hgoal horigin
  refine ⟨goal, hgoal, fun hmem => ?_⟩
  obtain ⟨next, hnext⟩ := NameMap.mem_iff_exists.mp hmem
  exact hlast (NameMap.mem_of_get? (hown hnext hpending).1)

/-- The passes of a plan come to an end with nothing left, whatever is to be renamed. -/
theorem exists_settle_setAside (tempPrefix : String) (pending : NameMap String)
    (existing : NameSet) :
    ∃ steps, settle (setAside tempPrefix pending existing).remaining = .ok steps :=
  (sorts_setAside tempPrefix pending existing).flows.exists_settle

end Mannequin.Renaming
