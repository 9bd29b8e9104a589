import Mannequin.Error

/-!
# Work with a state, part by part

Work on a kernel and work on a recipe both change a state, which survives a
failure. What comes of such work that is started in a state, and what it means
that it succeeds, is made up of what its parts do. Later proofs take work apart
with these equations and never look at the monad.
-/

namespace Mannequin

variable {σ α β γ ε : Type}

/-- Work that changes a state and may fail. -/
abbrev Work (σ : Type) := ExceptT Error (StateM σ)

/-- What comes of work that is started in a state. -/
def outcome (work : Work σ β) (s : σ) : Except Error β × σ := work.run.run s

/-- Work started in a state gives a result and leaves a state behind. -/
def Returns (work : Work σ β) (s : σ) (result : β) (s' : σ) : Prop :=
  outcome work s = (.ok result, s')

variable {s s' : σ}

/-! ### Sequences and choices -/

theorem bind_eq_ok {work : Except ε β} {next : β → Except ε γ} {result : γ} :
    work >>= next = .ok result ↔ ∃ b, work = .ok b ∧ next b = .ok result := by
  constructor
  · intro h
    cases work with
    | error => cases h
    | ok b => exact ⟨b, rfl, h⟩
  · rintro ⟨b, rfl, hnext⟩
    exact hnext

theorem bind_eq_error {work : Except ε β} {next : β → Except ε γ} {e : ε} :
    work >>= next = .error e ↔ work = .error e ∨ ∃ b, work = .ok b ∧ next b = .error e := by
  cases work with
  | error cause =>
      change Except.error cause = Except.error e ↔ _
      simp
  | ok b =>
      change next b = .error e ↔ _
      simp

theorem exists_eq_ok {work : Except ε β} (h : work.isOk = true) : ∃ b, work = .ok b := by
  cases work with
  | error => cases h
  | ok b => exact ⟨b, rfl⟩

/-- What follows a check that is made on a condition is done, whether it is made or not. -/
theorem of_guarded_eq_ok {p : Prop} [Decidable p] {check : Except ε Unit}
    {next : Unit → Except ε β} {result : β}
    (h : (if p then check >>= next else next ()) = .ok result) : next () = .ok result := by
  split at h
  · obtain ⟨_, -, h⟩ := bind_eq_ok.mp h
    exact h
  · exact h

theorem map_eq_ok {f : β → γ} {work : Except ε β} {result : γ} :
    f <$> work = .ok result ↔ ∃ b, work = .ok b ∧ f b = result := by
  cases work with
  | error => simp [Functor.map, Except.map]
  | ok b => simp [Functor.map, Except.map]

theorem map_eq_error {f : β → γ} {work : Except ε β} {e : ε} :
    f <$> work = .error e ↔ work = .error e := by
  cases work <;> simp [Functor.map, Except.map]

theorem mapError_eq_ok {δ : Type} {f : ε → δ} {work : Except ε β} {result : β} :
    work.mapError f = .ok result ↔ work = .ok result := by
  cases work with
  | error => exact iff_of_false nofun nofun
  | ok b => constructor <;> rintro ⟨⟩ <;> rfl

theorem mapError_eq_error {δ : Type} {f : ε → δ} {work : Except ε β} {e : δ} :
    work.mapError f = .error e ↔ ∃ cause, work = .error cause ∧ f cause = e := by
  cases work with
  | error cause =>
      constructor
      · rintro ⟨⟩
        exact ⟨cause, rfl, rfl⟩
      · rintro ⟨_, ⟨⟩, rfl⟩
        rfl
  | ok b => exact iff_of_false nofun nofun

theorem outcome_pure (b : β) (s : σ) : outcome (pure b) s = (.ok b, s) := rfl

theorem outcome_bind (work : Work σ β) (next : β → Work σ γ) (s : σ) :
    outcome (work >>= next) s =
      match outcome work s with
      | (.ok b, middle) => outcome (next b) middle
      | (.error e, middle) => (.error e, middle) := by
  rcases h : outcome work s with ⟨result, middle⟩
  rw [outcome] at h
  rw [outcome, ExceptT.run_bind, StateT.run_bind, h]
  cases result <;> rfl

theorem returns_pure {b result : β} :
    Returns (pure b : Work σ β) s result s' ↔ b = result ∧ s = s' := by
  rw [Returns, outcome_pure, Prod.mk.injEq, Except.ok.injEq]

theorem not_returns_throw {e : Error} {result : β} :
    ¬ Returns (throw e : Work σ β) s result s' := by
  intro h
  cases h

theorem returns_bind {work : Work σ β} {next : β → Work σ γ} {result : γ} :
    Returns (work >>= next) s result s' ↔
      ∃ b middle, Returns work s b middle ∧ Returns (next b) middle result s' := by
  rw [Returns, outcome_bind]
  constructor
  · intro h
    rcases hwork : outcome work s with ⟨e | b, middle⟩
    · rw [hwork] at h
      cases h
    · rw [hwork] at h
      exact ⟨b, middle, hwork, h⟩
  · rintro ⟨b, middle, hwork, hnext⟩
    rw [hwork]
    exact hnext

/-- Work that is started in a state has one result. -/
theorem Returns.unique {work : Work σ β} {first second : β} {s₁ s₂ : σ}
    (hfirst : Returns work s first s₁) (hsecond : Returns work s second s₂) :
    first = second ∧ s₁ = s₂ := by
  have h := hfirst.symm.trans hsecond
  rwa [Prod.mk.injEq, Except.ok.injEq] at h

/-- A computation that does not look at the state leaves it as it is. -/
theorem returns_lift {work : Except Error β} {result : β} :
    Returns (liftM work : Work σ β) s result s' ↔ work = .ok result ∧ s = s' := by
  have houtcome : outcome (liftM work : Work σ β) s = (work, s) := rfl
  rw [Returns, houtcome, Prod.mk.injEq]

/-- What is seen of the result of work and of the state that it leaves, if it succeeds. -/
def seen (work : Work σ β) (s : σ) (look : β → σ → γ) : Option γ :=
  match outcome work s with
  | (.ok result, s') => some (look result s')
  | (.error _, _) => none

theorem exists_returns_of_seen {work : Work σ β} {look : β → σ → γ} {c : γ}
    (h : seen work s look = some c) :
    ∃ result s', Returns work s result s' ∧ look result s' = c := by
  rw [seen] at h
  split at h
  case h_1 result s' hwork => exact ⟨result, s', hwork, Option.some.inj h⟩
  case h_2 => cases h

/-- Work that follows a step made on a condition is done, whether the step is made or not. -/
theorem of_returns_guarded {p : Prop} [Decidable p] {work : Work σ Unit} {next : Unit → Work σ β}
    {result : β} (h : Returns (if p then work >>= next else next ()) s result s') :
    ∃ middle, Returns (next ()) middle result s' := by
  split at h
  · obtain ⟨_, middle, -, hnext⟩ := returns_bind.mp h
    exact ⟨middle, hnext⟩
  · exact ⟨s, h⟩

/-! ### Lists -/

/-- Work that always succeeds can be done for every item of a list. -/
theorem exists_returns_forM {f : γ → Work σ Unit}
    (hf : ∀ c s, ∃ s', Returns (f c) s () s') (l : List γ) (s : σ) :
    ∃ s', Returns (l.forM f) s () s' := by
  induction l generalizing s with
  | nil => exact ⟨s, rfl⟩
  | cons c rest ih =>
      obtain ⟨middle, hfirst⟩ := hf c s
      obtain ⟨s', hrest⟩ := ih middle
      exact ⟨s', returns_bind.mpr ⟨(), middle, hfirst, hrest⟩⟩

/-- Tasks that may have a result: every result comes from one of them, and every task
succeeds and its result is among them. -/
theorem of_returns_filterMapM {f : γ → Work σ (Option β)} {l : List γ} {results : List β}
    (h : Returns (l.filterMapM f) s results s') :
    (∀ b ∈ results, ∃ c ∈ l, ∃ r r', Returns (f c) r (some b) r') ∧
      ∀ c ∈ l, ∃ o r r', Returns (f c) r o r' ∧ ∀ b, o = some b → b ∈ results := by
  induction l generalizing s s' results with
  | nil =>
      rw [List.filterMapM_nil] at h
      obtain ⟨rfl, -⟩ := returns_pure.mp h
      constructor <;> intro _ hmem <;> cases hmem
  | cons c rest ih =>
      rw [List.filterMapM_cons] at h
      obtain ⟨o, middle, hfirst, h⟩ := returns_bind.mp h
      cases o with
      | none =>
          obtain ⟨hfrom, hinto⟩ := ih h
          constructor
          · intro b hb
            obtain ⟨c', hc', hreturns⟩ := hfrom b hb
            exact ⟨c', List.mem_cons_of_mem c hc', hreturns⟩
          · intro c' hc'
            rcases List.mem_cons.mp hc' with rfl | hc'
            · refine ⟨none, s, middle, hfirst, fun b hb => ?_⟩
              cases hb
            · exact hinto c' hc'
      | some first =>
          obtain ⟨others, middle', hothers, h⟩ := returns_bind.mp h
          obtain ⟨rfl, -⟩ := returns_pure.mp h
          obtain ⟨hfrom, hinto⟩ := ih hothers
          constructor
          · intro b hb
            rcases List.mem_cons.mp hb with rfl | hb
            · exact ⟨c, List.mem_cons_self, s, middle, hfirst⟩
            · obtain ⟨c', hc', hreturns⟩ := hfrom b hb
              exact ⟨c', List.mem_cons_of_mem c hc', hreturns⟩
          · intro c' hc'
            rcases List.mem_cons.mp hc' with rfl | hc'
            · refine ⟨some first, s, middle, hfirst, fun b hb => ?_⟩
              cases hb
              exact List.mem_cons_self
            · obtain ⟨o, r, r', hreturns, hmem⟩ := hinto c' hc'
              exact ⟨o, r, r', hreturns, fun b hb => List.mem_cons_of_mem first (hmem b hb)⟩

/-- What the results take over from their tasks stands in the order of the tasks. -/
theorem sublist_of_returns_filterMapM {δ : Type} {f : γ → Work σ (Option β)} {g : β → δ}
    {k : γ → δ} (hf : ∀ c b r r', Returns (f c) r (some b) r' → g b = k c) {l : List γ}
    {results : List β} (h : Returns (l.filterMapM f) s results s') :
    (results.map g).Sublist (l.map k) := by
  induction l generalizing s s' results with
  | nil =>
      rw [List.filterMapM_nil] at h
      obtain ⟨rfl, -⟩ := returns_pure.mp h
      exact .refl _
  | cons c rest ih =>
      rw [List.filterMapM_cons] at h
      obtain ⟨o, middle, hfirst, h⟩ := returns_bind.mp h
      cases o with
      | none => exact (ih h).cons (k c)
      | some first =>
          obtain ⟨others, middle', hothers, h⟩ := returns_bind.mp h
          obtain ⟨rfl, -⟩ := returns_pure.mp h
          rw [List.map_cons, List.map_cons, hf c first s middle hfirst]
          exact (ih hothers).cons_cons (k c)

/-- What is known of the tasks that are done, of their results and of the state holds of all
of them at the end, if every task extends it. -/
theorem invariant_of_returns_filterMapM {f : γ → Work σ (Option β)}
    {P : List γ → List β → σ → Prop}
    (hstep : ∀ done results c o s s', P done results s → Returns (f c) s o s' →
      P (done ++ [c]) (results ++ o.toList) s')
    {l : List γ} {results : List β} (hstart : P [] [] s)
    (h : Returns (l.filterMapM f) s results s') : P l results s' := by
  suffices hall : ∀ (todo done : List γ) (before after : List β) (s : σ), P done before s →
      Returns (todo.filterMapM f) s after s' → P (done ++ todo) (before ++ after) s' from
    hall l [] [] results s hstart h
  intro todo
  induction todo with
  | nil =>
      intro done before after s hdone h
      rw [List.filterMapM_nil] at h
      obtain ⟨rfl, rfl⟩ := returns_pure.mp h
      rwa [List.append_nil, List.append_nil]
  | cons c rest ih =>
      intro done before after s hdone h
      rw [List.filterMapM_cons] at h
      obtain ⟨o, middle, hfirst, h⟩ := returns_bind.mp h
      have hnext := hstep done before c o s middle hdone hfirst
      cases o with
      | none =>
          have hrest := ih _ _ after middle hnext h
          rwa [Option.toList_none, List.append_nil, List.append_assoc,
            List.singleton_append] at hrest
      | some first =>
          obtain ⟨others, _, hothers, h⟩ := returns_bind.mp h
          obtain ⟨rfl, rfl⟩ := returns_pure.mp h
          have hrest := ih _ _ others middle hnext hothers
          rwa [Option.toList_some, List.append_assoc, List.append_assoc, List.singleton_append,
            List.singleton_append] at hrest

/-- What every step keeps holds at the end if it holds at the start. -/
theorem of_returns_foldlM {P : β → Prop} {f : β → γ → Work σ β}
    (hstep : ∀ b c b' r r', P b → Returns (f b c) r b' r' → P b') {l : List γ} {start result : β}
    (hstart : P start) (h : Returns (l.foldlM f start) s result s') : P result := by
  induction l generalizing s start with
  | nil =>
      rw [List.foldlM_nil] at h
      obtain ⟨rfl, -⟩ := returns_pure.mp h
      exact hstart
  | cons c rest ih =>
      rw [List.foldlM_cons] at h
      obtain ⟨b, middle, hfirst, hrest⟩ := returns_bind.mp h
      exact ih (hstep start c b s middle hstart hfirst) hrest

/-- A pass over the positions of a list: what is known of the part that is done holds of all
of it at the end, if every step extends it by the item that has its turn. -/
theorem exists_returns_positions {P : List γ → List γ → β → σ → Prop} {step : β → Nat → Work σ β}
    (hstep : ∀ done c todo b s, P done (c :: todo) b s →
      ∃ b' s', Returns (step b done.length) s b' s' ∧ P (done ++ [c]) todo b' s')
    {l : List γ} {b : β} (h : P [] l b s) :
    ∃ b' s', Returns ((List.range l.length).foldlM step b) s b' s' ∧ P l [] b' s' := by
  suffices hall : ∀ done todo b s, P done todo b s →
      ∃ b' s', Returns ((List.range' done.length todo.length).foldlM step b) s b' s' ∧
        P (done ++ todo) [] b' s' by
    rw [List.range_eq_range']
    exact hall [] l b s h
  intro done todo
  induction todo generalizing done with
  | nil =>
      intro b s h
      rw [List.append_nil]
      exact ⟨b, s, rfl, h⟩
  | cons c rest ih =>
      intro b s h
      obtain ⟨middle, told, hfirst, hmiddle⟩ := hstep done c rest b s h
      obtain ⟨b', s', hrest, hdone⟩ := ih (done ++ [c]) middle told hmiddle
      rw [List.length_append, List.length_singleton] at hrest
      rw [List.append_assoc, List.singleton_append] at hdone
      refine ⟨b', s', ?_, hdone⟩
      rw [List.length_cons, List.range'_succ, List.foldlM_cons]
      exact returns_bind.mpr ⟨middle, told, hfirst, hrest⟩

/-! ### Failures that are handled -/

theorem outcome_tryCatch (work : Work σ β)
    (handle : Error → Work σ β) (s : σ) :
    outcome (tryCatch work handle) s =
      match outcome work s with
      | (.ok b, middle) => (.ok b, middle)
      | (.error e, middle) => outcome (handle e) middle := by
  change (ExceptT.tryCatch work handle).run.run s = _
  rcases h : outcome work s with ⟨result, middle⟩
  change StateT.run work s = (result, middle) at h
  rw [ExceptT.tryCatch, ExceptT.run_mk, StateT.run_bind, h]
  cases result <;> rfl

end Mannequin
