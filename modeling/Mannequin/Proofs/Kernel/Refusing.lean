import Mannequin.Proofs.Kernel.Asking

/-!
# Refused calls

A kernel may refuse any call. Work that heeds its kernel makes no further call then and
fails with what it was told. Up to there nothing shows that a call will be refused, so the
work does just what it does on a kernel that gives the same answers and refuses nothing.
Two runs are compared for this, one of them on a kernel that obliges where the other
kernel refuses.
-/

namespace Mannequin

variable {α β γ : Type}

/-- A call has been answered, and not refused. -/
def Exchange.Answered (exchange : Exchange α) : Prop := ∃ made, exchange.reply = .ok made

/-- A kernel gives every answer that another one gives, and may answer more calls. -/
structure Kernel.Obliges (obliging kernel : Kernel α) : Prop where
  mesh : ∀ past call made, kernel.mesh past call = .ok made → obliging.mesh past call = .ok made
  edit : ∀ past call, kernel.edit past call = .ok () → obliging.edit past call = .ok ()

theorem Kernel.Obliges.refl (kernel : Kernel α) : kernel.Obliges kernel :=
  ⟨fun _ _ _ h => h, fun _ _ h => h⟩

/-- A kernel can always be obliged by one that refuses nothing. -/
theorem Kernel.exists_obliging (kernel : Kernel α) :
    ∃ obliging : Kernel α, obliging.NeverFails ∧ obliging.Obliges kernel := by
  let obliging : Kernel α :=
    { mesh := fun past call => .ok ((kernel.mesh past call).toOption.getD 0)
      edit := fun _ _ => .ok () }
  refine ⟨obliging, ⟨fun past call => ⟨_, rfl⟩, fun _ _ => rfl⟩, ⟨?_, fun _ _ _ => rfl⟩⟩
  intro past call made hanswer
  change Except.ok ((kernel.mesh past call).toOption.getD 0) = .ok made
  rw [hanswer]
  rfl

theorem Exchange.not_answered (call : Call α) (refusal : Refusal) :
    ¬ (⟨call, .error refusal⟩ : Exchange α).Answered := by
  rintro ⟨made, hmade⟩
  cases hmade

/-- An exchange with a refusal is that of some call. -/
theorem Exchange.exists_call_of_reply {exchange : Option (Exchange α)} {refusal : Refusal}
    (h : exchange.map Exchange.reply = some (.error refusal)) :
    ∃ call, exchange = some ⟨call, .error refusal⟩ := by
  obtain ⟨⟨call, _⟩, hexchange, rfl⟩ := Option.map_eq_some_iff.mp h
  exact ⟨call, hexchange⟩

/-- The message of a refused call is never empty, even if the kernel told nothing. -/
theorem Refusal.message_error_ne_empty (what : String) (refusal : Refusal) :
    (refusal.error what).message ≠ "" := by
  simp [Refusal.error, String.append_eq_empty_iff]

/-- How two runs from one session end. As long as all calls are answered they are the same
run. If one is refused, the first run ends with it, and the second run has made the same
call after the same answers. -/
inductive Abreast (s : Session α) :
    Except Error β × Session α → Except Error β × Session α → Prop
  | together {result : Except Error β} {t : Session α} (own : List (Exchange α))
      (answered : ∀ exchange ∈ own, exchange.Answered)
      (grown : t.exchanges = s.exchanges ++ own) : Abreast s (result, t) (result, t)
  | parted {result : Except Error β} {t t' : Session α} (own : List (Exchange α))
      (call : Call α) (refusal : Refusal) (what : String) (reply : Except Refusal (Option Handle))
      (more : List (Exchange α)) (answered : ∀ exchange ∈ own, exchange.Answered)
      (ended : t.exchanges = s.exchanges ++ (own ++ [⟨call, .error refusal⟩]))
      (goesOn : t'.exchanges = s.exchanges ++ (own ++ ⟨call, reply⟩ :: more)) :
      Abreast s (.error (refusal.error what), t) (result, t')

namespace Abreast

variable {s middle t t' : Session α} {run run' : Except Error β × Session α}

/-- Runs only add exchanges. -/
theorem exists_grown (h : Abreast s run run') :
    ∃ own, run'.2.exchanges = s.exchanges ++ own := by
  cases h with
  | together own _ grown => exact ⟨own, grown⟩
  | parted own call _ _ reply more _ _ goesOn => exact ⟨_, goesOn⟩

/-- Runs that are abreast from a session on are so from an earlier one, too. -/
theorem prepend {own : List (Exchange α)} (h : Abreast middle run run')
    (hanswered : ∀ exchange ∈ own, exchange.Answered)
    (hgrown : middle.exchanges = s.exchanges ++ own) : Abreast s run run' := by
  have hall : ∀ later : List (Exchange α), (∀ exchange ∈ later, exchange.Answered) →
      ∀ exchange ∈ own ++ later, exchange.Answered :=
    fun later hlater => List.forall_mem_append.mpr ⟨hanswered, hlater⟩
  cases h with
  | together later answered grown =>
      refine .together (own ++ later) (hall later answered) ?_
      rw [grown, hgrown, List.append_assoc]
  | parted later call refusal what reply more answered ended goesOn =>
      refine .parted (own ++ later) call refusal what reply more (hall later answered) ?_ ?_
      · rw [ended, hgrown, List.append_assoc, List.append_assoc]
      · rw [goesOn, hgrown, List.append_assoc, List.append_assoc]

/-- A refused call is the last one of its run, and both runs have made it. -/
theorem of_refused {i : Nat} {call : Call α} {refusal : Refusal}
    (h : Abreast Session.empty run run')
    (hrefused : run.2.exchanges[i]? = some ⟨call, .error refusal⟩) :
    run.2.exchanges.length = i + 1 ∧ run.2.calls <+: run'.2.calls ∧
      ∃ what, run.1 = .error (refusal.error what) := by
  cases h with
  | together own answered grown =>
      rw [grown, Session.empty, List.nil_append] at hrefused
      exact absurd (answered _ (List.mem_of_getElem? hrefused)) (Exchange.not_answered call refusal)
  | parted own last given what reply more answered ended goesOn =>
      rw [Session.empty, List.nil_append] at ended goesOn
      rw [ended] at hrefused
      have hlast : ¬ i < own.length := by
        intro hlt
        rw [List.getElem?_append_left hlt] at hrefused
        exact Exchange.not_answered call refusal (answered _ (List.mem_of_getElem? hrefused))
      have hbound : i < (own ++ [(⟨last, .error given⟩ : Exchange α)]).length :=
        (List.getElem?_eq_some_iff.mp hrefused).1
      rw [List.length_append, List.length_singleton] at hbound
      obtain rfl : i = own.length := by omega
      rw [List.getElem?_concat_length, Option.some.injEq, Exchange.mk.injEq,
        Except.error.injEq] at hrefused
      obtain ⟨rfl, rfl⟩ := hrefused
      refine ⟨by rw [ended, List.length_append, List.length_singleton],
        ⟨more.map Exchange.call, ?_⟩, what, rfl⟩
      rw [Session.calls, Session.calls, ended, goesOn]
      simp

end Abreast

/-- The work stops at the first refusal, and until then it does what the other work does. -/
def Heeds (work work' : Building α β) : Prop :=
  ∀ s, Abreast s (outcome work s) (outcome work' s)

namespace Heeds

variable {kernel obliging : Kernel α} {work work' : Building α β}
  {next next' : β → Building α γ} {what : String}

theorem pure (b : β) : Heeds (Pure.pure b : Building α β) (Pure.pure b) :=
  fun _ => .together [] (fun _ h => nomatch h) (List.append_nil _).symm

theorem throw (e : Error) : Heeds (throw e : Building α β) (MonadExcept.throw e) :=
  fun _ => .together [] (fun _ h => nomatch h) (List.append_nil _).symm

theorem tell (line : Line) : Heeds (Building.tell line : Building α Unit) (Building.tell line) :=
  fun _ => .together [] (fun _ h => nomatch h) (List.append_nil _).symm

theorem mesh (hk : obliging.Obliges kernel) (call : MeshCall α) :
    Heeds (Building.mesh kernel what call) (Building.mesh obliging what call) := by
  intro s
  rw [Building.outcome_mesh, Building.outcome_mesh]
  cases hanswer : kernel.mesh s.exchanges call with
  | ok made =>
      rw [hk.mesh _ _ _ hanswer]
      exact .together [⟨.mesh call, .ok (some made)⟩] (by simp [Exchange.Answered]) rfl
  | error refusal =>
      cases obliging.mesh s.exchanges call <;>
        exact .parted [] (.mesh call) refusal what _ [] (fun _ h => nomatch h) rfl rfl

theorem edit (hk : obliging.Obliges kernel) (call : EditCall α) :
    Heeds (Building.edit kernel what call) (Building.edit obliging what call) := by
  intro s
  rw [Building.outcome_edit, Building.outcome_edit]
  cases hanswer : kernel.edit s.exchanges call with
  | ok =>
      rw [hk.edit _ _ hanswer]
      exact .together [⟨.edit call, .ok none⟩] (by simp [Exchange.Answered]) rfl
  | error refusal =>
      cases obliging.edit s.exchanges call <;>
        exact .parted [] (.edit call) refusal what _ [] (fun _ h => nomatch h) rfl rfl

theorem bind (h : Heeds work work') (hnext : ∀ b, Heeds (next b) (next' b)) :
    Heeds (work >>= next) (work' >>= next') := by
  intro s
  have hwork := h s
  rw [outcome_bind, outcome_bind]
  generalize outcome work s = run at hwork
  generalize outcome work' s = run' at hwork
  cases hwork with
  | @together result t own answered grown =>
      cases result with
      | error e => exact .together own answered grown
      | ok b => exact (hnext b t).prepend answered grown
  | @parted result t t' own call refusal what reply more answered ended goesOn =>
      cases result with
      | error e => exact .parted own call refusal what reply more answered ended goesOn
      | ok b =>
          -- The first run is over; the second one goes on and adds exchanges to its own.
          obtain ⟨later, hlater⟩ := (hnext b t').exists_grown
          rw [goesOn, List.append_assoc, List.append_assoc, List.cons_append] at hlater
          exact .parted own call refusal what reply (more ++ later) answered ended hlater

theorem reporting (h : Heeds work work') :
    Heeds (Building.reporting work) (Building.reporting work') := by
  intro s
  have hwork := h s
  rw [Building.outcome_reporting, Building.outcome_reporting]
  generalize outcome work s = run at hwork
  generalize outcome work' s = run' at hwork
  cases hwork with
  | @together result t own answered grown =>
      cases result <;> exact .together own answered grown
  | @parted result t t' own call refusal what reply more answered ended goesOn =>
      cases result <;> exact .parted own call refusal what reply more answered ended goesOn

theorem foldlM {step step' : β → γ → Building α β} (hstep : ∀ b c, Heeds (step b c) (step' b c))
    (l : List γ) (start : β) : Heeds (l.foldlM step start) (l.foldlM step' start) := by
  induction l generalizing start with
  | nil => exact pure start
  | cons c rest ih =>
      rw [List.foldlM_cons, List.foldlM_cons]
      exact bind (hstep start c) fun b => ih b

theorem mapM {task task' : γ → Building α β} (htask : ∀ c, Heeds (task c) (task' c))
    (l : List γ) : Heeds (l.mapM task) (l.mapM task') := by
  induction l with
  | nil => exact pure []
  | cons c rest ih =>
      rw [List.mapM_cons, List.mapM_cons]
      exact bind (htask c) fun first => bind ih fun others => pure (first :: others)

theorem forM {task task' : γ → Building α Unit} (htask : ∀ c, Heeds (task c) (task' c))
    (l : List γ) : Heeds (l.forM task) (l.forM task') := by
  induction l with
  | nil => exact pure ()
  | cons c rest ih => exact bind (htask c) fun _ => ih

end Heeds

/-- Work on a kernel ends with the refusal of its call number `i`, counted from zero. It has
made no later call, and those that it has made are the first ones that it makes on any kernel
that gives the same answers and obliges where this one refuses. There is an error that
says what was refused. A result that the caller holds is kept: the work would put its own in
that place only when it is done. -/
structure EndsAt (work : Kernel α → Building α β) (kernel : Kernel α) (i : Nat)
    (refusal : Refusal) : Prop where
  last : (Building.start (work kernel)).2.calls.length = i + 1
  first : ∀ obliging : Kernel α, obliging.Obliges kernel →
    (Building.start (work kernel)).2.calls <+: (Building.start (work obliging)).2.calls
  error : ∃ e, (Building.start (work kernel)).1 = .error e ∧
    e.kind = refusal.kind.getD .kernel ∧ e.message ≠ ""
  kept : ∀ held : β,
    (outcome (Held.replace (work kernel)) ⟨Session.empty, held⟩).2.result = held

/-- Work that heeds its kernel ends with the first refusal. -/
theorem EndsAt.of_heeds {work : Kernel α → Building α β} {kernel : Kernel α} {i : Nat}
    {call : Call α} {refusal : Refusal}
    (hwork : ∀ obliging : Kernel α, obliging.Obliges kernel → Heeds (work kernel) (work obliging))
    (hrefused : (Building.start (work kernel)).2.exchanges[i]? = some ⟨call, .error refusal⟩) :
    EndsAt work kernel i refusal := by
  have hself := hwork kernel (.refl kernel) Session.empty
  obtain ⟨hlast, -, what, herror⟩ := hself.of_refused hrefused
  constructor
  · rw [Session.calls, List.length_map]
    exact hlast
  · intro obliging hobliging
    exact ((hwork obliging hobliging Session.empty).of_refused hrefused).2.1
  · exact ⟨_, herror, rfl, refusal.message_error_ne_empty what⟩
  · intro held
    have hfailed : (outcome (work kernel) Session.empty).1 = .error (refusal.error what) := herror
    rw [Held.outcome_replace]
    rcases houtcome : outcome (work kernel) Session.empty with ⟨e | result, s⟩
    · rfl
    · rw [houtcome] at hfailed
      cases hfailed

end Mannequin
