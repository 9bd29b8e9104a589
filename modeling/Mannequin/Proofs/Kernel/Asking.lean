import Mathlib.Data.List.Forall2
import Mannequin.Proofs.Kernel.Building

/-!
# What work asks of a kernel

Work on any kernel is described by the kind of calls that it makes, by what holds of
its result, and by the one reason for which it may fail: the kernel refused the last
call. On a kernel that refuses nothing such work always has its result.
-/

namespace Mannequin

variable {α : Type}

namespace Kernel

/-- A kernel refuses a call after some exchanges. -/
def Refuses (kernel : Kernel α) (past : List (Exchange α)) (call : Call α) (refusal : Refusal) :
    Prop :=
  match call with
  | .mesh call => kernel.mesh past call = .error refusal
  | .edit call => kernel.edit past call = .error refusal

/-- No call ever fails, whatever it is passed. -/
structure NeverFails (kernel : Kernel α) : Prop where
  mesh : ∀ past call, ∃ made, kernel.mesh past call = .ok made
  edit : ∀ past call, kernel.edit past call = .ok ()

theorem NeverFails.not_refuses {kernel : Kernel α} (h : kernel.NeverFails)
    {past : List (Exchange α)} {call : Call α} {refusal : Refusal} :
    ¬ kernel.Refuses past call refusal := by
  intro hrefuses
  cases call with
  | mesh call =>
      obtain ⟨made, hmade⟩ := h.mesh past call
      cases hmade.symm.trans hrefuses
  | edit call => cases (h.edit past call).symm.trans hrefuses

end Kernel

namespace Session

/-- From one session to another there are only calls of one kind. -/
def Grows (kind : Call α → Prop) (s s' : Session α) : Prop :=
  ∃ own, s'.exchanges = s.exchanges ++ own ∧ ∀ exchange ∈ own, kind exchange.call

variable {kind kind' : Call α → Prop} {s s' s'' : Session α}

namespace Grows

theorem refl (kind : Call α → Prop) (s : Session α) : Grows kind s s :=
  ⟨[], (List.append_nil _).symm, fun _ h => nomatch h⟩

theorem trans (h : Grows kind s s') (h' : Grows kind s' s'') : Grows kind s s'' := by
  obtain ⟨own, hown, hkind⟩ := h
  obtain ⟨more, hmore, hkind'⟩ := h'
  refine ⟨own ++ more, by rw [hmore, hown, List.append_assoc], fun exchange hmem => ?_⟩
  cases List.mem_append.mp hmem with
  | inl hfirst => exact hkind exchange hfirst
  | inr hsecond => exact hkind' exchange hsecond

theorem mono (h : Grows kind s s') (hkind : ∀ call, kind call → kind' call) :
    Grows kind' s s' := by
  obtain ⟨own, hown, hcalls⟩ := h
  exact ⟨own, hown, fun exchange hmem => hkind exchange.call (hcalls exchange hmem)⟩

theorem record (s : Session α) {exchange : Exchange α} (h : kind exchange.call) :
    Grows kind s (s.record exchange) := by
  refine ⟨[exchange], rfl, fun other hmem => ?_⟩
  rw [List.mem_singleton.mp hmem]
  exact h

end Grows

end Session

/-- An error comes from the refusal of the last call of a session. -/
def Refused (kernel : Kernel α) (s : Session α) (e : Error) : Prop :=
  ∃ before call refusal what, s.exchanges = before ++ [⟨call, .error refusal⟩] ∧
    kernel.Refuses before call refusal ∧ e = refusal.error what

/-- Work that makes calls of one kind only. A result has a property, and a failure is
that of the last call. -/
def Asks {β : Type} (kernel : Kernel α) (kind : Call α → Prop) (work : Building α β)
    (post : β → Prop) : Prop :=
  ∀ s, s.Grows kind (outcome work s).2 ∧
    match (outcome work s).1 with
    | .ok result => post result
    | .error e => Refused kernel (outcome work s).2 e

namespace Asks

variable {β γ : Type} {kernel : Kernel α} {kind kind' : Call α → Prop} {work : Building α β}
  {next : β → Building α γ} {post : β → Prop} {post' : γ → Prop} {what : String}
  {s s' : Session α} {result : β}

theorem grows (h : Asks kernel kind work post) (hreturns : Returns work s result s') :
    s.Grows kind s' := by
  have hgrows := (h s).1
  rw [hreturns] at hgrows
  exact hgrows

theorem of_returns (h : Asks kernel kind work post) (hreturns : Returns work s result s') :
    post result := by
  have hpost := (h s).2
  rw [hreturns] at hpost
  exact hpost

/-- On a kernel that refuses nothing the work has its result. -/
theorem exists_returns (h : Asks kernel kind work post) (hk : kernel.NeverFails)
    (s : Session α) : ∃ result s', Returns work s result s' := by
  have hfailure := (h s).2
  rcases houtcome : outcome work s with ⟨e | result, s'⟩
  · rw [houtcome] at hfailure
    obtain ⟨before, call, refusal, what, -, hrefuses, -⟩ := hfailure
    exact absurd hrefuses hk.not_refuses
  · exact ⟨result, s', houtcome⟩

theorem pure (kind : Call α → Prop) {result : β} (h : post result) :
    Asks kernel kind (Pure.pure result) post :=
  fun s => ⟨.refl kind s, h⟩

theorem mesh {call : MeshCall α} (h : kind (.mesh call)) :
    Asks kernel kind (Building.mesh kernel what call) fun _ => True := by
  intro s
  rw [Building.outcome_mesh]
  cases hanswer : kernel.mesh s.exchanges call with
  | ok made => exact ⟨.record s h, trivial⟩
  | error refusal => exact ⟨.record s h, s.exchanges, .mesh call, refusal, what, rfl, hanswer, rfl⟩

theorem edit {call : EditCall α} (h : kind (.edit call)) :
    Asks kernel kind (Building.edit kernel what call) fun _ => True := by
  intro s
  rw [Building.outcome_edit]
  cases hanswer : kernel.edit s.exchanges call with
  | ok made => exact ⟨.record s h, trivial⟩
  | error refusal => exact ⟨.record s h, s.exchanges, .edit call, refusal, what, rfl, hanswer, rfl⟩

theorem tell (kind : Call α → Prop) (line : Line) :
    Asks kernel kind (Building.tell line) fun _ => True :=
  fun _ => ⟨⟨[], (List.append_nil _).symm, fun _ h => nomatch h⟩, trivial⟩

theorem reporting (h : Asks kernel kind work post) :
    Asks kernel kind (Building.reporting work) post := by
  intro s
  have hwork := h s
  rw [Building.outcome_reporting]
  rcases houtcome : outcome work s with ⟨e | result, s'⟩ <;> rw [houtcome] at hwork <;> exact hwork

theorem bind (h : Asks kernel kind work post)
    (hnext : ∀ result, post result → Asks kernel kind (next result) post') :
    Asks kernel kind (work >>= next) post' := by
  intro s
  obtain ⟨hgrows, hpost⟩ := h s
  rw [outcome_bind]
  rcases houtcome : outcome work s with ⟨e | result, middle⟩
  · rw [houtcome] at hgrows hpost
    exact ⟨hgrows, hpost⟩
  · rw [houtcome] at hgrows hpost
    obtain ⟨hmore, hlast⟩ := hnext result hpost middle
    exact ⟨hgrows.trans hmore, hlast⟩

/-- A step that keeps a property can be made for every item of a list in turn. -/
theorem foldlM {step : β → γ → Building α β} {l : List γ}
    (hstep : ∀ b, post b → ∀ c ∈ l, Asks kernel kind (step b c) post) {start : β}
    (hstart : post start) : Asks kernel kind (l.foldlM step start) post := by
  induction l generalizing start with
  | nil => exact .pure kind hstart
  | cons c rest ih =>
      rw [List.foldlM_cons]
      refine bind (hstep start hstart c List.mem_cons_self) fun b hb => ?_
      exact ih (fun b hb c hc => hstep b hb c (List.mem_cons_of_mem _ hc)) hb

/-- Work on the items of a list in turn gives a result for each of them. -/
theorem mapM {work : γ → Building α β} {gives : γ → β → Prop} {l : List γ}
    (h : ∀ c ∈ l, Asks kernel kind (work c) (gives c)) :
    Asks kernel kind (l.mapM work) (List.Forall₂ gives l) := by
  induction l with
  | nil => exact .pure kind .nil
  | cons c rest ih =>
      rw [List.mapM_cons]
      refine bind (h c List.mem_cons_self) fun result hresult => ?_
      refine bind (ih fun c hc => h c (List.mem_cons_of_mem _ hc)) fun results hresults => ?_
      exact .pure kind (.cons hresult hresults)

theorem weaken {post' : β → Prop} (h : Asks kernel kind work post)
    (hpost : ∀ result, post result → post' result) : Asks kernel kind work post' := by
  intro s
  have hwork := h s
  rcases houtcome : outcome work s with ⟨e | result, s'⟩
  · rw [houtcome] at hwork
    exact hwork
  · rw [houtcome] at hwork
    exact ⟨hwork.1, hpost result hwork.2⟩

theorem mono (h : Asks kernel kind work post) (hkind : ∀ call, kind call → kind' call) :
    Asks kernel kind' work post :=
  fun s => ⟨(h s).1.mono hkind, (h s).2⟩

end Asks

end Mannequin
