import Mannequin.Proofs.Returns

/-!
# Work under a condition

Two tasks may do the same, but one of them insists on a condition that the other one does
not ask for. The strict task narrows the lenient one: it succeeds exactly where the lenient
one does and the condition holds, with the same result and in the same state. What the
failures say is left open.
-/

namespace Mannequin

variable {σ β γ : Type}

/-- The strict work succeeds exactly where the lenient one does and a condition holds, and
then there is no difference between them. -/
def Narrows (p : Prop) (strict lenient : Work σ β) : Prop :=
  ∀ s result s', Returns strict s result s' ↔ Returns lenient s result s' ∧ p

namespace Narrows

variable {p q : Prop} {strict lenient work : Work σ β} {next next' : β → Work σ γ}

/-- Nothing is narrowed by a condition that holds. -/
theorem refl (work : Work σ β) (h : p) : Narrows p work work :=
  fun _ _ _ => (and_iff_left h).symm

theorem congr (h : Narrows p strict lenient) (hpq : p ↔ q) : Narrows q strict lenient :=
  fun s result s' => (h s result s').trans (and_congr_right fun _ => hpq)

/-- Both parts of a sequence insist on a condition of their own. -/
theorem bind (h : Narrows p strict lenient) (hnext : ∀ b, Narrows q (next b) (next' b)) :
    Narrows (p ∧ q) (strict >>= next) (lenient >>= next') := by
  intro s result s'
  rw [returns_bind, returns_bind]
  constructor
  · rintro ⟨b, middle, hfirst, hrest⟩
    obtain ⟨hfirst, hp⟩ := (h s b middle).mp hfirst
    obtain ⟨hrest, hq⟩ := (hnext b middle result s').mp hrest
    exact ⟨⟨b, middle, hfirst, hrest⟩, hp, hq⟩
  · rintro ⟨⟨b, middle, hfirst, hrest⟩, hp, hq⟩
    exact ⟨b, middle, (h s b middle).mpr ⟨hfirst, hp⟩, (hnext b middle result s').mpr ⟨hrest, hq⟩⟩

/-- What is done before is the same, and its result may be used. -/
theorem after (work : Work σ β)
    (hnext : ∀ b s s', Returns work s b s' → Narrows p (next b) (next' b)) :
    Narrows p (work >>= next) (work >>= next') := by
  intro s result s'
  rw [returns_bind, returns_bind]
  constructor
  · rintro ⟨b, middle, hfirst, hrest⟩
    obtain ⟨hrest, hp⟩ := (hnext b s middle hfirst middle result s').mp hrest
    exact ⟨⟨b, middle, hfirst, hrest⟩, hp⟩
  · rintro ⟨⟨b, middle, hfirst, hrest⟩, hp⟩
    exact ⟨b, middle, hfirst, (hnext b s middle hfirst middle result s').mpr ⟨hrest, hp⟩⟩

/-- What is done afterwards is the same. -/
theorem before (h : Narrows p strict lenient) (next : β → Work σ γ) :
    Narrows p (strict >>= next) (lenient >>= next) :=
  (h.bind fun b => refl (next b) trivial).congr (and_iff_left trivial)

/-- A step that is made on a condition, before what follows. -/
theorem guarded {c : Prop} [Decidable c] {check : Work σ Unit} {next next' : Unit → Work σ γ}
    (h : Narrows p (next ()) (next' ())) :
    Narrows p (if c then check >>= next else next ())
      (if c then check >>= next' else next' ()) := by
  split
  · exact after check fun _ _ _ _ => h
  · exact h

/-- Tasks that may have a result, each with a condition of its own. -/
theorem filterMapM {P : γ → Prop} {f g : γ → Work σ (Option β)} {l : List γ}
    (h : ∀ c ∈ l, Narrows (P c) (f c) (g c)) :
    Narrows (∀ c ∈ l, P c) (l.filterMapM f) (l.filterMapM g) := by
  induction l with
  | nil => exact refl _ (fun _ hc => nomatch hc)
  | cons c rest ih =>
      rw [List.filterMapM_cons, List.filterMapM_cons]
      have hrest := ih fun c hc => h c (List.mem_cons_of_mem _ hc)
      refine ((h c List.mem_cons_self).bind fun o => ?_).congr List.forall_mem_cons.symm
      cases o with
      | none => exact hrest
      | some b => exact hrest.before _

end Narrows

end Mannequin
