import Mannequin.Kernel
import Mannequin.Proofs.Returns

/-!
# Work on a kernel

Asking a kernel and telling the log, as equations on the session that the work
leaves behind.
-/

namespace Mannequin

/-- The session with one more exchange. -/
def Session.record {α : Type} (s : Session α) (exchange : Exchange α) : Session α :=
  { s with exchanges := s.exchanges ++ [exchange] }

namespace Building

variable {α β γ : Type} {s s' : Session α} {kernel : Kernel α} {what : String}

/-- Work done for every item of a list records the exchanges of the items, in order. -/
theorem exchanges_forM {f : γ → Building α Unit} (exchange : γ → Exchange α)
    (hf : ∀ c s s', Returns (f c) s () s' → s' = s.record (exchange c)) {l : List γ}
    (h : Returns (l.forM f) s () s') : s'.exchanges = s.exchanges ++ l.map exchange := by
  induction l generalizing s with
  | nil =>
      obtain ⟨-, rfl⟩ := returns_pure.mp h
      rw [List.map_nil, List.append_nil]
  | cons c rest ih =>
      change Returns (f c >>= fun _ => rest.forM f) s () s' at h
      obtain ⟨_, middle, hfirst, hrest⟩ := returns_bind.mp h
      rw [ih hrest, hf c s middle hfirst, Session.record, List.map_cons, List.append_assoc,
        List.singleton_append]

theorem outcome_tell (line : Line) (s : Session α) :
    outcome (tell line) s = (.ok (), { s with lines := s.lines ++ [line] }) := rfl

theorem returns_tell {line : Line} {result : Unit} :
    Returns (tell line) s result s' ↔ s' = { s with lines := s.lines ++ [line] } := by
  rw [Returns, outcome_tell, Prod.mk.injEq, and_iff_right rfl, eq_comm]

theorem outcome_mesh (call : MeshCall α) (s : Session α) :
    outcome (mesh kernel what call) s =
      match kernel.mesh s.exchanges call with
      | .ok handle => (.ok handle, s.record ⟨.mesh call, .ok (some handle)⟩)
      | .error refusal => (.error (refusal.error what), s.record ⟨.mesh call, .error refusal⟩) := by
  change outcome (match kernel.mesh s.exchanges call with | .ok _ => _ | .error _ => _) s = _
  cases kernel.mesh s.exchanges call <;> rfl

theorem returns_mesh {call : MeshCall α} {handle : Handle} :
    Returns (mesh kernel what call) s handle s' ↔
      kernel.mesh s.exchanges call = .ok handle ∧
        s' = s.record ⟨.mesh call, .ok (some handle)⟩ := by
  rw [Returns, outcome_mesh]
  cases kernel.mesh s.exchanges call with
  | error refusal => simp
  | ok made =>
      simp only [Prod.mk.injEq, Except.ok.injEq]
      constructor
      · rintro ⟨rfl, rfl⟩
        exact ⟨rfl, rfl⟩
      · rintro ⟨rfl, rfl⟩
        exact ⟨rfl, rfl⟩

theorem outcome_edit (call : EditCall α) (s : Session α) :
    outcome (edit kernel what call) s =
      match kernel.edit s.exchanges call with
      | .ok () => (.ok (), s.record ⟨.edit call, .ok none⟩)
      | .error refusal => (.error (refusal.error what), s.record ⟨.edit call, .error refusal⟩) := by
  change outcome (match kernel.edit s.exchanges call with | .ok _ => _ | .error _ => _) s = _
  cases kernel.edit s.exchanges call <;> rfl

theorem returns_edit {call : EditCall α} {result : Unit} :
    Returns (edit kernel what call) s result s' ↔
      kernel.edit s.exchanges call = .ok () ∧ s' = s.record ⟨.edit call, .ok none⟩ := by
  rw [Returns, outcome_edit]
  cases kernel.edit s.exchanges call with
  | error refusal => simp
  | ok made => simp [eq_comm]

/-- Work that succeeds tells nothing of a failure. -/
theorem returns_reporting {work : Building α β} {result : β} (h : Returns work s result s') :
    Returns (reporting work) s result s' := by
  rw [Returns] at h
  rw [Returns, reporting, outcome_tryCatch, h]

/-- Telling of a failure does not undo it. -/
theorem outcome_reporting (work : Building α β) (s : Session α) :
    outcome (reporting work) s =
      match outcome work s with
      | (.ok result, s') => (.ok result, s')
      | (.error e, s') => (.error e, { s' with lines := s'.lines ++ [⟨.error, e.describe⟩] }) := by
  rw [reporting, outcome_tryCatch]
  rcases outcome work s with ⟨e | result, s'⟩ <;> rfl

theorem of_returns_reporting {work : Building α β} {result : β}
    (h : Returns (reporting work) s result s') : Returns work s result s' := by
  rw [Returns, outcome_reporting] at h
  rcases houtcome : outcome work s with ⟨e | found, middle⟩
  · rw [houtcome] at h
    cases h
  · rw [houtcome] at h
    exact houtcome.trans h

end Building

/-- A result is put in its place only if there is one. -/
theorem Held.outcome_replace {α β : Type} (work : Building α β) (held : Held α β) :
    outcome (replace work) held =
      match outcome work held.session with
      | (.ok result, s) => (.ok (), ⟨s, result⟩)
      | (.error e, s) => (.error e, ⟨s, held.result⟩) := by
  have hduring : outcome (during work) held =
      ((outcome work held.session).1, { held with session := (outcome work held.session).2 }) := rfl
  rw [replace, outcome_bind, hduring]
  rcases outcome work held.session with ⟨e | result, s⟩ <;> rfl

end Mannequin
