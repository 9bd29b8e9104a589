import Mannequin.Error
import Mannequin.Location

/-!
# Outcomes that concur

Two computations that may fail concur in a relation when their results are related
wherever both succeed. Nothing is asked of failures, whose messages name places. They are
alike when they have the same result, and one fails exactly if the other does.
-/

namespace Mannequin

variable {ε ε' β γ β' γ' : Type}

/-- Where both succeed, the results are related. -/
def Concur (R : β → γ → Prop) (x : Except ε β) (y : Except ε' γ) : Prop :=
  ∀ b c, x = .ok b → y = .ok c → R b c

namespace Concur

variable {R : β → γ → Prop} {S : β' → γ' → Prop} {x : Except ε β} {y : Except ε' γ}

theorem refl (x : Except ε β) : Concur Eq x x := by
  intro b c hb hc
  exact Except.ok.inj (hb.symm.trans hc)

theorem pure {b : β} {c : γ} (h : R b c) :
    Concur R (Pure.pure b : Except ε β) (Pure.pure c : Except ε' γ) := by
  intro _ _ hb hc
  cases hb
  cases hc
  exact h

theorem refused {φ : Type} [Cause φ] (fault : φ) (path : String) :
    Concur R (refuse fault path) y := by
  intro _ _ hb
  cases hb

theorem bind {f : β → Except ε β'} {g : γ → Except ε' γ'} (h : Concur R x y)
    (hnext : ∀ b c, R b c → Concur S (f b) (g c)) : Concur S (x >>= f) (y >>= g) := by
  intro b' c' hb' hc'
  cases x with
  | error => cases hb'
  | ok b =>
      cases y with
      | error => cases hc'
      | ok c => exact hnext b c (h b c rfl rfl) b' c' hb' hc'

theorem bind_eq {x' : Except ε' β} {f : β → Except ε β'} {g : β → Except ε' γ'}
    (h : Concur Eq x x') (hnext : ∀ b, Concur S (f b) (g b)) :
    Concur S (x >>= f) (x' >>= g) := by
  refine bind h ?_
  rintro b _ rfl
  exact hnext b

/-- Checks have one result at most. -/
theorem unit (x : Except ε Unit) (y : Except ε' Unit) : Concur Eq x y := fun _ _ _ _ => rfl

/-- A check that is made on a condition, before what follows. -/
theorem guarded {p : Prop} [Decidable p] {check : Except ε Unit} {check' : Except ε' Unit}
    {f : Unit → Except ε β'} {g : Unit → Except ε' γ'} (h : Concur S (f ()) (g ())) :
    Concur S (if p then check >>= f else f ()) (if p then check' >>= g else g ()) := by
  split
  · exact bind (unit check check') fun _ _ _ => h
  · exact h

theorem map {f : β → β'} {g : γ → γ'} (h : Concur R x y) (hf : ∀ b c, R b c → S (f b) (g c)) :
    Concur S (f <$> x) (g <$> y) := by
  intro b' c' hb' hc'
  cases x with
  | error => cases hb'
  | ok b =>
      cases y with
      | error => cases hc'
      | ok c =>
          cases hb'
          cases hc'
          exact hf b c (h b c rfl rfl)

theorem map_eq {x' : Except ε' β} (f : β → β') (h : Concur Eq x x') :
    Concur Eq (f <$> x) (f <$> x') :=
  map h fun _ _ heq => congrArg f heq

theorem mapError {f : ε → Error} {g : ε' → Error} (h : Concur R x y) :
    Concur R (x.mapError f) (y.mapError g) := by
  intro b c hb hc
  cases x with
  | error => cases hb
  | ok =>
      cases y with
      | error => cases hc
      | ok =>
          cases hb
          cases hc
          exact h b c rfl rfl

end Concur

/-! ### Outcomes that are alike -/

/-- Both succeed with the same result, or both fail. -/
def Alike (x y : Except Error β) : Prop := x.toOption = y.toOption

namespace Alike

variable {x y : Except Error β}

theorem refl (x : Except Error β) : Alike x x := rfl

theorem refused {φ φ' : Type} [Cause φ] [Cause φ'] (fault : φ) (fault' : φ') (path path' : String) :
    Alike (refuse fault path : Except Error β) (refuse fault' path') := rfl

theorem bind {f g : β → Except Error γ} (h : Alike x y) (hnext : ∀ b, Alike (f b) (g b)) :
    Alike (x >>= f) (y >>= g) := by
  cases x with
  | error =>
      cases y with
      | error => rfl
      | ok => cases h
  | ok b =>
      cases y with
      | error => cases h
      | ok c =>
          obtain rfl : b = c := Option.some.inj h
          exact hnext b

theorem map (f : β → γ) (h : Alike x y) : Alike (f <$> x) (f <$> y) := by
  rw [map_eq_pure_bind, map_eq_pure_bind]
  exact h.bind fun _ => .refl _

theorem eq_ok {b : β} (h : Alike x y) (hx : x = .ok b) : y = .ok b := by
  subst hx
  cases y with
  | error => cases h
  | ok c =>
      obtain rfl : b = c := Option.some.inj h
      rfl

theorem concur (h : Alike x y) : Concur Eq x y := by
  intro b c hb hc
  exact Except.ok.inj ((h.eq_ok hb).symm.trans hc)

end Alike

/-! ### Readers -/

/-- What a reader finds does not depend on where it is found. -/
def Placeless {κ : Type} (read : Location → κ → Except Error β) : Prop :=
  ∀ loc loc' value, Concur Eq (read loc value) (read loc' value)

/-- A reader finds the same things everywhere. -/
def Everywhere {κ : Type} (read : Location → κ → Except Error β) : Prop :=
  ∀ loc loc' value, Alike (read loc value) (read loc' value)

theorem Everywhere.placeless {κ : Type} {read : Location → κ → Except Error β}
    (h : Everywhere read) : Placeless read := fun loc loc' value => (h loc loc' value).concur

end Mannequin
