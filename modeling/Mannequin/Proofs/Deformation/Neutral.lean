import Mannequin.Proofs.Deformation.Interpolation
import Mannequin.Proofs.Scalar.Cancelling

/-!
# Fields that change nothing

A field is taken for the identity by its coefficients: its taper and all its scales are one,
its twist, offsets and tilts are zero. What a field does follows from them by interpolation,
and between equal values this leads nowhere else, as long as the part of the way is a finite
number. So at every finite height such a field leaves the cross-section as it is.
-/

namespace Mannequin

variable {α : Type} [Scalar α]

/-- What leaves a cross-section as it is. -/
structure FieldSample.IsNeutral (sample : FieldSample α) : Prop where
  radialScale : Scalar.Agree sample.radialScale 1
  twist : Scalar.Agree sample.twist 0
  scale : Scalar.Agree sample.scaleX 1 ∧ Scalar.Agree sample.scaleY 1
  offset : Scalar.Agree sample.offsetX 0 ∧ Scalar.Agree sample.offsetY 0
  tilt : Scalar.Agree sample.tiltX 0 ∧ Scalar.Agree sample.tiltY 0

/-- A position within the segment. -/
structure Scalar.InSegment (x : α) : Prop where
  finite : isFinite x = true
  start : 0 ≤ x
  stop : x ≤ 1

variable [Scalar.Cancelling α]

namespace Scalar

variable {a b c f x y t : α}

theorem isFinite_one : isFinite (1 : α) = true := Ordered.isPositive_one.1

theorem inSegment_of_not (hx : isFinite x = true) (hlow : ¬ x < 0) (hhigh : ¬ 1 < x) :
    InSegment x :=
  ⟨hx, le_of_not_lt Symmetric.isFinite_zero hx hlow, le_of_not_lt hx isFinite_one hhigh⟩

/-- Finite numbers are clamped into the segment. -/
theorem inSegment_clamp (hx : isFinite x = true) : InSegment (clamp 0 1 x) := by
  have hone : (0 : α) ≤ 1 := Total.le_of_lt _ _
    (Total.lt_of_not_le 1 0 isFinite_one Symmetric.isFinite_zero Ordered.isPositive_one.2)
  rw [clamp]
  split
  case isTrue =>
    exact ⟨Symmetric.isFinite_zero, (Cancelling.agree_refl 0 Symmetric.isFinite_zero).1, hone⟩
  case isFalse hlow =>
    split
    case isTrue => exact ⟨isFinite_one, hone, (Cancelling.agree_refl 1 isFinite_one).1⟩
    case isFalse hhigh => exact inSegment_of_not hx hlow hhigh

/-- Between numbers that agree there is nothing else. -/
theorem Agree.mix (hc : isFinite c = true) (ha : Agree a c) (hb : Agree b c)
    (hf : isFinite f = true) : Agree (a + (b - a) * f) c :=
  Cancelling.add_agree a c _ hc ha
    (Cancelling.mul_agree_zero _ f (Cancelling.sub_agree a b c hc ha hb) hf)

end Scalar

open Scalar

/-! ### Positions of an accepted field -/

namespace Deformation

variable {field : Deformation α} {t : α}

theorem IsBuilt.inSegment (h : field.IsBuilt) :
    (∀ p ∈ field.bulge, InSegment p.position) ∧ ∀ r ∈ field.rings, InSegment r.position := by
  obtain ⟨loc, taper, bulge, twist, rings, hbuild⟩ := h
  obtain ⟨haccepted, rfl⟩ := build_eq_ok.mp hbuild
  constructor
  · intro p hp
    obtain ⟨q, hq, rfl⟩ := List.mem_map.mp ((BulgePoint.sort_perm _).mem_iff.mp hp)
    exact inSegment_clamp (haccepted.bulgeSound q hq).position
  · intro r hr
    have hsound := haccepted.ringsSound r hr
    exact inSegment_of_not hsound.position hsound.within.1 hsound.within.2

/-- The part of the way between neighbours that a height is at is a finite number. -/
theorem Straddles.isFinite_fraction {β : Type} {position : β → α} {l : List β} {i : Nat} {x y : β}
    (h : Straddles position t l i x y) (hx : InSegment (position x)) (hy : InSegment (position y))
    (ht : isFinite t = true) :
    isFinite ((t - position x) / (position y - position x)) = true :=
  Cancelling.isFinite_fraction (position x) t (position y) hx.finite ht hy.finite hx.start
    h.below (le_of_not_lt ht hy.finite h.notBelow) hy.stop

/-! ### Sampling an identity -/

theorem agree_taperScale (h : field.IsIdentity) (ht : isFinite t = true) :
    Agree (field.taperScale t) 1 :=
  Agree.mix isFinite_one (Cancelling.agree_refl 1 isFinite_one) h.1 ht

theorem agree_bulgeScale (hbuilt : field.IsBuilt) (h : field.IsIdentity)
    (ht : isFinite t = true) : Agree (field.bulgeScale t) 1 := by
  have hsegment := hbuilt.inSegment.1
  rcases bulgeScale_cases (fun p hp => (hsegment p hp).finite) ht with
    ⟨-, heq⟩ | ⟨p, hp, heq⟩ | ⟨i, p₀, p₁, hstraddles, heq⟩
  · rw [heq]
    exact Cancelling.agree_refl 1 isFinite_one
  · rw [heq]
    exact h.2.2.1 p hp
  · have hp₀ := hstraddles.mem_lower
    have hp₁ := hstraddles.mem_upper
    rw [heq, scaleFrom]
    split
    · exact h.2.2.1 p₁ hp₁
    · exact Agree.mix isFinite_one (h.2.2.1 p₀ hp₀) (h.2.2.1 p₁ hp₁)
        (hstraddles.isFinite_fraction (hsegment p₀ hp₀) (hsegment p₁ hp₁) ht)

theorem isNeutral_identity (t : α) : (Ring.identity t).IsNeutral := by
  have hone := Cancelling.agree_refl (1 : α) isFinite_one
  have hzero := Symmetric.agree_zero (α := α)
  exact ⟨hone, hone, hzero, hzero, hzero, hzero, hzero⟩

/-- Between rings that change nothing nothing is changed. -/
theorem isNeutral_interpolate {r₀ r₁ : Ring α} (h₀ : r₀.IsNeutral) (h₁ : r₁.IsNeutral)
    (hf : isFinite ((t - r₀.position) / (r₁.position - r₀.position)) = true) :
    (r₀.interpolate r₁ t).IsNeutral := by
  have hzero := Symmetric.isFinite_zero (α := α)
  obtain ⟨hx₀, hy₀, htwist₀, hoffsetX₀, hoffsetY₀, htiltX₀, htiltY₀⟩ := h₀
  obtain ⟨hx₁, hy₁, htwist₁, hoffsetX₁, hoffsetY₁, htiltX₁, htiltY₁⟩ := h₁
  exact ⟨hx₀.mix isFinite_one hx₁ hf, hy₀.mix isFinite_one hy₁ hf, htwist₀.mix hzero htwist₁ hf,
    hoffsetX₀.mix hzero hoffsetX₁ hf, hoffsetY₀.mix hzero hoffsetY₁ hf,
    htiltX₀.mix hzero htiltX₁ hf, htiltY₀.mix hzero htiltY₁ hf⟩

theorem isNeutral_ringAt (hbuilt : field.IsBuilt) (h : field.IsIdentity)
    (ht : isFinite t = true) : (field.ringAt t).IsNeutral := by
  have hsegment := hbuilt.inSegment.2
  rcases ringAt_cases (fun r hr => (hsegment r hr).finite) ht with
    ⟨-, heq⟩ | ⟨r, hr, heq⟩ | ⟨i, r₀, r₁, hstraddles, heq⟩
  · rw [heq]
    exact isNeutral_identity t
  · rw [heq]
    exact h.2.2.2 r hr
  · have hr₀ := hstraddles.mem_lower
    have hr₁ := hstraddles.mem_upper
    rw [heq]
    exact isNeutral_interpolate (h.2.2.2 r₀ hr₀) (h.2.2.2 r₁ hr₁)
      (hstraddles.isFinite_fraction (hsegment r₀ hr₀) (hsegment r₁ hr₁) ht)

/-- An accepted field that passes for the identity changes nothing at any finite height. -/
theorem isNeutral_evaluate (hbuilt : field.IsBuilt) (h : field.IsIdentity)
    (ht : isFinite t = true) : (field.evaluate t).IsNeutral := by
  obtain ⟨hscaleX, hscaleY, htwist, hoffsetX, hoffsetY, htiltX, htiltY⟩ :=
    isNeutral_ringAt hbuilt h ht
  have hturn : Agree (field.twistRadians t) 0 :=
    Cancelling.radians_agree_zero _ (Cancelling.mul_agree_zero _ t h.2.1 ht)
  exact {
    radialScale := Cancelling.mul_agree_one _ _ (agree_taperScale h ht)
      (agree_bulgeScale hbuilt h ht)
    twist := Cancelling.add_agree _ 0 _ Symmetric.isFinite_zero hturn
      (Cancelling.radians_agree_zero _ htwist)
    scale := ⟨hscaleX, hscaleY⟩
    offset := ⟨hoffsetX, hoffsetY⟩
    tilt := ⟨Cancelling.radians_agree_zero _ htiltX, Cancelling.radians_agree_zero _ htiltY⟩ }

end Deformation

end Mannequin
