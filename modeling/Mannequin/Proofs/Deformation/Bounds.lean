import Mannequin.Proofs.Deformation.Interpolation

/-!
# Bounds of the cross-section

What a field does to a cross-section is made up of the scales that it was given. Between two
scales a linear interpolation stays, whatever the neighbours are, so within a segment the
cross-section is never scaled beyond the least and the greatest of them, and it never
vanishes.
-/

namespace Mannequin.Deformation

variable {α : Type} [Exact α]

/-! ### Between scales -/

/-- The least of some scales. Without any it is one. -/
def leastScale (scales : List α) : α := scales.min?.getD 1

/-- The greatest of some scales. Without any it is one. -/
def greatestScale (scales : List α) : α := scales.max?.getD 1

/-- A number that is not below the least and not above the greatest of some scales. -/
structure Within (scales : List α) (s : α) : Prop where
  least_le : leastScale scales ≤ s
  le_greatest : s ≤ greatestScale scales

variable {scales : List α} {s a b f : α}

theorem within_of_mem (h : s ∈ scales) : Within scales s := by
  constructor
  case least_le =>
    cases hmin : scales.min? with
    | none =>
        rw [List.min?_eq_none_iff.mp hmin] at h
        cases h
    | some low =>
        rw [leastScale, hmin]
        exact (List.min?_eq_some_iff.mp hmin).2 s h
  case le_greatest =>
    cases hmax : scales.max? with
    | none =>
        rw [List.max?_eq_none_iff.mp hmax] at h
        cases h
    | some high =>
        rw [greatestScale, hmax]
        exact (List.max?_eq_some_iff.mp hmax).2 s h

theorem within_nil : Within ([] : List α) 1 := ⟨le_refl 1, le_refl 1⟩

theorem leastScale_pos (h : ∀ s ∈ scales, 0 < s) : 0 < leastScale scales := by
  rw [leastScale]
  cases hmin : scales.min? with
  | none => exact zero_lt_one
  | some low => exact h low (List.min?_mem hmin)

theorem Within.pos (hs : Within scales s) (h : ∀ s ∈ scales, 0 < s) : 0 < s :=
  (leastScale_pos h).trans_le hs.least_le

/-- A part of the way from one number to another stays between both. -/
theorem Within.mix (ha : Within scales a) (hb : Within scales b) (hf₀ : 0 ≤ f) (hf₁ : f ≤ 1) :
    Within scales (a + (b - a) * f) := by
  have hmix : a + (b - a) * f = a * (1 - f) + b * f := by ring
  have hf : 0 ≤ 1 - f := sub_nonneg.mpr hf₁
  rw [hmix]
  constructor
  case least_le =>
    calc leastScale scales = leastScale scales * (1 - f) + leastScale scales * f := by ring
      _ ≤ a * (1 - f) + b * f :=
        add_le_add (mul_le_mul_of_nonneg_right ha.least_le hf)
          (mul_le_mul_of_nonneg_right hb.least_le hf₀)
  case le_greatest =>
    calc a * (1 - f) + b * f
        ≤ greatestScale scales * (1 - f) + greatestScale scales * f :=
        add_le_add (mul_le_mul_of_nonneg_right ha.le_greatest hf)
          (mul_le_mul_of_nonneg_right hb.le_greatest hf₀)
      _ = greatestScale scales := by ring

/-- The part of the way between two neighbours that a height is at. -/
theorem Straddles.fraction {β : Type} {position : β → α} {t : α} {l : List β} {i : Nat} {x y : β}
    (h : Straddles position t l i x y) :
    0 ≤ (t - position x) / (position y - position x) ∧
      (t - position x) / (position y - position x) ≤ 1 :=
  ⟨div_nonneg (sub_nonneg.mpr h.below.le) h.span_pos.le,
    (div_le_one h.span_pos).mpr (sub_le_sub_right h.le _)⟩

/-! ### The parts of a field -/

variable {loc : Location} {taper twist t : α} {bulge : List (BulgePoint α)}
  {rings : List (Ring α)} {field : Deformation α}

/-- Within a segment the taper leads from one to its end. -/
theorem taperScale_within (field : Deformation α) (h₀ : 0 ≤ t) (h₁ : t ≤ 1) :
    Within [1, field.taper] (field.taperScale t) := by
  have hend : Within [1, field.taper] field.taper := within_of_mem (by simp)
  rw [taperScale, Exact.ofNat_one]
  exact (within_of_mem List.mem_cons_self).mix hend h₀ h₁

/-- The bulge points of a field have the scales that were given. -/
theorem scale_mem_of_build (h : build loc taper bulge twist rings = .ok field) {p : BulgePoint α}
    (hp : p ∈ field.bulge) : p.scale ∈ bulge.map BulgePoint.scale := by
  obtain ⟨-, rfl⟩ := build_eq_ok.mp h
  obtain ⟨q, hq, rfl⟩ := List.mem_map.mp ((BulgePoint.sort_perm _).mem_iff.mp hp)
  exact List.mem_map.mpr ⟨q, hq, rfl⟩

theorem bulgeScale_within (h : build loc taper bulge twist rings = .ok field) (t : α) :
    Within (bulge.map BulgePoint.scale) (field.bulgeScale t) := by
  rcases bulgeScale_cases (t := t) (fun p (_ : p ∈ field.bulge) => rfl) rfl with
    ⟨hnone, hscale⟩ | ⟨p, hp, hscale⟩ | ⟨i, p₀, p₁, hstraddles, hscale⟩
  · obtain ⟨-, rfl⟩ := build_eq_ok.mp h
    have hempty := (BulgePoint.sort_perm (bulge.map BulgePoint.clamped)).symm
    rw [show BulgePoint.sort (bulge.map BulgePoint.clamped) = [] from hnone,
      List.perm_nil, List.map_eq_nil_iff] at hempty
    rw [hscale, hempty, Exact.ofNat_one]
    exact within_nil
  · rw [hscale]
    exact within_of_mem (scale_mem_of_build h hp)
  · rw [hscale, scaleFrom_eq hstraddles.span_pos]
    exact (within_of_mem (scale_mem_of_build h hstraddles.mem_lower)).mix
      (within_of_mem (scale_mem_of_build h hstraddles.mem_upper))
      hstraddles.fraction.1 hstraddles.fraction.2

/-- A scale of the ring at a height lies between those of the rings. -/
theorem ringAt_within {component : Ring α → α} (hcomponent : component ∈ Ring.components)
    (hone : component (Ring.identity t) = 1) (field : Deformation α) :
    Within (field.rings.map component) (component (field.ringAt t)) := by
  rcases ringAt_cases (t := t) (fun r (_ : r ∈ field.rings) => rfl) rfl with
    ⟨hnone, hring⟩ | ⟨r, hr, hring⟩ | ⟨i, r₀, r₁, hstraddles, hring⟩
  · rw [hring, hnone, hone]
    exact within_nil
  · rw [hring]
    exact within_of_mem (List.mem_map_of_mem hr)
  · rw [hring, Ring.component_interpolate hcomponent]
    exact (within_of_mem (List.mem_map_of_mem hstraddles.mem_lower)).mix
      (within_of_mem (List.mem_map_of_mem hstraddles.mem_upper))
      hstraddles.fraction.1 hstraddles.fraction.2

/-! ### The cross-section -/

/-- Within a segment an accepted field scales the cross-section by no less than the least
scale of the bulge points where the taper is least, and by no more than the greatest where it
is greatest. Its two sides are scaled by no less than the least ring and by no more than the
greatest, and the cross-section never vanishes. -/
theorem evaluate_within (h : build loc taper bulge twist rings = .ok field) (h₀ : 0 ≤ t)
    (h₁ : t ≤ 1) :
    min 1 taper * leastScale (bulge.map BulgePoint.scale) ≤ (field.evaluate t).radialScale ∧
    (field.evaluate t).radialScale ≤ max 1 taper * greatestScale (bulge.map BulgePoint.scale) ∧
    Within (rings.map Ring.scaleX) (field.evaluate t).scaleX ∧
    Within (rings.map Ring.scaleY) (field.evaluate t).scaleY ∧
    0 < (field.evaluate t).radialScale ∧ 0 < (field.evaluate t).scaleX ∧
    0 < (field.evaluate t).scaleY := by
  have hbulge := bulgeScale_within h t
  obtain ⟨hacceptable, rfl⟩ := build_eq_ok.mp h
  have hscales : ∀ s ∈ bulge.map BulgePoint.scale, 0 < s := List.forall_mem_map.mpr
    fun p hp => Scalar.isPositive_iff.mp (hacceptable.bulgeSound p hp).scale
  have hwidths : ∀ s ∈ rings.map Ring.scaleX, 0 < s := List.forall_mem_map.mpr
    fun r hr => Scalar.isPositive_iff.mp (hacceptable.ringsSound r hr).scale.1
  have hdepths : ∀ s ∈ rings.map Ring.scaleY, 0 < s := List.forall_mem_map.mpr
    fun r hr => Scalar.isPositive_iff.mp (hacceptable.ringsSound r hr).scale.2
  have htapers : ∀ s ∈ [1, taper], 0 < s := by
    simpa using Scalar.isPositive_iff.mp hacceptable.taperPositive
  set field : Deformation α :=
    ⟨taper, twist, BulgePoint.sort (bulge.map BulgePoint.clamped), rings⟩
  have htaper : Within [1, taper] (field.taperScale t) := taperScale_within field h₀ h₁
  have hx : Within (rings.map Ring.scaleX) (field.ringAt t).scaleX :=
    ringAt_within (by simp [Ring.components]) Exact.ofNat_one field
  have hy : Within (rings.map Ring.scaleY) (field.ringAt t).scaleY :=
    ringAt_within (by simp [Ring.components]) Exact.ofNat_one field
  refine ⟨?_, ?_, hx, hy, mul_pos (htaper.pos htapers) (hbulge.pos hscales), hx.pos hwidths,
    hy.pos hdepths⟩
  · exact mul_le_mul htaper.least_le hbulge.least_le (leastScale_pos hscales).le
      (htaper.pos htapers).le
  · exact mul_le_mul htaper.le_greatest hbulge.le_greatest (hbulge.pos hscales).le
      ((htaper.pos htapers).le.trans htaper.le_greatest)

/-- A barrel that is twice as wide in the middle and narrows to its top, where its front is
drawn in. -/
theorem evaluate_within_barrel : ∃ field,
    build (.root "barrel") (1 / 2 : ℚ) [⟨1 / 2, 2⟩, ⟨1, 1⟩] 0
      [⟨1 / 2, 1, 3, 0, 0, 0, 0, 0⟩, ⟨1, 1, 1, 0, 0, 0, 0, 0⟩] = .ok field ∧
      0 ≤ (3 / 4 : ℚ) ∧ (3 / 4 : ℚ) ≤ 1 ∧
      min 1 (1 / 2) * leastScale [(2 : ℚ), 1] ≤ (field.evaluate (3 / 4)).radialScale ∧
      (field.evaluate (3 / 4)).radialScale ≤ max 1 (1 / 2) * greatestScale [(2 : ℚ), 1] ∧
      Within [3, 1] (field.evaluate (3 / 4)).scaleY ∧
      0 < (field.evaluate (3 / 4)).radialScale := by
  have hbuild : build (.root "barrel") (1 / 2 : ℚ) [⟨1 / 2, 2⟩, ⟨1, 1⟩] 0
      [⟨1 / 2, 1, 3, 0, 0, 0, 0, 0⟩, ⟨1, 1, 1, 0, 0, 0, 0, 0⟩] =
      .ok ⟨1 / 2, 0, [⟨1 / 2, 2⟩, ⟨1, 1⟩],
        [⟨1 / 2, 1, 3, 0, 0, 0, 0, 0⟩, ⟨1, 1, 1, 0, 0, 0, 0, 0⟩]⟩ := by
    decide +kernel
  have h₀ : 0 ≤ (3 / 4 : ℚ) := by decide +kernel
  have h₁ : (3 / 4 : ℚ) ≤ 1 := by decide +kernel
  obtain ⟨hleast, hgreatest, -, hy, hpositive, -, -⟩ := evaluate_within hbuild h₀ h₁
  exact ⟨_, hbuild, h₀, h₁, hleast, hgreatest, hy, hpositive⟩

end Mannequin.Deformation
