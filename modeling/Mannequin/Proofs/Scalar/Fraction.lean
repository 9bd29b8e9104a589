import Mannequin.Proofs.Scalar.Rounding
import Mannequin.Proofs.Scalar.Total

/-!
# Fractions of a span

The part of the way between two positions that a height is at is a quotient of two rounded
differences. The first of them is not much larger than the second, however small both are:
no difference of two doubles vanishes by rounding, and each keeps its size up to a factor of
two. So the quotient is a finite number.
-/

namespace Mannequin.Binary64

open Float.Model Float.Model.UnpackedFloat

variable {s s' : Sign} {m m' : ℕ} {e e' : ℤ} {hm : 0 < m} {hm' : 0 < m'}

/-! ### Numbers by their least digits -/

/-- A number that is unpacked from bits and is finite. -/
def Proper : UnpackedFloat → Prop
  | .zero _ => True
  | .finite _ m e _ => Held m e
  | _ => False

theorem proper_of_isFinite {x : Float} (hx : x.isFinite = true) : Proper x.toModel.unpack := by
  change x.toModel.unpack.isFinite = true at hx
  cases h : x.toModel.unpack with
  | notANumber => simp [h, UnpackedFloat.isFinite] at hx
  | infinity s => simp [h, UnpackedFloat.isFinite] at hx
  | zero s => trivial
  | finite s m e hm => exact held_of_unpack h

/-- How many times the least number above zero a number is. -/
def ulps : UnpackedFloat → ℤ
  | .finite s m e _ => s.apply (m * 2 ^ (e + 1074).toNat)
  | _ => 0

theorem ulps_lt_of_exponent_lt (h : Held m e) (h' : Held m' e') (hlt : e < e') :
    m * 2 ^ (e + 1074).toNat < m' * 2 ^ (e' + 1074).toNat := by
  have hfull : 2 ^ 52 ≤ m' := h'.digits.resolve_right (by have := h.least; omega)
  have hshift : (e + 1074).toNat + 1 ≤ (e' + 1074).toNat := by
    have := h.least
    omega
  calc m * 2 ^ (e + 1074).toNat
      < 2 ^ 53 * 2 ^ (e + 1074).toNat :=
        Nat.mul_lt_mul_of_pos_right h.mantissa (Nat.two_pow_pos _)
    _ = 2 ^ 52 * 2 ^ ((e + 1074).toNat + 1) := by rw [Nat.pow_succ]; omega
    _ ≤ m' * 2 ^ (e' + 1074).toNat :=
        Nat.mul_le_mul hfull (Nat.pow_le_pow_right Nat.two_pos hshift)

/-- Numbers above zero compare by their exponents first, as their sizes do. -/
theorem ulps_le_iff (h : Held m e) (h' : Held m' e') :
    m * 2 ^ (e + 1074).toNat ≤ m' * 2 ^ (e' + 1074).toNat ↔ e < e' ∨ e = e' ∧ m ≤ m' := by
  rcases lt_trichotomy e e' with hlt | rfl | hgt
  · exact iff_of_true (ulps_lt_of_exponent_lt h h' hlt).le (.inl hlt)
  · rw [Nat.mul_le_mul_right_iff (Nat.two_pow_pos _)]
    simp
  · exact iff_of_false (ulps_lt_of_exponent_lt h' h hgt).not_ge (by omega)

theorem ulps_pos (e : ℤ) (hm : 0 < m) : 0 < (m : ℤ) * 2 ^ (e + 1074).toNat := by
  positivity

/-- Finite numbers compare as the multiples do that they are. -/
theorem le_iff_ulps_le {x y : UnpackedFloat} (hx : Proper x) (hy : Proper y) :
    x.le y = true ↔ ulps x ≤ ulps y := by
  cases x with
  | notANumber | infinity => cases hx
  | zero s =>
      cases y with
      | notANumber | infinity => cases hy
      | zero s' => exact iff_of_true rfl le_rfl
      | finite s' m' e' hm' =>
          have hpos := ulps_pos e' hm'
          rcases s' with _ | _ <;> rw [le_iff_notAbove rfl rfl] <;>
            simp only [NotAbove, ulps, Sign.apply] <;> omega
  | finite s m e hm =>
      have hpos := ulps_pos e hm
      cases y with
      | notANumber | infinity => cases hy
      | zero s' =>
          rcases s with _ | _ <;> rw [le_iff_notAbove rfl rfl] <;>
            simp only [NotAbove, ulps, Sign.apply] <;> omega
      | finite s' m' e' hm' =>
          have hpos' := ulps_pos e' hm'
          have hle : (m : ℤ) * 2 ^ (e + 1074).toNat ≤ m' * 2 ^ (e' + 1074).toNat ↔
              e < e' ∨ e = e' ∧ m ≤ m' := by
            rw [← ulps_le_iff hx hy]
            norm_cast
          have hge : (m' : ℤ) * 2 ^ (e' + 1074).toNat ≤ m * 2 ^ (e + 1074).toNat ↔
              e' < e ∨ e' = e ∧ m' ≤ m := by
            rw [← ulps_le_iff hy hx]
            norm_cast
          rcases s with _ | _ <;> rcases s' with _ | _ <;> rw [le_iff_notAbove rfl rfl] <;>
            simp only [NotAbove, ulps, Sign.apply, true_and] <;> omega

/-! ### Differences -/

/-- The multiple of the least number that a number is determines its power of two. -/
theorem totalExponent_ulps (hm : 0 < m) (he : -1074 ≤ e) :
    totalExponent (m * 2 ^ (e + 1074).toNat) (-1074) = totalExponent m e :=
  totalExponent_mul_two_pow hm (by omega)

theorem totalExponent_le (hm : 0 < m) (h : m ≤ m') :
    totalExponent m e ≤ totalExponent m' e := by
  have hlog : m.log2 ≤ m'.log2 :=
    (Nat.le_log2 (hm.trans_le h).ne').mpr ((Nat.log2_self_le hm.ne').trans h)
  rw [totalExponent, totalExponent]
  omega

/-- A number that is held needs no rounding. -/
theorem roundsTo_self (hm : 0 < m) (h : Held m e) :
    RoundsTo (m * 2 ^ (e + 1074).toNat) (-1074) m e := by
  have hsize := totalExponent_ulps hm h.least
  exact ⟨h, hsize.le, by omega⟩

/-- What a rounded difference of two numbers above zero is rounded from. -/
theorem exists_roundsTo_of_ulps {d : ℤ} {D : ℕ} (he : -1074 ≤ e) (hd : 0 < d)
    (hD : (D : ℤ) = d * 2 ^ (e + 1074).toNat) :
    ∃ s m' e' hm', UnpackedFloat.normalize Format.binary64 d e .positive = .finite s m' e' hm' ∧
      RoundsTo D (-1074) m' e' := by
  have hpos : 0 < d.toNat := by omega
  have hsize : totalExponent D (-1074) = totalExponent d.toNat e := by
    rw [← totalExponent_ulps hpos he]
    congr 1
    zify
    rw [hD, Int.toNat_of_nonneg hd.le]
  obtain ⟨m', e', hm', heq, hrounds⟩ := exists_roundsTo .positive hpos he
  have hnormalize : UnpackedFloat.normalize Format.binary64 d e .positive =
      UnpackedFloat.round Format.binary64 .positive d.toNat e := by
    rw [UnpackedFloat.normalize, compare_gt_iff_gt.mpr hd]
  rw [hnormalize]
  exact ⟨_, m', e', hm', heq, hrounds.held, hsize.trans_le hrounds.le,
    hrounds.le_succ.trans (by omega)⟩

theorem apply_mul (s : Sign) (a b : ℤ) : s.apply (a * b) = s.apply a * b := by
  cases s
  · exact (Int.neg_mul a b).symm
  · rfl

/-- The digits of a number at an exponent that is not above its own. -/
theorem apply_shiftLeft (s : Sign) (hle : e' ≤ e) (hleast : -1074 ≤ e') :
    s.apply ((m <<< (e - e').toNat : ℕ) : ℤ) * 2 ^ (e' + 1074).toNat =
      s.apply (m * 2 ^ (e + 1074).toNat) := by
  have hshift : (e + 1074).toNat = (e - e').toNat + (e' + 1074).toNat := by omega
  rw [← apply_mul, Nat.shiftLeft_eq, hshift, pow_add]
  push_cast
  rw [mul_assoc]

/-- Numbers other than zero are subtracted at the lesser of their exponents, and rounded. -/
theorem exists_sub_finite (hx : Held m' e') (hy : Held m e)
    (h : ulps (.finite s' m' e' hm') < ulps (.finite s m e hm)) :
    ∃ s₁ m₁ e₁ hm₁, UnpackedFloat.sub Format.binary64 (.finite s m e hm) (.finite s' m' e' hm') =
        .finite s₁ m₁ e₁ hm₁ ∧
      RoundsTo (ulps (.finite s m e hm) - ulps (.finite s' m' e' hm')).toNat (-1074) m₁ e₁ := by
  let least := min e e'
  let d : ℤ := s.apply ((m <<< (e - least).toNat : ℕ) : ℤ) -
    s'.apply ((m' <<< (e' - least).toNat : ℕ) : ℤ)
  have hleast : -1074 ≤ least := le_min hy.least hx.least
  have hscaled : d * 2 ^ (least + 1074).toNat =
      ulps (.finite s m e hm) - ulps (.finite s' m' e' hm') := by
    rw [Int.sub_mul, apply_shiftLeft s (min_le_left e e') hleast,
      apply_shiftLeft s' (min_le_right e e') hleast]
    rfl
  have hd : 0 < d := by
    have hpower : (0 : ℤ) < 2 ^ (least + 1074).toNat := by positivity
    rw [← mul_pos_iff_of_pos_right hpower, hscaled]
    exact sub_pos.mpr h
  refine exists_roundsTo_of_ulps hleast hd ?_
  rw [hscaled, Int.toNat_of_nonneg (sub_pos.mpr h).le]

/-- The difference of two numbers in order is rounded to a number that is not zero. -/
theorem exists_sub {x y : UnpackedFloat} (hx : Proper x) (hy : Proper y) (h : ulps x < ulps y) :
    ∃ s m e hm, UnpackedFloat.sub Format.binary64 y x = .finite s m e hm ∧
      RoundsTo (ulps y - ulps x).toNat (-1074) m e := by
  cases y with
  | notANumber | infinity => cases hy
  | zero s =>
      cases x with
      | notANumber | infinity => cases hx
      | zero s' => exact absurd h (lt_irrefl _)
      | finite s' m' e' hm' =>
          have hpos := ulps_pos e' hm'
          refine ⟨_, m', e', hm', rfl, ?_⟩
          have hD : (ulps (.zero s) - ulps (.finite s' m' e' hm')).toNat =
              m' * 2 ^ (e' + 1074).toNat := by
            zify
            rcases s' with _ | _ <;> simp only [ulps, Sign.apply] at h ⊢ <;> omega
          rw [hD]
          exact roundsTo_self hm' hx
  | finite s m e hm =>
      cases x with
      | notANumber | infinity => cases hx
      | zero s' =>
          have hpos := ulps_pos e hm
          refine ⟨_, m, e, hm, rfl, ?_⟩
          have hD : (ulps (.finite s m e hm) - ulps (.zero s')).toNat =
              m * 2 ^ (e + 1074).toNat := by
            zify
            rcases s with _ | _ <;> simp only [ulps, Sign.apply] at h ⊢ <;> omega
          rw [hD]
          exact roundsTo_self hm hy
      | finite s' m' e' hm' => exact exists_sub_finite hx hy h

/-- Rounded differences of numbers that do not lie far apart are finite. -/
theorem exists_unpack_sub {x y : Float} (hx : x.isFinite = true) (hy : y.isFinite = true)
    (h : ulps x.toModel.unpack < ulps y.toModel.unpack)
    (hnear : ulps y.toModel.unpack - ulps x.toModel.unpack ≤ 2 ^ 1074) :
    ∃ s m e hm, (y - x).toModel.unpack = .finite s m e hm ∧
      RoundsTo (ulps y.toModel.unpack - ulps x.toModel.unpack).toNat (-1074) m e := by
  obtain ⟨s, m, e, hm, heq, hrounds⟩ :=
    exists_sub (proper_of_isFinite hx) (proper_of_isFinite hy) h
  have hlog : (ulps y.toModel.unpack - ulps x.toModel.unpack).toNat.log2 < 1075 :=
    (Nat.log2_lt (by omega)).mpr (by omega)
  have he : e ≤ 971 := by
    have hfull : 52 ≤ m.log2 ∨ e = -1074 := hrounds.held.digits.imp_left (Nat.le_log2 hm.ne').mpr
    have hsize := hrounds.le_succ
    rw [totalExponent, totalExponent] at hsize
    omega
  obtain ⟨s', hunpack⟩ : ∃ s', unpack Format.binary64 (pack Format.binary64
      (.finite s m e hm)) = .finite s' m e hm := unpack_pack_of_held hrounds.held he
  refine ⟨s', m, e, hm, ?_, hrounds⟩
  change unpack Format.binary64 (pack Format.binary64
    (UnpackedFloat.sub Format.binary64 y.toModel.unpack x.toModel.unpack)) = _
  rw [heq, hunpack]

/-! ### Quotients -/

/-- A quotient that is not zero has as many digits more than its divisor lacks. -/
theorem log2_div_le (hm : 0 < m) (hm' : 0 < m') (h : m / m' ≠ 0) :
    (m / m').log2 + m'.log2 ≤ m.log2 := by
  refine (Nat.le_log2 hm.ne').mpr ?_
  calc 2 ^ ((m / m').log2 + m'.log2)
      = 2 ^ (m / m').log2 * 2 ^ m'.log2 := Nat.pow_add ..
    _ ≤ m / m' * m' := Nat.mul_le_mul (Nat.log2_self_le h) (Nat.log2_self_le hm'.ne')
    _ ≤ m := Nat.div_mul_le_self ..

/-- What a number is divided by limits the size of the quotient, to whatever digit it is
computed. -/
theorem totalExponent_div_le (hm : 0 < m) (hm' : 0 < m') {least : ℤ} (hle : least ≤ e - e')
    (h : totalExponent m e ≤ totalExponent m' e' + 1) (hleast : least ≤ 1) :
    totalExponent (m * 2 ^ (e - e' - least).toNat / m') least ≤ 2 := by
  rw [totalExponent, totalExponent] at h
  by_cases hzero : m * 2 ^ (e - e' - least).toNat / m' = 0
  · rw [totalExponent, hzero]
    change ((0 : ℕ) : ℤ) + 1 + least ≤ 2
    omega
  · have hlog := log2_div_le (Nat.mul_pos hm (Nat.two_pow_pos _)) hm' hzero
    rw [log2_mul_two_pow hm] at hlog
    rw [totalExponent]
    omega

/-- What is small before it is rounded stays finite. -/
theorem isFinite_pack_roundWithAccuracy (s : Sign) (accuracy : Accuracy)
    (h : e + shiftAmount m e ≤ 970) :
    (unpack Format.binary64 (pack Format.binary64
      (roundWithAccuracy Format.binary64 s m e accuracy))).isFinite = true := by
  obtain ⟨r, -, ⟨-, heq⟩ | ⟨hr, -, heq⟩ | ⟨-, heq⟩⟩ := roundWithAccuracy_cases s m e accuracy
  · rw [heq]
    exact isFinite_pack_zero s
  · rw [heq]
    exact isFinite_pack_of_le (by omega)
  · rw [heq]
    exact isFinite_pack_of_le (by omega)

/-- A number divided by one that is not much smaller is finite. -/
theorem isFinite_div {x y : Float} (hx : x.toModel.unpack = .finite s m e hm)
    (hy : y.toModel.unpack = .finite s' m' e' hm')
    (h : totalExponent m e ≤ totalExponent m' e' + 1) : (x / y).isFinite = true := by
  let least := min (e - e')
    (Format.binary64.targetExponent (totalExponent m e - totalExponent m' e'))
  have hleast : least ≤ -52 := by
    refine (min_le_right _ _).trans ?_
    rw [targetExponent_def]
    omega
  have hsize : totalExponent (m * 2 ^ (e - e' - least).toNat / m') least ≤ 2 :=
    totalExponent_div_le hm hm' (min_le_left _ _) h (by omega)
  change (unpack Format.binary64 (pack Format.binary64
    (UnpackedFloat.div Format.binary64 x.toModel.unpack y.toModel.unpack))).isFinite = true
  rw [hx, hy]
  change (unpack Format.binary64 (pack Format.binary64 (roundWithAccuracy Format.binary64 (s / s')
    (m <<< (e - e' - least).toNat / m') least _))).isFinite = true
  rw [Nat.shiftLeft_eq]
  refine isFinite_pack_roundWithAccuracy _ _ ?_
  rw [shiftAmount, targetExponent_def]
  omega

theorem ulps_one : ulps (ofDecimal 1 0).toModel.unpack = 2 ^ 1074 := by
  rw [unpack_one]
  change ((2 ^ 52 : ℕ) : ℤ) * 2 ^ 1022 = 2 ^ (52 + 1022)
  rw [pow_add]
  rfl

/-- The part of the way between two positions within the segment that a height is at is a
finite number. -/
theorem isFinite_fraction {x t y : Float} (hx : x.isFinite = true) (ht : t.isFinite = true)
    (hy : y.isFinite = true) (hlow : ofDecimal 0 0 ≤ x) (hxt : x < t) (hty : t ≤ y)
    (hhigh : y ≤ ofDecimal 1 0) : ((t - x) / (y - x)).isFinite = true := by
  have hle : ∀ {a b : Float}, a.isFinite = true → b.isFinite = true →
      (a ≤ b ↔ ulps a.toModel.unpack ≤ ulps b.toModel.unpack) := fun ha hb =>
    (le_iff _ _).trans (le_iff_ulps_le (proper_of_isFinite ha) (proper_of_isFinite hb))
  have hzero : 0 ≤ ulps x.toModel.unpack := (hle rfl hx).mp hlow
  have hone : ulps y.toModel.unpack ≤ 2 ^ 1074 := ((hle hy rfl).mp hhigh).trans_eq ulps_one
  have hbelow : ulps x.toModel.unpack < ulps t.toModel.unpack :=
    lt_of_not_ge (mt (hle ht hx).mpr (not_le_of_lt hxt))
  have habove : ulps t.toModel.unpack ≤ ulps y.toModel.unpack := (hle ht hy).mp hty
  obtain ⟨s, m, e, hm, heq, hrounds⟩ := exists_unpack_sub hx ht hbelow (by omega)
  obtain ⟨s', m', e', hm', heq', hrounds'⟩ :=
    exists_unpack_sub hx hy (hbelow.trans_le habove) (by omega)
  refine isFinite_div heq heq' ?_
  calc totalExponent m e ≤ totalExponent _ (-1074) + 1 := hrounds.le_succ
    _ ≤ totalExponent _ (-1074) + 1 :=
      Int.add_le_add_right (totalExponent_le (by omega) (by omega)) 1
    _ ≤ totalExponent m' e' + 1 := Int.add_le_add_right hrounds'.le 1

end Mannequin.Binary64
