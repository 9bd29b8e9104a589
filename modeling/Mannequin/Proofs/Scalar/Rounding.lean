import Mannequin.Proofs.Scalar.Finite

/-!
# Rounding

Rounding a number to the digits that a double holds changes its size little: it keeps the
power of two below it, or goes up to the next one. This is enough to see that a number
divided by one that is not much smaller does not overflow.
-/

namespace Mannequin.Binary64

open Float.Model Float.Model.UnpackedFloat

variable {s s' : Sign} {m m' : ℕ} {e e' : ℤ} {hm : 0 < m} {hm' : 0 < m'}

/-! ### Shifting -/

theorem mantissa_shiftRight (em : ExtendedMantissa) (k : ℕ) :
    (em >>> k).mantissa = em.mantissa / 2 ^ k := by
  change (k.repeat ExtendedMantissa.shiftRightOne em).mantissa = _
  induction k with
  | zero => rw [Nat.pow_zero, Nat.div_one]; rfl
  | succ k ih =>
      change (k.repeat ExtendedMantissa.shiftRightOne em).mantissa / 2 = _
      rw [ih, Nat.div_div_eq_div_mul, Nat.pow_succ]

theorem roundedMantissa_bounds (em : ExtendedMantissa) :
    em.mantissa ≤ em.roundedMantissa ∧ em.roundedMantissa ≤ em.mantissa + 1 := by
  have hhalf := Nat.mod_lt em.mantissa Nat.two_pos
  rcases em with ⟨m, _ | _, _ | _⟩ <;>
    simp only [ExtendedMantissa.roundedMantissa, ExtendedMantissa.accuracy,
      Accuracy.roundToNearestEven] <;> omega

/-- How far digits are shifted out of a mantissa. -/
def shiftAmount (m : ℕ) (e : ℤ) : ℕ :=
  (Format.binary64.targetExponent (totalExponent m e) - e).toNat

theorem targetExponent_def (t : ℤ) :
    Format.binary64.targetExponent t = max (t - 53) (-1074) := rfl

/-- Not more than one digit too many is left, and the exponent is not below the least. -/
theorem shiftAmount_spec (m : ℕ) (e : ℤ) :
    (m.log2 : ℤ) + e ≤ e + shiftAmount m e + 52 ∧ -1074 ≤ e + shiftAmount m e := by
  rw [shiftAmount, targetExponent_def, totalExponent]
  omega

theorem mantissa_shiftToTargetExponent (m : ℕ) (e : ℤ) (accuracy : Accuracy) :
    (shiftToTargetExponent Format.binary64 m e accuracy).1.mantissa = m / 2 ^ shiftAmount m e := by
  rw [shiftToTargetExponent, shiftToExponent]
  refine (mantissa_shiftRight _ _).trans ?_
  rcases accuracy with _ | ⟨_ | _ | _⟩ <;> rfl

/-- What a mantissa is rounded to, with the exponent it then has. -/
structure Rounded (m : ℕ) (e : ℤ) (r : ℕ) : Prop where
  floor_le : m / 2 ^ shiftAmount m e ≤ r
  le_floor : r ≤ m / 2 ^ shiftAmount m e + 1

theorem Rounded.le (h : Rounded m e m') : m' ≤ 2 ^ 53 := by
  have hlog : m.log2 + 1 ≤ 53 + shiftAmount m e := by
    have := (shiftAmount_spec m e).1
    omega
  have hlt : m / 2 ^ shiftAmount m e < 2 ^ 53 := by
    rw [Nat.div_lt_iff_lt_mul (Nat.two_pow_pos _), ← Nat.pow_add]
    exact Nat.lt_log2_self.trans_le (Nat.pow_le_pow_right Nat.two_pos hlog)
  exact h.le_floor.trans hlt

/-- A mantissa that fits is left as it is. -/
theorem shiftToTargetExponent_of_lt (hlt : m < 2 ^ 53) (he : -1074 ≤ e) :
    shiftToTargetExponent Format.binary64 m e .exact = (⟨m, false, false⟩, e) := by
  have hlog : m.log2 < 53 := by
    rcases Nat.eq_zero_or_pos m with rfl | hm
    · decide
    · exact (Nat.log2_lt hm.ne').mpr hlt
  have hamount : shiftAmount m e = 0 := by
    rw [shiftAmount, targetExponent_def, totalExponent]
    omega
  rw [shiftToTargetExponent, shiftToExponent]
  change (ExtendedMantissa.mk m false false >>> shiftAmount m e, e + (shiftAmount m e : ℤ)) = _
  rw [hamount]
  exact Prod.ext rfl (add_zero e)

/-- A mantissa that is one digit too long loses its last one, which is a zero. -/
theorem shiftToTargetExponent_of_eq (he : -1074 ≤ e) :
    shiftToTargetExponent Format.binary64 (2 ^ 53) e .exact = (⟨2 ^ 52, false, false⟩, e + 1) := by
  have hamount : shiftAmount (2 ^ 53) e = 1 := by
    rw [shiftAmount, targetExponent_def, totalExponent, Nat.log2_two_pow]
    omega
  rw [shiftToTargetExponent, shiftToExponent]
  change (ExtendedMantissa.mk (2 ^ 53) false false >>> shiftAmount (2 ^ 53) e,
    e + (shiftAmount (2 ^ 53) e : ℤ)) = _
  rw [hamount]
  rfl

/-- Rounding is to a mantissa that fits, or to one digit more, which is then taken away. -/
theorem roundWithAccuracy_cases (s : Sign) (m : ℕ) (e : ℤ) (accuracy : Accuracy) :
    ∃ r, Rounded m e r ∧
      ((r = 0 ∧ roundWithAccuracy Format.binary64 s m e accuracy = .zero s) ∨
      (∃ hr : 0 < r, r < 2 ^ 53 ∧ roundWithAccuracy Format.binary64 s m e accuracy =
        .finite s r (e + shiftAmount m e) hr) ∨
      (r = 2 ^ 53 ∧ roundWithAccuracy Format.binary64 s m e accuracy =
        .finite s (2 ^ 52) (e + shiftAmount m e + 1) (Nat.two_pow_pos 52))) := by
  let first := shiftToTargetExponent Format.binary64 m e accuracy
  have hmantissa : first.1.mantissa = m / 2 ^ shiftAmount m e :=
    mantissa_shiftToTargetExponent m e accuracy
  have hexponent : first.2 = e + shiftAmount m e := rfl
  have hrounded : Rounded m e first.1.roundedMantissa := by
    obtain ⟨hlow, hhigh⟩ := roundedMantissa_bounds first.1
    rw [hmantissa] at hlow hhigh
    exact ⟨hlow, hhigh⟩
  have hleast : -1074 ≤ first.2 := (shiftAmount_spec m e).2
  refine ⟨first.1.roundedMantissa, hrounded, ?_⟩
  have hround : ∀ again, shiftToTargetExponent Format.binary64 first.1.roundedMantissa first.2
      .exact = again → roundWithAccuracy Format.binary64 s m e accuracy =
        if h : again.1.mantissa = 0 then .zero s
        else .finite s again.1.mantissa again.2 (Nat.pos_of_ne_zero h) := by
    rintro _ rfl
    rfl
  rcases hrounded.le.lt_or_eq with hlt | heq
  · rw [hround _ (shiftToTargetExponent_of_lt hlt hleast)]
    rcases Nat.eq_zero_or_pos first.1.roundedMantissa with hzero | hpos
    · exact .inl ⟨hzero, dif_pos hzero⟩
    · exact .inr (.inl ⟨hpos, hlt, dif_neg hpos.ne'⟩)
  · rw [hround _ (heq ▸ shiftToTargetExponent_of_eq hleast)]
    exact .inr (.inr ⟨heq, rfl⟩)

/-! ### Putting numbers into bits -/

/-- The bits of a finite number with an exponent that fits. -/
theorem pack_of_le (he : e ≤ 971) :
    pack Format.binary64 (.finite s m e hm) =
      if m.log2 + 1 = 53 then
        packComponents Format.binary64 s (BitVec.ofNat 11 (e + 1075).toNat) (BitVec.ofNat 52 m)
      else packComponents Format.binary64 s (0#11) (BitVec.ofNat 52 m) := by
  have hbias : (e + Format.binary64.exponentBias + (52 : ℕ)).toNat = (e + 1075).toNat := by
    change (e + (1023 : ℕ) + (52 : ℕ)).toNat = _
    omega
  rw [UnpackedFloat.pack]
  simp only [hbias]
  exact if_neg (by omega)

/-- A number whose exponent fits stays finite. -/
theorem isFinite_pack_of_le (he : e ≤ 971) :
    (unpack Format.binary64 (pack Format.binary64 (.finite s m e hm))).isFinite = true := by
  have htop : BitVec.ofNat 11 (e + 1075).toNat ≠ -1#11 := by
    intro h
    have hval : (e + 1075).toNat % 2 ^ 11 = 2047 := congrArg BitVec.toNat h
    omega
  rw [isFinite_unpack_iff, pack_of_le he]
  split
  · rw [unpackExponent_packComponents]
    exact htop
  · rw [unpackExponent_packComponents]
    decide

/-- A mantissa that has all its digits is read back from bits that leave the first one out. -/
theorem unpack_packComponents_of_full (h : Held m e) (he : e ≤ 971) (hlow : 2 ^ 52 ≤ m)
    (hm : 0 < m) (s : Sign) :
    ∃ s', unpack Format.binary64 (packComponents Format.binary64 s
      (BitVec.ofNat 11 (e + 1075).toNat) (BitVec.ofNat 52 m)) = .finite s' m e hm := by
  have := h.least
  have := h.mantissa
  have hbias : ((Format.binary64.exponentBias : ℕ) : ℤ) = 1023 := rfl
  have hexponent : (BitVec.ofNat 11 (e + 1075).toNat).toNat = (e + 1075).toNat := by
    rw [BitVec.toNat_ofNat]
    omega
  have htop : BitVec.ofNat 11 (e + 1075).toNat ≠ -1#11 := fun heq => by
    have hval : _ = 2047 := congrArg BitVec.toNat heq
    omega
  have hbottom : BitVec.ofNat 11 (e + 1075).toNat ≠ 0#11 := fun heq => by
    have hval : _ = 0 := congrArg BitVec.toNat heq
    omega
  have hmantissa : (1#1 ++ BitVec.ofNat 52 m).toNat = m := by
    rw [toNat_leading, BitVec.toNat_ofNat]
    omega
  rw [UnpackedFloat.unpack]
  simp only [unpackMantissa_packComponents, unpackExponent_packComponents]
  rw [if_neg htop, if_neg hbottom]
  simp only [hmantissa, hexponent, hbias]
  refine ⟨_, congrArg (fun e => UnpackedFloat.finite _ m e hm) ?_⟩
  push_cast
  omega

/-- A mantissa that lacks digits is read back with the least exponent. -/
theorem unpack_packComponents_of_short (hlow : m < 2 ^ 52) (hm : 0 < m) (s : Sign) :
    ∃ s', unpack Format.binary64 (packComponents Format.binary64 s (0#11) (BitVec.ofNat 52 m)) =
      .finite s' m (-1074) hm := by
  have hmantissa : (BitVec.ofNat 52 m).toNat = m := Nat.mod_eq_of_lt hlow
  have hne : BitVec.ofNat 52 m ≠ 0#52 := fun heq =>
    hm.ne' (hmantissa.symm.trans (congrArg BitVec.toNat heq))
  rw [UnpackedFloat.unpack]
  simp only [unpackMantissa_packComponents, unpackExponent_packComponents]
  rw [if_neg (by decide), if_pos trivial, dif_neg hne]
  simp only [hmantissa]
  exact ⟨_, rfl⟩

/-- A number that fits is read back with its mantissa and its exponent. -/
theorem unpack_pack_of_held (h : Held m e) (he : e ≤ 971) :
    ∃ s', unpack Format.binary64 (pack Format.binary64 (.finite s m e hm)) =
      .finite s' m e hm := by
  have hlog : m.log2 < 53 := (Nat.log2_lt hm.ne').mpr h.mantissa
  rw [pack_of_le he]
  split
  case isTrue hfull =>
    have hlow : 2 ^ 52 ≤ m := (Nat.le_log2 hm.ne').mp (by omega)
    exact unpack_packComponents_of_full h he hlow hm s
  case isFalse hshort =>
    have hlow : m < 2 ^ 52 := (Nat.log2_lt hm.ne').mp (by omega)
    obtain rfl : e = -1074 := h.digits.resolve_left hlow.not_ge
    exact unpack_packComponents_of_short hlow hm s

/-! ### Sizes -/

/-- Digits that are added to a mantissa and taken from its exponent leave its size as it is. -/
theorem totalExponent_mul_two_pow (hm : 0 < m) {n : ℕ} (h : e' + n = e) :
    totalExponent (m * 2 ^ n) e' = totalExponent m e := by
  rw [totalExponent, totalExponent, log2_mul_two_pow hm]
  push_cast
  omega

/-- A mantissa that has digits enough for its exponent is held as it is. -/
theorem held_of_target (hm : 0 < m)
    (h : Format.binary64.targetExponent (totalExponent m e) = e) : Held m e := by
  rw [targetExponent_def, totalExponent] at h
  have hlog : m.log2 < 53 := by omega
  refine ⟨(Nat.log2_lt hm.ne').mp hlog, by omega, ?_⟩
  by_cases hleast : e = -1074
  · exact .inr hleast
  · exact .inl ((Nat.le_log2 hm.ne').mp (by omega))

/-- What a number above zero is rounded to. It keeps the power of two below it, or goes up to
the next one. -/
structure RoundsTo (m : ℕ) (e : ℤ) (m' : ℕ) (e' : ℤ) : Prop where
  held : Held m' e'
  le : totalExponent m e ≤ totalExponent m' e'
  le_succ : totalExponent m' e' ≤ totalExponent m e + 1

/-- Rounding to fewer digits leaves a number that is held. -/
theorem exists_roundsTo_of_lt (hm : 0 < m) (he : -1074 ≤ e)
    (hlt : e < Format.binary64.targetExponent (totalExponent m e)) :
    ∃ m' e' hm', roundWithAccuracy Format.binary64 s m e .exact = .finite s m' e' hm' ∧
      RoundsTo m e m' e' := by
  have hlog : (m.log2 : ℤ) = 52 + shiftAmount m e ∧ 0 < shiftAmount m e := by
    rw [shiftAmount, targetExponent_def, totalExponent] at *
    omega
  have hfloor : 2 ^ 52 ≤ m / 2 ^ shiftAmount m e := by
    rw [Nat.le_div_iff_mul_le (Nat.two_pow_pos _), ← Nat.pow_add]
    refine (Nat.le_log2 hm.ne').mp ?_
    omega
  obtain ⟨r, hrounded, h⟩ := roundWithAccuracy_cases s m e .exact
  have hlow : 2 ^ 52 ≤ r := hfloor.trans hrounded.floor_le
  rcases h with ⟨rfl, -⟩ | ⟨hr, hfits, heq⟩ | ⟨rfl, heq⟩
  · cases hlow
  · have hrlog : r.log2 = 52 :=
      (Nat.log2_eq_iff hr.ne').mpr ⟨hlow, hfits⟩
    refine ⟨r, _, hr, heq, ⟨hfits, by omega, .inl hlow⟩, ?_, ?_⟩ <;>
      rw [totalExponent, totalExponent] <;> omega
  · refine ⟨2 ^ 52, _, _, heq, ⟨by decide, by omega, .inl le_rfl⟩, ?_, ?_⟩ <;>
      rw [totalExponent, totalExponent, Nat.log2_two_pow] <;> omega

theorem exists_roundsTo (s : Sign) (hm : 0 < m) (he : -1074 ≤ e) :
    ∃ m' e' hm', UnpackedFloat.round Format.binary64 s m e = .finite s m' e' hm' ∧
      RoundsTo m e m' e' := by
  let t := Format.binary64.targetExponent (totalExponent m e)
  have hround : UnpackedFloat.round Format.binary64 s m e =
      roundWithAccuracy Format.binary64 s (m * 2 ^ (e - t).toNat) (e - (e - t).toNat) .exact := by
    rw [← Nat.shiftLeft_eq]
    rfl
  have hsize : totalExponent (m * 2 ^ (e - t).toNat) (e - (e - t).toNat) = totalExponent m e :=
    totalExponent_mul_two_pow hm (Int.sub_add_cancel ..)
  have hpos : 0 < m * 2 ^ (e - t).toNat := Nat.mul_pos hm (Nat.two_pow_pos _)
  rw [hround]
  rcases le_or_gt t e with hle | hlt
  · have hexponent : e - ((e - t).toNat : ℤ) = t := by omega
    rw [hexponent] at hsize ⊢
    have hheld : Held (m * 2 ^ (e - t).toNat) t :=
      held_of_target hpos (congrArg Format.binary64.targetExponent hsize)
    have heq : roundWithAccuracy Format.binary64 s _ _ .exact = _ :=
      roundWithAccuracy_eq hheld hpos 0
    rw [Nat.pow_zero, Nat.mul_one, Nat.cast_zero, Int.sub_zero] at heq
    exact ⟨_, _, hpos, heq, hheld, hsize.ge, by omega⟩
  · have hnone : (e - t).toNat = 0 := by omega
    rw [hnone, Nat.pow_zero, Nat.mul_one, Nat.cast_zero, Int.sub_zero]
    exact exists_roundsTo_of_lt hm he hlt

end Mannequin.Binary64
