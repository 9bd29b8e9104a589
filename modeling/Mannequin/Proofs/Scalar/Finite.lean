import Mathlib
import Mannequin.Proofs.Scalar.Ordered

/-!
# Finite numbers and their signs

A reflection turns numbers into their opposites and multiplies them with one and with its
opposite. None of this leads out of the finite numbers: over floating point numbers such a
product is exact, so nothing is rounded and nothing overflows.
-/

namespace Mannequin

/-- Scalars whose finite numbers lie on both sides of zero alike. -/
class Scalar.Symmetric (α : Type) [Scalar α] : Prop where
  isFinite_zero : isFinite (0 : α) = true
  isFinite_neg : ∀ a : α, isFinite a = true → isFinite (-a) = true
  isFinite_mul_one : ∀ a : α, isFinite a = true → isFinite (a * 1) = true
  isFinite_mul_neg_one : ∀ a : α, isFinite a = true → isFinite (a * -1) = true
  agree_zero : Agree (0 : α) 0
  agree_neg : ∀ a : α, Agree a 0 → Agree (-a) 0

/-! ### Exact numbers -/

instance {α : Type} [Exact α] : Scalar.Symmetric α where
  isFinite_zero := rfl
  isFinite_neg _ _ := rfl
  isFinite_mul_one _ _ := rfl
  isFinite_mul_neg_one _ _ := rfl
  agree_zero := ⟨le_refl (Exact.decimal 0 0 : α), le_refl (Exact.decimal 0 0 : α)⟩
  agree_neg a h := by
    change a ≤ Exact.decimal 0 0 ∧ Exact.decimal 0 0 ≤ a at h
    change -a ≤ Exact.decimal 0 0 ∧ Exact.decimal 0 0 ≤ -a
    rw [Exact.decimal_zero] at h ⊢
    exact ⟨neg_nonpos.mpr h.2, neg_nonneg.mpr h.1⟩

/-! ### Floating point numbers -/

namespace Binary64

open Float.Model Float.Model.UnpackedFloat

/-- What bits that are no zero hold of a finite number: the mantissa has all its digits
unless the exponent is the least one. -/
structure Held (m : ℕ) (e : ℤ) : Prop where
  mantissa : m < 2 ^ 53
  least : -1074 ≤ e
  digits : 2 ^ 52 ≤ m ∨ e = -1074

variable {s s' : Sign} {m : ℕ} {e : ℤ} {hm : 0 < m}

/-- The leading digit that a mantissa is held without. -/
theorem toNat_leading (b : BitVec 52) : (1#1 ++ b).toNat = 2 ^ 52 + b.toNat := by
  rw [BitVec.toNat_append, Nat.shiftLeft_eq]
  change 1 * 2 ^ 52 ||| _ = _
  rw [Nat.one_mul, Nat.or_comm, Nat.or_two_pow_eq_add_of_lt b.isLt, Nat.add_comm]

theorem held_of_unpack {b : BitVec Format.binary64.numBits}
    (h : unpack Format.binary64 b = .finite s m e hm) : Held m e := by
  have hbias : Format.binary64.exponentBias = 1023 := rfl
  rw [UnpackedFloat.unpack] at h
  have hmantissa := (unpackMantissa b).isLt
  have hexponent := (unpackExponent b).isLt
  change (unpackMantissa b).toNat < 2 ^ 52 at hmantissa
  change (unpackExponent b).toNat < 2048 at hexponent
  simp only [hbias] at h
  split at h
  case isTrue => split at h <;> cases h
  case isFalse htop =>
    have hlow : (unpackExponent b).toNat ≠ 2047 := fun heq => htop (BitVec.eq_of_toNat_eq heq)
    split at h
    case isTrue hbottom =>
      split at h
      case isTrue => cases h
      case isFalse =>
        cases h
        have hzero : (unpackExponent b).toNat = 0 := congrArg BitVec.toNat hbottom
        exact ⟨by omega, by omega, by omega⟩
    case isFalse hbottom =>
      cases h
      have hpositive : (unpackExponent b).toNat ≠ 0 := fun heq =>
        hbottom (BitVec.eq_of_toNat_eq heq)
      have hleading : (1#1 ++ unpackMantissa b).toNat = 2 ^ 52 + (unpackMantissa b).toNat :=
        toNat_leading (unpackMantissa b)
      exact ⟨by omega, by omega, by omega⟩

theorem isFinite_unpack_iff {b : BitVec Format.binary64.numBits} :
    (unpack Format.binary64 b).isFinite = true ↔ unpackExponent b ≠ -1#_ := by
  rw [UnpackedFloat.unpack]
  simp only
  split
  case isTrue htop =>
    refine iff_of_false ?_ (not_not.mpr htop)
    split <;> exact Bool.false_ne_true
  case isFalse htop =>
    refine iff_of_true ?_ htop
    split
    · split <;> rfl
    · rfl

/-- The exponent that is put into bits does not depend on the sign. -/
theorem unpackExponent_pack (s s' : Sign) (m : ℕ) (e : ℤ) (hm : 0 < m) :
    unpackExponent (pack Format.binary64 (.finite s m e hm)) =
      unpackExponent (pack Format.binary64 (.finite s' m e hm)) := by
  rw [UnpackedFloat.pack, UnpackedFloat.pack]
  simp only [packedInfinity]
  split
  · rw [unpackExponent_packComponents, unpackExponent_packComponents]
  · split
    · rw [unpackExponent_packComponents, unpackExponent_packComponents]
    · rw [unpackExponent_packComponents, unpackExponent_packComponents]

/-- A finite number stays finite when it is put into bits with any sign. -/
theorem isFinite_pack {a : Float} (h : a.toModel.unpack = .finite s m e hm) (s' : Sign) :
    (unpack Format.binary64 (pack Format.binary64 (.finite s' m e hm))).isFinite = true := by
  have hbits : pack Format.binary64 (.finite s m e hm) = a.toModel.toBits.toBitVec := by
    rw [← h]
    exact pack_unpack_of_valid a.toModel.valid
  rw [isFinite_unpack_iff, unpackExponent_pack s' s, hbits, ← isFinite_unpack_iff]
  exact congrArg UnpackedFloat.isFinite h

theorem repeat_shiftRightOne (m n : ℕ) :
    n.repeat ExtendedMantissa.shiftRightOne ⟨m * 2 ^ n, false, false⟩ = ⟨m, false, false⟩ := by
  induction n generalizing m with
  | zero => rw [Nat.pow_zero, Nat.mul_one]; rfl
  | succ n ih =>
      have hdouble : m * 2 ^ (n + 1) = 2 * m * 2 ^ n := by
        rw [Nat.pow_succ, Nat.mul_comm 2 m, Nat.mul_assoc, Nat.mul_comm (2 ^ n)]
      rw [Nat.repeat, hdouble, ih]
      simp [ExtendedMantissa.shiftRightOne]

theorem log2_mul_two_pow (hm : 0 < m) (n : ℕ) : (m * 2 ^ n).log2 = m.log2 + n := by
  have hpower := Nat.two_pow_pos n
  refine (Nat.log2_eq_iff (Nat.mul_pos hm hpower).ne').mpr ⟨?_, ?_⟩
  · rw [Nat.pow_add]
    exact Nat.mul_le_mul_right _ (Nat.log2_self_le hm.ne')
  · rw [Nat.add_right_comm, Nat.pow_add]
    exact Nat.mul_lt_mul_of_pos_right Nat.lt_log2_self hpower

/-- Digits that are added to a mantissa and taken from its exponent do not change where its
last digit belongs. -/
theorem targetExponent_eq (h : Held m e) (hm : 0 < m) (n : ℕ) :
    Format.binary64.targetExponent (totalExponent (m * 2 ^ n) (e - n)) = e := by
  have hlog : (m * 2 ^ n).log2 = m.log2 + n := log2_mul_two_pow hm n
  have hshort : m.log2 < 53 := (Nat.log2_lt hm.ne').mpr h.mantissa
  have hfull : 52 ≤ m.log2 ∨ e = -1074 := h.digits.imp_left (Nat.le_log2 hm.ne').mpr
  have hleast : Format.binary64.minExponent = -1074 := rfl
  have hbits : (Format.binary64.mantissaBits : ℤ) = 53 := rfl
  have := h.least
  rw [Format.targetExponent, totalExponent, hlog, hleast, hbits]
  push_cast
  omega

theorem shiftToTargetExponent_eq (h : Held m e) (hm : 0 < m) (n : ℕ) :
    shiftToTargetExponent Format.binary64 (m * 2 ^ n) (e - n) .exact =
      (⟨m, false, false⟩, e) := by
  have hshift : (e - (e - n)).toNat = n := by omega
  rw [shiftToTargetExponent, targetExponent_eq h hm, shiftToExponent, hshift]
  exact Prod.ext (repeat_shiftRightOne m n) (Int.sub_add_cancel e n)

/-- Rounding takes away digits that have been added to a mantissa, and no others. -/
theorem roundWithAccuracy_eq (h : Held m e) (hm : 0 < m) (n : ℕ) :
    roundWithAccuracy Format.binary64 s (m * 2 ^ n) (e - n) .exact = .finite s m e hm := by
  have hagain := shiftToTargetExponent_eq h hm 0
  rw [Nat.pow_zero, Nat.mul_one, Nat.cast_zero, Int.sub_zero] at hagain
  rw [roundWithAccuracy, shiftToTargetExponent_eq h hm]
  have hrounded : (⟨m, false, false⟩ : ExtendedMantissa).roundedMantissa = m := rfl
  simp only [hrounded, hagain, hm.ne', dite_false]

/-- A zero stays finite when it is put into bits. -/
theorem isFinite_pack_zero (s : Sign) :
    (unpack Format.binary64 (pack Format.binary64 (.zero s))).isFinite = true := by
  cases s <;> decide

theorem isFinite_neg {a : Float} (ha : a.isFinite = true) : (-a).isFinite = true := by
  change (unpack Format.binary64 (pack Format.binary64 a.toModel.unpack.neg)).isFinite = true
  change a.toModel.unpack.isFinite = true at ha
  cases ha' : a.toModel.unpack with
  | notANumber => simp [ha', UnpackedFloat.isFinite] at ha
  | infinity s => simp [ha', UnpackedFloat.isFinite] at ha
  | zero s => exact isFinite_pack_zero (-s)
  | finite s m e hm => exact isFinite_pack ha' (-s)

/-- A product with one, or with its opposite, has the digits of the other factor. -/
theorem isFinite_mul_unit {a unit : Float} {hunit : 0 < 2 ^ 52} (ha : a.isFinite = true)
    (h : unit.toModel.unpack = .finite s (2 ^ 52) (-52) hunit) :
    (a * unit).isFinite = true := by
  change (unpack Format.binary64 (pack Format.binary64
    (UnpackedFloat.mul Format.binary64 a.toModel.unpack unit.toModel.unpack))).isFinite = true
  change a.toModel.unpack.isFinite = true at ha
  rw [h]
  cases ha' : a.toModel.unpack with
  | notANumber => simp [ha', UnpackedFloat.isFinite] at ha
  | infinity s => simp [ha', UnpackedFloat.isFinite] at ha
  | zero s' => exact isFinite_pack_zero (s' * s)
  | finite s' m e hm =>
      change (unpack Format.binary64 (pack Format.binary64
        (roundWithAccuracy _ (s' * s) (m * 2 ^ 52) (e - (52 : ℕ)) _))).isFinite = true
      rw [roundWithAccuracy_eq (held_of_unpack ha') hm]
      exact isFinite_pack ha' (s' * s)

/-- What agrees with a zero is a zero. -/
theorem unpack_of_agree {a zero : Float} (hzero : zero.toModel.unpack = .zero s)
    (h : Scalar.Agree a zero) : ∃ s', a.toModel.unpack = .zero s' := by
  have hle := (le_iff _ _).mp h.1
  have hge := (le_iff _ _).mp h.2
  rw [hzero] at hle hge
  cases ha : a.toModel.unpack with
  | zero s' => exact ⟨s', rfl⟩
  | notANumber =>
      rw [ha] at hle
      cases hle
  | infinity s' =>
      rw [ha] at hle hge
      cases s' with
      | negative => cases hge
      | positive => cases hle
  | finite s' m e hm =>
      rw [ha] at hle hge
      cases s' with
      | negative => cases hge
      | positive => cases hle

theorem agree_of_unpack {a zero : Float} (ha : a.toModel.unpack = .zero s)
    (hzero : zero.toModel.unpack = .zero s') : Scalar.Agree a zero := by
  have hle : ∀ s s', (UnpackedFloat.zero s).le (.zero s') = true := fun _ _ => rfl
  refine ⟨(le_iff _ _).mpr ?_, (le_iff _ _).mpr ?_⟩
  · rw [ha, hzero, hle]
  · rw [ha, hzero, hle]

theorem unpack_zero : (ofDecimal 0 0).toModel.unpack = .zero .positive := rfl

theorem unpack_one :
    (ofDecimal 1 0).toModel.unpack = .finite .positive (2 ^ 52) (-52) (by decide) := rfl

theorem unpack_neg_one :
    (-ofDecimal 1 0).toModel.unpack = .finite .negative (2 ^ 52) (-52) (by decide) := rfl

/-- Numbers with the same bits are the same. -/
theorem eq_of_toBits {a b : Float}
    (h : a.toModel.toBits.toBitVec = b.toModel.toBits.toBitVec) : a = b := by
  obtain ⟨⟨bits, _⟩⟩ := a
  obtain ⟨⟨bits', _⟩⟩ := b
  obtain rfl : bits = bits' := UInt64.toBitVec_inj.mp h
  rfl

/-- A product with one is the other factor. -/
theorem mul_one_of_isFinite {a : Float} (ha : a.isFinite = true) : a * ofDecimal 1 0 = a := by
  have hpositive : ∀ s : Sign, s * .positive = s := by rintro ⟨⟩ <;> rfl
  have hsame : UnpackedFloat.mul Format.binary64 a.toModel.unpack
      (.finite .positive (2 ^ 52) (-52) (by decide)) = a.toModel.unpack := by
    change a.toModel.unpack.isFinite = true at ha
    cases ha' : a.toModel.unpack with
    | notANumber => simp [ha', UnpackedFloat.isFinite] at ha
    | infinity s => simp [ha', UnpackedFloat.isFinite] at ha
    | zero s => exact congrArg UnpackedFloat.zero (hpositive s)
    | finite s m e hm =>
        change roundWithAccuracy _ (s * .positive) (m * 2 ^ 52) (e - (52 : ℕ)) _ = _
        rw [roundWithAccuracy_eq (held_of_unpack ha') hm, hpositive]
  apply eq_of_toBits
  change pack Format.binary64 (UnpackedFloat.mul Format.binary64 a.toModel.unpack _) = _
  rw [unpack_one, hsame]
  exact pack_unpack_of_valid a.toModel.valid

theorem unpack_neg_of_zero {a : Float} (ha : a.toModel.unpack = .zero s) :
    ∃ s', (-a).toModel.unpack = .zero s' := by
  change ∃ s', unpack Format.binary64 (pack Format.binary64 a.toModel.unpack.neg) = .zero s'
  rw [ha]
  cases s
  · exact ⟨.positive, rfl⟩
  · exact ⟨.negative, rfl⟩

instance : Scalar.Symmetric Float where
  isFinite_zero := rfl
  isFinite_neg _ := isFinite_neg
  isFinite_mul_one _ ha := isFinite_mul_unit ha unpack_one
  isFinite_mul_neg_one _ ha := isFinite_mul_unit ha unpack_neg_one
  agree_zero := agree_of_unpack unpack_zero unpack_zero
  agree_neg a h := by
    obtain ⟨s, hs⟩ := unpack_of_agree unpack_zero h
    obtain ⟨s', hs'⟩ := unpack_neg_of_zero hs
    exact agree_of_unpack hs' unpack_zero

end Binary64

end Mannequin
