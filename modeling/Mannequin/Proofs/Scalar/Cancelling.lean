import Mannequin.Proofs.Scalar.Fraction

/-!
# Numbers that cancel

Numbers that agree cancel each other, what agrees with zero is lost in a sum and takes a
product with it, and the part of the way between two positions that a height is at is a
finite number. Over floating point numbers all of this is so although sums and quotients are
rounded, and although a zero has two signs.
-/

namespace Mannequin

/-- Scalars whose finite numbers compare, and cancel each other where they agree. -/
class Scalar.Cancelling (α : Type) [Scalar α] : Prop
    extends Scalar.Total α, Scalar.Ordered α, Scalar.Symmetric α where
  agree_refl : ∀ a : α, isFinite a = true → Agree a a
  sub_agree : ∀ a b c : α, isFinite c = true → Agree a c → Agree b c → Agree (b - a) 0
  add_agree : ∀ a c z : α, isFinite c = true → Agree a c → Agree z 0 → Agree (a + z) c
  mul_agree_zero : ∀ z f : α, Agree z 0 → isFinite f = true → Agree (z * f) 0
  mul_agree_one : ∀ a b : α, Agree a 1 → Agree b 1 → Agree (a * b) 1
  radians_agree_zero : ∀ a : α, Agree a 0 → Agree (radians a) 0
  isFinite_fraction : ∀ x t y : α, isFinite x = true → isFinite t = true → isFinite y = true →
    0 ≤ x → x < t → t ≤ y → y ≤ 1 → isFinite ((t - x) / (y - x)) = true

/-! ### Exact numbers -/

namespace Exact

variable {α : Type} [Exact α]

instance : Scalar.Cancelling α where
  agree_refl _ _ := agree_iff.mpr rfl
  sub_agree a b c _ ha hb := by
    rw [ofNat_zero, agree_iff] at *
    rw [ha, hb, sub_self]
  add_agree a c z _ ha hz := by
    rw [ofNat_zero, agree_iff] at hz
    rw [agree_iff] at *
    rw [ha, hz, add_zero]
  mul_agree_zero z f hz _ := by
    rw [ofNat_zero, agree_iff] at *
    rw [hz, zero_mul]
  mul_agree_one a b ha hb := by
    rw [ofNat_one, agree_iff] at *
    rw [ha, hb, mul_one]
  radians_agree_zero a ha := by
    rw [ofNat_zero, agree_iff] at *
    rw [Scalar.radians, ha, zero_mul, zero_div]
  isFinite_fraction _ _ _ _ _ _ _ _ _ _ := rfl

end Exact

/-! ### Floating point numbers -/

namespace Binary64

open Float.Model Float.Model.UnpackedFloat

variable {s s' : Sign} {m : ℕ} {e : ℤ} {hm : 0 < m}

/-- Finite numbers that differ in nothing but the sign of a zero. -/
inductive Same : UnpackedFloat → UnpackedFloat → Prop
  | zero (s s' : Sign) : Same (.zero s) (.zero s')
  | digits (s : Sign) (m : ℕ) (e : ℤ) (hm : 0 < m) : Same (.finite s m e hm) (.finite s m e hm)

/-- Numbers that are not below each other have one place in the order. -/
theorem rank_eq_of_le {x y : UnpackedFloat} (hle : x.le y = true) (hge : y.le x = true) :
    rank x = rank y := by
  obtain ⟨a, b, ha, hb⟩ := exists_rank_of_le hle
  rw [le_iff_notAbove ha hb] at hle
  rw [le_iff_notAbove hb ha] at hge
  have hab : a = b := by
    unfold NotAbove at hle hge
    ext <;> omega
  rw [ha, hb, hab]

/-- Finite numbers have their place in the order to themselves, but for the two zeros. -/
theorem same_of_rank_eq {x y : UnpackedFloat} (hy : y.isFinite = true) (h : rank x = rank y) :
    Same x y := by
  cases y with
  | notANumber | infinity => cases hy
  | zero s' =>
      rcases x with ⟨⟨⟩⟩ | _ | s | ⟨⟨⟩, m, e, hm⟩ <;> simp [rank] at h
      exact .zero s s'
  | finite s' m' e' hm' =>
      rcases x with ⟨⟨⟩⟩ | _ | s | ⟨⟨⟩, m, e, hm⟩ <;> rcases s' with _ | _ <;> simp [rank] at h
      all_goals
        obtain ⟨rfl, rfl⟩ := h
        exact .digits _ _ _ _

theorem Same.le {x y : UnpackedFloat} (h : Same x y) : x.le y = true ∧ y.le x = true := by
  cases h with
  | zero s s' => exact ⟨rfl, rfl⟩
  | digits s m e hm =>
      have hrefl : (UnpackedFloat.finite s m e hm).le (.finite s m e hm) = true := by
        rcases s with _ | _ <;> rw [le_iff_notAbove rfl rfl] <;>
          exact .inr ⟨rfl, .inr ⟨rfl, le_rfl⟩⟩
      exact ⟨hrefl, hrefl⟩

theorem agree_iff_same {a c : Float} (hc : c.isFinite = true) :
    Scalar.Agree a c ↔ Same a.toModel.unpack c.toModel.unpack := by
  constructor
  · intro h
    exact same_of_rank_eq hc (rank_eq_of_le ((le_iff _ _).mp h.1) ((le_iff _ _).mp h.2))
  · intro h
    exact ⟨(le_iff _ _).mpr h.le.1, (le_iff _ _).mpr h.le.2⟩

theorem same_self {a : Float} (ha : a.isFinite = true) :
    Same a.toModel.unpack a.toModel.unpack := same_of_rank_eq ha rfl

theorem unpack_pack_unpack (a : Float) :
    unpack Format.binary64 (pack Format.binary64 a.toModel.unpack) = a.toModel.unpack :=
  congrArg (unpack Format.binary64) (pack_unpack_of_valid a.toModel.valid)

theorem agree_zero_iff {a : Float} :
    Scalar.Agree a (ofDecimal 0 0) ↔ ∃ s, a.toModel.unpack = .zero s :=
  ⟨unpack_of_agree unpack_zero, fun ⟨_, h⟩ => agree_of_unpack h unpack_zero⟩

/-- A zero that is put into bits agrees with zero. -/
theorem agree_zero_of_pack {a : Float} {x : UnpackedFloat} (hx : ∃ s, x = .zero s)
    (h : a.toModel.unpack = unpack Format.binary64 (pack Format.binary64 x)) :
    Scalar.Agree a (ofDecimal 0 0) := by
  obtain ⟨s, rfl⟩ := hx
  refine agree_zero_iff.mpr ⟨s, h.trans ?_⟩
  cases s <;> rfl

/-- Numbers that differ in nothing but the sign of a zero cancel each other. -/
theorem Same.exists_sub_eq_zero {x y z : UnpackedFloat} (hx : Same x z) (hy : Same y z) :
    ∃ s, UnpackedFloat.sub Format.binary64 y x = .zero s := by
  cases hx with
  | zero s s' =>
      cases hy with
      | zero s'' => cases s <;> cases s'' <;> exact ⟨_, rfl⟩
  | digits s m e hm =>
      cases hy with
      | digits =>
          refine ⟨.positive, ?_⟩
          rw [UnpackedFloat.sub]
          simp only [sub_self]
          rfl

/-- A zero is lost in a sum. -/
theorem Same.add_zero {x z : UnpackedFloat} (h : Same x z) (s : Sign) :
    (∃ s' s'', UnpackedFloat.add Format.binary64 x (.zero s) = .zero s' ∧ z = .zero s'') ∨
      UnpackedFloat.add Format.binary64 x (.zero s) = x := by
  cases h with
  | zero s' s'' =>
      left
      cases s <;> cases s' <;> exact ⟨_, s'', rfl, rfl⟩
  | digits s m e hm => exact .inr rfl

/-- A zero takes a product with it. -/
theorem exists_mul_eq_zero (s : Sign) {f : UnpackedFloat} (hf : f.isFinite = true) :
    ∃ s', UnpackedFloat.mul Format.binary64 (.zero s) f = .zero s' := by
  cases f with
  | notANumber | infinity => cases hf
  | zero s' => exact ⟨_, rfl⟩
  | finite s' m e hm => exact ⟨_, rfl⟩

theorem mul_agree_zero {z f : Float} (hz : Scalar.Agree z (ofDecimal 0 0))
    (hf : f.isFinite = true) : Scalar.Agree (z * f) (ofDecimal 0 0) := by
  obtain ⟨s, hs⟩ := agree_zero_iff.mp hz
  refine agree_zero_of_pack ?_ (rfl : (z * f).toModel.unpack = unpack _ (pack _ _))
  rw [hs]
  exact exists_mul_eq_zero s hf

theorem unpack_of_agree_one {a : Float} (ha : Scalar.Agree a (ofDecimal 1 0)) :
    a.toModel.unpack = .finite .positive (2 ^ 52) (-52) (by decide) := by
  have hsame := (agree_iff_same rfl).mp ha
  rw [unpack_one] at hsame
  generalize a.toModel.unpack = x at hsame
  cases hsame
  rfl

instance : Scalar.Cancelling Float where
  agree_refl a ha := (agree_iff_same ha).mpr (same_self ha)
  sub_agree a b c hc ha hb :=
    agree_zero_of_pack (((agree_iff_same hc).mp ha).exists_sub_eq_zero ((agree_iff_same hc).mp hb))
      rfl
  add_agree a c z hc ha hz := by
    obtain ⟨s, hs⟩ := agree_zero_iff.mp hz
    have hsum : (a + z).toModel.unpack = unpack Format.binary64
        (pack Format.binary64 (UnpackedFloat.add Format.binary64 a.toModel.unpack (.zero s))) := by
      rw [← hs]
      rfl
    rw [agree_iff_same hc] at ha ⊢
    rcases ha.add_zero s with ⟨s', s'', hzero, hc'⟩ | hsame
    · rw [hzero] at hsum
      rw [hsum, hc']
      cases s' <;> exact .zero _ s''
    · rw [hsum, hsame, unpack_pack_unpack]
      exact ha
  mul_agree_zero _ _ := mul_agree_zero
  mul_agree_one a b ha hb := by
    have hproduct : (a * b).toModel.unpack = unpack Format.binary64 (pack Format.binary64
        (UnpackedFloat.mul Format.binary64 a.toModel.unpack b.toModel.unpack)) := rfl
    rw [unpack_of_agree_one ha, unpack_of_agree_one hb] at hproduct
    refine (agree_iff_same rfl).mpr ?_
    rw [hproduct]
    exact .digits .positive (2 ^ 52) (-52) (by decide)
  radians_agree_zero a ha := by
    have hpi : (Scalar.pi : Float).isFinite = true := rfl
    obtain ⟨s, hs⟩ := agree_zero_iff.mp (mul_agree_zero ha hpi)
    refine agree_zero_of_pack ?_ (rfl : (Scalar.radians a).toModel.unpack = unpack _ (pack _ _))
    rw [hs]
    exact ⟨_, rfl⟩
  isFinite_fraction x t y hx ht hy hlow hxt hty hhigh :=
    isFinite_fraction hx ht hy hlow hxt hty hhigh

end Binary64

end Mannequin
