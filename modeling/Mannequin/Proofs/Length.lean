import Mannequin.Proofs.Located
import Mannequin.Proofs.Scalar.Finite
import Mannequin.Proofs.Scalar.Total

/-!
# Measuring lengths

A length is written as a number, as a pair of numbers or as an object with an absolute one. What
is written in one of these ways is measured exactly if its numbers are finite and what they come
to on the bone is finite and positive. If it is not, the refusal is about a range; and everything
that is written in another way has the wrong shape, unless a number in it is refused before.

The numbers are looked at when a length is read and what they come to when it is measured, so
each of the two readers has a lemma on what it accepts and one on what it refuses.
-/

namespace Mannequin

variable {α : Type}

namespace Json

/-- A part of a value at any depth. -/
inductive Within (inner : Json α) : Json α → Prop where
  | self : Within inner inner
  | hop {value part : Json α} {hop : Hop} (h : value.part? hop = some part)
      (hinner : Within inner part) : Within inner value

variable [Scalar α] {value : Json α}

/-- No number in a value is infinite or undefined. -/
def HoldsFinite (value : Json α) : Prop :=
  ∀ part x, Within part value → part.number? = some x → Scalar.isFinite x = true

theorem HoldsFinite.member {name : String} {member : Json α} (h : value.HoldsFinite)
    (hmember : value.member? name = some member) : member.HoldsFinite :=
  have hpart : value.part? (.member name) = some member := hmember
  fun _ _ hinner => h _ _ (.hop hpart hinner)

theorem HoldsFinite.item {items : List (Json α)} {index : Nat} {item : Json α}
    (h : (arr items).HoldsFinite) (hitem : items[index]? = some item) : item.HoldsFinite :=
  have hpart : (arr items).part? (.item index) = some item := hitem
  fun _ _ hinner => h _ _ (.hop hpart hinner)

theorem HoldsFinite.number {x : α} (h : value.HoldsFinite) (hnumber : value.number? = some x) :
    Scalar.isFinite x = true := h _ _ .self hnumber

end Json

/-! ### Refused numbers -/

namespace Field

variable [Scalar α] {loc : Location} {value : Json α} {x : α} {e : Error}

theorem kind_of_finite (h : finite loc x = .error e) :
    e.kind = .range ∧ Scalar.isFinite x = false := by
  unfold finite at h
  split at h
  case isTrue => cases h
  case isFalse hinfinite =>
    cases h
    exact ⟨rfl, Bool.eq_false_of_not_eq_true hinfinite⟩

theorem kind_of_positive (h : positive loc x = .error e) : e.kind = .range := by
  obtain h | ⟨_, -, h⟩ := bind_eq_error.mp h
  · exact (kind_of_finite h).1
  · split at h <;> cases h
    rfl

/-- A value is refused as a number because it is none, or because it is not finite. -/
theorem kind_of_number (h : number loc value = .error e) :
    e.kind = .shape ∧ value.number? = none ∨ e.kind = .range ∧ ¬ value.HoldsFinite := by
  unfold number at h
  cases hnumber : value.number? with
  | none =>
    rw [hnumber] at h
    cases h
    exact .inl ⟨rfl, rfl⟩
  | some x =>
    rw [hnumber] at h
    obtain h | ⟨_, -, ⟨⟩⟩ := bind_eq_error.mp h
    obtain ⟨hkind, hinfinite⟩ := kind_of_finite h
    refine .inr ⟨hkind, fun hholds => ?_⟩
    rw [hholds.number hnumber] at hinfinite
    cases hinfinite

end Field

/-! ### Positive extents -/

theorem Binary64.isPositive_iff {x : Float} : Scalar.IsPositive x ↔ x.isFinite = true ∧ 0 < x := by
  refine and_congr_right fun hfinite => ⟨fun h => ?_, fun h => ?_⟩
  · exact Scalar.Total.lt_of_not_le x 0 hfinite Scalar.Symmetric.isFinite_zero h
  · exact Scalar.Linear.not_le_of_lt 0 x h

/-- A measured length whose components are finite and above zero. -/
def Extent.Positive (extent : Extent Float) : Prop :=
  (extent.x.isFinite = true ∧ 0 < extent.x) ∧ extent.y.isFinite = true ∧ 0 < extent.y

namespace Length

/-! ### Written lengths -/

section

variable {value : Json α} {members : NameMap (Json α)} {name : String}

theorem single_iff : (members.size = 1 ∧ (members.get? name).isSome = true) ↔
    ∃ member, members.entries = [(name, member)] := by
  constructor
  · rintro ⟨hsize, hhas⟩
    obtain ⟨⟨other, member⟩, hentries⟩ := List.length_eq_one_iff.mp hsize
    rw [NameMap.get?, hentries, NameMap.lookup_cons] at hhas
    split at hhas
    case isTrue h =>
      subst h
      exact ⟨member, hentries⟩
    case isFalse => cases hhas
  · rintro ⟨member, hentries⟩
    rw [NameMap.size, NameMap.get?, hentries]
    simp

theorem member?_of_single {member : Json α} (h : value.members.entries = [(name, member)]) :
    value.member? name = some member := by
  rw [Json.member?, NameMap.get?, h]
  simp

end

variable [Scalar α] {loc : Location} {value : Json α} {length : Length α} {e : Error}

/-- The ways to write a length. -/
inductive Writes : Json α → Length α → Prop where
  | relative {value : Json α} {factor : α} (h : value.number? = some factor) :
      Writes value (.relative factor)
  | pair {first second : Json α} {x y : α} (hfirst : first.number? = some x)
      (hsecond : second.number? = some y) : Writes (.arr [first, second]) (.pair x y)
  | absolute {value number : Json α} {x : α} (h : value.members.entries = [("absolute", number)])
      (hnumber : number.number? = some x) : Writes value (.absolute x)

/-- A value is written like a length, whatever its numbers are. -/
def Shaped (value : Json α) : Prop := ∃ length, Writes value length

/-- The numbers of a length are finite. -/
def AllFinite : Length α → Prop
  | relative factor => Scalar.isFinite factor = true
  | pair first second => Scalar.isFinite first = true ∧ Scalar.isFinite second = true
  | absolute value => Scalar.isFinite value = true

/-- What a length comes to on a bone. -/
def extent (boneLength : α) : Length α → Extent α
  | relative factor => ⟨factor * boneLength, factor * boneLength, false⟩
  | pair first second => ⟨first * boneLength, second * boneLength, true⟩
  | absolute value => ⟨value, value, false⟩

/-- Exactly the lengths with finite numbers are read. -/
theorem ofJson_eq_ok : ofJson loc value = .ok length ↔ Writes value length ∧ length.AllFinite := by
  constructor
  · intro h
    unfold ofJson at h
    split at h
    case h_1 | h_5 | h_7 => cases h
    case h_2 | h_3 =>
      obtain ⟨factor, hfactor, rfl⟩ := map_eq_ok.mp h
      obtain ⟨hnumber, hfinite⟩ := Field.number_eq_ok.mp hfactor
      exact ⟨.relative hnumber, hfinite⟩
    case h_4 first second =>
      obtain ⟨x, hx, h⟩ := bind_eq_ok.mp h
      obtain ⟨y, hy, h⟩ := bind_eq_ok.mp h
      cases h
      obtain ⟨hfirst, hxfinite⟩ := Field.number_eq_ok.mp hx
      obtain ⟨hsecond, hyfinite⟩ := Field.number_eq_ok.mp hy
      exact ⟨.pair hfirst hsecond, hxfinite, hyfinite⟩
    case h_6 members =>
      split at h
      case isTrue hsingle =>
        obtain ⟨x, hx, rfl⟩ := map_eq_ok.mp h
        obtain ⟨hnumber, hfinite⟩ := Field.number_eq_ok.mp hx
        obtain ⟨number, hentries⟩ := single_iff.mp hsingle
        rw [Json.member, member?_of_single hentries] at hnumber
        exact ⟨.absolute hentries hnumber, hfinite⟩
      case isFalse => cases h
  · rintro ⟨hwrites, hfinite⟩
    cases hwrites with
    | relative hnumber =>
      have hread : Field.number loc value = .ok _ := Field.number_eq_ok.mpr ⟨hnumber, hfinite⟩
      cases value with
      | int n => exact map_eq_ok.mpr ⟨_, hread, rfl⟩
      | real x => exact map_eq_ok.mpr ⟨_, hread, rfl⟩
      | _ => cases hnumber
    | pair hfirst hsecond =>
      exact bind_eq_ok.mpr ⟨_, Field.number_eq_ok.mpr ⟨hfirst, hfinite.1⟩,
        bind_eq_ok.mpr ⟨_, Field.number_eq_ok.mpr ⟨hsecond, hfinite.2⟩, rfl⟩⟩
    | absolute hentries hnumber =>
      cases value with
      | obj members =>
        have hsingle : (Json.obj members).members.size = 1 ∧ (Json.obj members).has "absolute" :=
          single_iff.mpr ⟨_, hentries⟩
        simp only [ofJson, if_pos hsingle, Json.member, member?_of_single hentries]
        exact map_eq_ok.mpr ⟨_, Field.number_eq_ok.mpr ⟨hnumber, hfinite⟩, rfl⟩
      | _ => cases hentries

/-! ### Refused lengths -/

theorem not_shaped_of_plain (hnumber : value.number? = none)
    (hpair : ∀ first second, value ≠ .arr [first, second]) (hmembers : value.members = ∅) :
    ¬ Shaped value := by
  rintro ⟨_, hwrites⟩
  cases hwrites with
  | relative h => cases hnumber.symm.trans h
  | pair => exact hpair _ _ rfl
  | absolute h =>
    rw [hmembers] at h
    cases h

theorem shaped_pair {first second : Json α} (h : Shaped (.arr [first, second])) :
    first.number? ≠ none ∧ second.number? ≠ none := by
  obtain ⟨_, ⟨⟨⟩⟩ | ⟨hfirst, hsecond⟩ | ⟨⟨⟩⟩⟩ := h
  simp [hfirst, hsecond]

theorem shaped_obj {members : List (String × Json α)} (h : Shaped (.obj members)) :
    ∃ number, (Json.obj members).members.entries = [("absolute", number)] ∧
      number.number? ≠ none := by
  obtain ⟨_, ⟨⟨⟩⟩ | _ | ⟨hentries, hnumber⟩⟩ := h
  exact ⟨_, hentries, by simp [hnumber]⟩

/-- A number that is refused within a value is none, so that the value is not written like a
length, or it is not finite. -/
theorem kind_of_part {part : Json α} (h : Field.number loc part = .error e)
    (hshaped : Shaped value → part.number? ≠ none)
    (hholds : value.HoldsFinite → part.HoldsFinite) :
    e.kind = .shape ∧ ¬ Shaped value ∨ e.kind = .range ∧ ¬ value.HoldsFinite := by
  obtain ⟨hkind, hnone⟩ | ⟨hkind, hinfinite⟩ := Field.kind_of_number h
  · exact .inl ⟨hkind, fun hvalue => hshaped hvalue hnone⟩
  · exact .inr ⟨hkind, fun hvalue => hinfinite (hholds hvalue)⟩

/-- A value is refused because it is not written like a length, or because a number in it is not
finite. -/
theorem kind_of_ofJson (h : ofJson loc value = .error e) :
    e.kind = .shape ∧ ¬ Shaped value ∨ e.kind = .range ∧ ¬ value.HoldsFinite := by
  cases value with
  | null | bool _ | str _ =>
    cases h
    exact .inl ⟨rfl, not_shaped_of_plain rfl nofun rfl⟩
  | int _ | real _ => exact kind_of_part (map_eq_error.mp h) (fun _ => nofun) id
  | arr items =>
    match items with
    | [first, second] =>
      have hfirst : [first, second][0]? = some first := rfl
      have hsecond : [first, second][1]? = some second := rfl
      obtain h | ⟨_, -, h⟩ := bind_eq_error.mp h
      · exact kind_of_part h (fun hshaped => (shaped_pair hshaped).1) (·.item hfirst)
      · obtain h | ⟨_, -, ⟨⟩⟩ := bind_eq_error.mp h
        exact kind_of_part h (fun hshaped => (shaped_pair hshaped).2) (·.item hsecond)
    | [] | [_] | _ :: _ :: _ :: _ =>
      cases h
      exact .inl ⟨rfl, not_shaped_of_plain rfl nofun rfl⟩
  | obj members =>
    simp only [ofJson] at h
    split at h
    case isTrue hsingle =>
      obtain ⟨number, hentries⟩ := single_iff.mp hsingle
      have hmember := member?_of_single hentries
      rw [Json.member, hmember] at h
      refine kind_of_part (map_eq_error.mp h) (fun hshaped => ?_) (·.member hmember)
      obtain ⟨other, hother, hnumber⟩ := shaped_obj hshaped
      cases hentries.symm.trans hother
      exact hnumber
    case isFalse hmany =>
      cases h
      refine .inl ⟨rfl, fun hshaped => ?_⟩
      obtain ⟨number, hentries, -⟩ := shaped_obj hshaped
      exact hmany (single_iff.mpr ⟨number, hentries⟩)

/-! ### Measured lengths -/

theorem scaled_eq_ok {x factor product : α} : scaled loc x factor = .ok product ↔
    Scalar.IsPositive (x * factor) ∧ product = x * factor := by
  constructor
  · intro h
    obtain ⟨_, hpositive, h⟩ := bind_eq_ok.mp h
    cases h
    exact ⟨Field.positive_eq_ok.mp hpositive, rfl⟩
  · rintro ⟨hpositive, rfl⟩
    exact bind_eq_ok.mpr ⟨(), Field.positive_eq_ok.mpr hpositive, rfl⟩

theorem kind_of_scaled {x factor : α} (h : scaled loc x factor = .error e) : e.kind = .range := by
  obtain h | ⟨_, -, ⟨⟩⟩ := bind_eq_error.mp h
  exact Field.kind_of_positive h

theorem kind_of_measure {boneLength : α} (h : measure loc boneLength length = .error e) :
    e.kind = .range := by
  obtain h | ⟨_, -, h⟩ := bind_eq_error.mp h
  · exact Field.kind_of_positive h
  · cases length with
    | relative | absolute =>
      obtain h | ⟨_, -, ⟨⟩⟩ := bind_eq_error.mp h
      exact kind_of_scaled h
    | pair =>
      obtain h | ⟨_, -, h⟩ := bind_eq_error.mp h
      · exact kind_of_scaled h
      · obtain h | ⟨_, -, ⟨⟩⟩ := bind_eq_error.mp h
        exact kind_of_scaled h

section

variable {boneLength : Float} {length : Length Float} {result : Extent Float}

theorem scaled_one_eq_ok {x product : Float} (hx : x.isFinite = true) :
    scaled loc x (Binary64.ofDecimal 1 0) = .ok product ↔ Scalar.IsPositive x ∧ product = x := by
  rw [scaled_eq_ok, Binary64.mul_one_of_isFinite hx]

/-- A length with finite numbers is measured if it comes to something positive. -/
theorem measure_eq_ok (hfinite : length.AllFinite) :
    measure loc boneLength length = .ok result ↔ Scalar.IsPositive boneLength ∧
      (Scalar.IsPositive (length.extent boneLength).x ∧
        Scalar.IsPositive (length.extent boneLength).y) ∧ result = length.extent boneLength := by
  constructor
  · intro h
    obtain ⟨_, hbone, h⟩ := bind_eq_ok.mp h
    refine ⟨Field.positive_eq_ok.mp hbone, ?_⟩
    cases length with
    | relative factor =>
      obtain ⟨x, hx, h⟩ := bind_eq_ok.mp h
      obtain ⟨hpositive, rfl⟩ := scaled_eq_ok.mp hx
      cases h
      exact ⟨⟨hpositive, hpositive⟩, rfl⟩
    | pair first second =>
      obtain ⟨x, hx, h⟩ := bind_eq_ok.mp h
      obtain ⟨y, hy, h⟩ := bind_eq_ok.mp h
      obtain ⟨hxpositive, rfl⟩ := scaled_eq_ok.mp hx
      obtain ⟨hypositive, rfl⟩ := scaled_eq_ok.mp hy
      cases h
      exact ⟨⟨hxpositive, hypositive⟩, rfl⟩
    | absolute value =>
      obtain ⟨x, hx, hresult⟩ := bind_eq_ok.mp h
      obtain ⟨hpositive, rfl⟩ := (scaled_one_eq_ok hfinite).mp hx
      cases hresult
      exact ⟨⟨hpositive, hpositive⟩, rfl⟩
  · rintro ⟨hbone, ⟨hx, hy⟩, rfl⟩
    refine bind_eq_ok.mpr ⟨(), Field.positive_eq_ok.mpr hbone, ?_⟩
    cases length with
    | relative factor => exact bind_eq_ok.mpr ⟨_, scaled_eq_ok.mpr ⟨hx, rfl⟩, rfl⟩
    | pair first second =>
      exact bind_eq_ok.mpr ⟨_, scaled_eq_ok.mpr ⟨hx, rfl⟩,
        bind_eq_ok.mpr ⟨_, scaled_eq_ok.mpr ⟨hy, rfl⟩, rfl⟩⟩
    | absolute value =>
      exact bind_eq_ok.mpr ⟨value, (scaled_one_eq_ok hfinite).mpr ⟨hx, rfl⟩, rfl⟩

/-- A value is measured exactly if the bone has a finite length above zero, the value is written
like a length with finite numbers, and what these come to on the bone is finite and above zero;
then this is the result. What is written like a length is refused for a range, and what is not is
refused for its shape, unless it holds a number that is not finite. -/
theorem measureJson_decided (loc : Location) (boneLength : Float) (value : Json Float) :
    (∀ result, measureJson loc boneLength value = .ok result ↔
      (boneLength.isFinite = true ∧ 0 < boneLength) ∧
        ∃ length, Writes value length ∧ length.AllFinite ∧ (length.extent boneLength).Positive ∧
          result = length.extent boneLength) ∧
    ∀ e, measureJson loc boneLength value = .error e →
      (Shaped value → e.kind = .range) ∧
        (¬ Shaped value → value.HoldsFinite → e.kind = .shape) := by
  constructor
  · intro result
    simp only [measureJson, bind_eq_ok, ofJson_eq_ok, Extent.Positive, ← Binary64.isPositive_iff]
    constructor
    · rintro ⟨length, ⟨hwrites, hfinite⟩, h⟩
      obtain ⟨hbone, hpositive, hresult⟩ := (measure_eq_ok hfinite).mp h
      exact ⟨hbone, length, hwrites, hfinite, hpositive, hresult⟩
    · rintro ⟨hbone, length, hwrites, hfinite, hpositive, hresult⟩
      exact ⟨length, ⟨hwrites, hfinite⟩, (measure_eq_ok hfinite).mpr ⟨hbone, hpositive, hresult⟩⟩
  · intro e h
    obtain h | ⟨length, hread, h⟩ := bind_eq_error.mp h
    · obtain ⟨hkind, hnot⟩ | ⟨hkind, hinfinite⟩ := kind_of_ofJson h
      · exact ⟨fun hshaped => absurd hshaped hnot, fun _ _ => hkind⟩
      · exact ⟨fun _ => hkind, fun _ hholds => absurd hholds hinfinite⟩
    · have hshaped : Shaped value := ⟨length, (ofJson_eq_ok.mp hread).1⟩
      exact ⟨fun _ => kind_of_measure h, fun hnot => absurd hshaped hnot⟩

/-- A number that is not finite is refused before what stands beside it is looked at. -/
example : ∃ e,
    measureJson (.root "radius") 1 (.arr [.real (1 / 0 : Float), .str "wide"]) = .error e ∧
      e.kind = .range :=
  ⟨_, rfl, rfl⟩

end

end Length

end Mannequin
