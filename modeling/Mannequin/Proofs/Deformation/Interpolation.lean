import Mannequin.Proofs.Character.Mirror
import Mannequin.Proofs.Deformation.Neighbours
import Mannequin.Proofs.Deformation.Sorting

/-!
# Interpolation

Outside of its points and rings a field is constant; inside it is interpolated between the
neighbours that a height lies between. Over exact numbers the points stand in the order of
their positions, so there is one such pair of neighbours and no other, and the positions of
the two differ. The search for them never runs off its list, and points of one position are
never interpolated between.
-/

namespace Mannequin

/-- The components of a ring that are interpolated. -/
def Ring.components {α : Type} : List (Ring α → α) :=
  [Ring.scaleX, Ring.scaleY, Ring.twist, Ring.offsetX, Ring.offsetY, Ring.tiltX, Ring.tiltY]

/-! ### Finding a height -/

namespace Deformation

section

variable {α β : Type} [Scalar α] {field : Deformation α} {t : α}

theorem bulgeScale_eq {first last : BulgePoint α} (hfirst : field.bulge.head? = some first)
    (hlast : field.bulge.getLast? = some last) :
    field.bulgeScale t =
      if t ≤ first.position then first.scale
      else if last.position ≤ t then last.scale
      else scaleBetween t field.bulge := by
  rw [bulgeScale, hfirst, hlast]

theorem ringAt_eq {first last : Ring α} (hfirst : field.rings.head? = some first)
    (hlast : field.rings.getLast? = some last) :
    field.ringAt t =
      if t ≤ first.position then first
      else if last.position ≤ t then last
      else ringBetween t field.rings := by
  rw [ringAt, hfirst, hlast]

omit [Scalar α] in
theorem exists_ends {l : List β} (h : l ≠ []) :
    ∃ first last, l.head? = some first ∧ l.getLast? = some last :=
  ⟨l.head h, l.getLast h, List.head?_eq_some_head h, List.getLast?_eq_some_getLast h⟩

variable [Scalar.Total α]

/-- A height that is not outside of either end of a list is met between two neighbours. -/
theorem exists_straddles_of_inside {position : β → α} {l : List β} {first last : β}
    (hfinite : ∀ x ∈ l, Scalar.isFinite (position x) = true) (ht : Scalar.isFinite t = true)
    (hfirst : l.head? = some first) (hlast : l.getLast? = some last)
    (hbelow : ¬ t ≤ position first) (habove : ¬ position last ≤ t) :
    ∃ i x y, neighbours position t l = some (x, y) ∧ Straddles position t l i x y := by
  have hinside : position first < t :=
    Scalar.Total.lt_of_not_le t _ ht (hfinite first (List.mem_of_mem_head? hfirst)) hbelow
  exact exists_straddles hfirst hlast hinside fun hlt => habove (Scalar.Total.le_of_lt _ _ hlt)

/-- The scale of the bulge points is one if there are none, or that of one of them, or it is
interpolated between neighbours. -/
theorem bulgeScale_cases (hfinite : ∀ p ∈ field.bulge, Scalar.isFinite p.position = true)
    (ht : Scalar.isFinite t = true) :
    (field.bulge = [] ∧ field.bulgeScale t = 1) ∨
      (∃ p ∈ field.bulge, field.bulgeScale t = p.scale) ∨
      ∃ i p₀ p₁, Straddles BulgePoint.position t field.bulge i p₀ p₁ ∧
        field.bulgeScale t = scaleFrom t p₀ p₁ := by
  by_cases hnone : field.bulge = []
  · rw [bulgeScale, hnone]
    exact .inl ⟨rfl, rfl⟩
  · obtain ⟨first, last, hfirst, hlast⟩ := exists_ends hnone
    rw [bulgeScale_eq hfirst hlast]
    split
    case isTrue => exact .inr (.inl ⟨first, List.mem_of_mem_head? hfirst, rfl⟩)
    case isFalse hbelow =>
      split
      case isTrue => exact .inr (.inl ⟨last, List.mem_of_mem_getLast? hlast, rfl⟩)
      case isFalse habove =>
        obtain ⟨i, p₀, p₁, hfound, hstraddles⟩ :=
          exists_straddles_of_inside hfinite ht hfirst hlast hbelow habove
        rw [scaleBetween_eq, hfound]
        exact .inr (.inr ⟨i, p₀, p₁, hstraddles, rfl⟩)

/-- The ring at a height is the identity if there are none, or one of them, or it is
interpolated between neighbours. -/
theorem ringAt_cases (hfinite : ∀ r ∈ field.rings, Scalar.isFinite r.position = true)
    (ht : Scalar.isFinite t = true) :
    (field.rings = [] ∧ field.ringAt t = Ring.identity t) ∨
      (∃ r ∈ field.rings, field.ringAt t = r) ∨
      ∃ i r₀ r₁, Straddles Ring.position t field.rings i r₀ r₁ ∧
        field.ringAt t = r₀.interpolate r₁ t := by
  by_cases hnone : field.rings = []
  · rw [ringAt, hnone]
    exact .inl ⟨rfl, rfl⟩
  · obtain ⟨first, last, hfirst, hlast⟩ := exists_ends hnone
    rw [ringAt_eq hfirst hlast]
    split
    case isTrue => exact .inr (.inl ⟨first, List.mem_of_mem_head? hfirst, rfl⟩)
    case isFalse hbelow =>
      split
      case isTrue => exact .inr (.inl ⟨last, List.mem_of_mem_getLast? hlast, rfl⟩)
      case isFalse habove =>
        obtain ⟨i, r₀, r₁, hfound, hstraddles⟩ :=
          exists_straddles_of_inside hfinite ht hfirst hlast hbelow habove
        rw [ringBetween_eq, hfound]
        exact .inr (.inr ⟨i, r₀, r₁, hstraddles, rfl⟩)

end

end Deformation

/-! ### Points and rings in order -/

section

variable {α : Type} [Exact α]

namespace BulgePoint

/-- The points of one list stand in another in the order of their positions, those of one
position in the order in which they stood. -/
structure Arranges (points arranged : List (BulgePoint α)) : Prop where
  perm : arranged.Perm points
  ascending : arranged.Pairwise fun p q => p.position ≤ q.position
  stable : ∀ x : α, arranged.filter (fun p => p.position = x) =
    points.filter fun p => p.position = x

theorem arranges_sort (points : List (BulgePoint α)) : Arranges points (sort points) := by
  obtain ⟨hperm, hascending, hstable⟩ := sorts_sort fun p (_ : p ∈ points) => rfl
  refine ⟨hperm, hascending, fun x => ?_⟩
  have hat : ∀ l : List (BulgePoint α), l.filter (fun p => p.position = x) =
      l.filter fun p => Scalar.Agree p.position x :=
    fun l => List.filter_congr fun p _ => decide_eq_decide.mpr Exact.agree_iff.symm
  rw [hat, hat]
  exact hstable x

end BulgePoint

/-- All components of a ring are interpolated alike. -/
theorem Ring.component_interpolate {component : Ring α → α} (h : component ∈ Ring.components)
    (r₀ r₁ : Ring α) (t : α) :
    component (r₀.interpolate r₁ t) = component r₀ +
      (component r₁ - component r₀) * ((t - r₀.position) / (r₁.position - r₀.position)) := by
  simp only [Ring.components, List.mem_cons, List.not_mem_nil, or_false] at h
  rcases h with rfl | rfl | rfl | rfl | rfl | rfl | rfl <;> rfl

theorem Ring.Ascending.pairwise {rings : List (Ring α)} (h : Ring.Ascending rings) :
    rings.Pairwise fun r r' => r.position < r'.position := by
  have : IsTrans (Ring α) fun r r' => r.position < r'.position := ⟨fun _ _ _ => lt_trans⟩
  exact List.isChain_iff_pairwise.mp (h.imp fun _ _ => not_le.mp)

namespace Deformation

variable {β : Type} {position : β → α} {t : α} {l : List β} {i j : Nat} {x y x' y' : β}

theorem Straddles.le (h : Straddles position t l i x y) : t ≤ position y := not_lt.mp h.notBelow

theorem Straddles.span_pos (h : Straddles position t l i x y) : 0 < position y - position x :=
  sub_pos.mpr (h.below.trans_le h.le)

/-- In a list in the order of its positions no height lies between two pairs of neighbours. -/
theorem Straddles.unique (hl : l.Pairwise fun a b => position a ≤ position b)
    (h : Straddles position t l i x y) (h' : Straddles position t l j x' y') : i = j := by
  have hnot : ∀ {i j x y x' y'}, Straddles position t l i x y → Straddles position t l j x' y' →
      ¬ i < j := by
    intro i j x y x' y' h h' hlt
    have hle : position y ≤ position x' := by
      rcases Nat.eq_or_lt_of_le (Nat.succ_le_of_lt hlt) with rfl | hlt
      · rw [Option.some.inj (h.upper.symm.trans h'.lower)]
      · obtain ⟨hi, rfl⟩ := List.getElem?_eq_some_iff.mp h.upper
        obtain ⟨hj, rfl⟩ := List.getElem?_eq_some_iff.mp h'.lower
        exact List.pairwise_iff_getElem.mp hl _ _ hi hj hlt
    exact h.notBelow (hle.trans_lt h'.below)
  exact Nat.le_antisymm (Nat.not_lt.mp (hnot h' h)) (Nat.not_lt.mp (hnot h h'))

/-- A height lies between two neighbours of a list and between no others. The search ends at
them, and their positions differ. -/
structure Meets (position : β → α) (t : α) (l : List β) (x y : β) : Prop where
  between : ∃ i, Straddles position t l i x y ∧
    ∀ j x' y', Straddles position t l j x' y' → j = i
  found : neighbours position t l = some (x, y)
  span_pos : 0 < position y - position x

theorem exists_meets (hl : l.Pairwise fun a b => position a ≤ position b) {first last : β}
    (hfirst : l.head? = some first) (hlast : l.getLast? = some last)
    (hbelow : position first < t) (habove : t < position last) :
    ∃ x y, Meets position t l x y := by
  obtain ⟨i, x, y, hfound, hstraddles⟩ :=
    exists_straddles hfirst hlast hbelow (not_lt.mpr habove.le)
  exact ⟨x, y, ⟨i, hstraddles, fun j x' y' h => h.unique hl hstraddles⟩, hfound,
    hstraddles.span_pos⟩

/-- Neighbours at different positions are interpolated between. -/
theorem scaleFrom_eq {p₀ p₁ : BulgePoint α} (h : 0 < p₁.position - p₀.position) :
    scaleFrom t p₀ p₁ =
      p₀.scale + (p₁.scale - p₀.scale) * ((t - p₀.position) / (p₁.position - p₀.position)) := by
  rw [scaleFrom, Exact.ofNat_zero, if_neg (not_le.mpr h)]

/-! ### Interpolating -/

/-- An accepted field is interpolated at every height. Its bulge points are those that were
given, clamped and in the order of their positions. Up to the first of them its scale is that
of the first, beyond that and from the last of them on it is that of the last, and anywhere
else it is interpolated between the two points that the height lies between, which are at
different positions. In the same way all of a ring is interpolated. -/
theorem interpolates_of_build {loc : Location} {taper twist : α} {bulge : List (BulgePoint α)}
    {rings : List (Ring α)} {field : Deformation α}
    (h : build loc taper bulge twist rings = .ok field) (t : α) :
    BulgePoint.Arranges (bulge.map BulgePoint.clamped) field.bulge ∧
    (∀ first ∈ field.bulge.head?, ∀ last ∈ field.bulge.getLast?,
      (t ≤ first.position → field.bulgeScale t = first.scale) ∧
      (first.position < t → last.position ≤ t → field.bulgeScale t = last.scale) ∧
      (first.position < t → t < last.position → ∃ p₀ p₁,
        Meets BulgePoint.position t field.bulge p₀ p₁ ∧
        field.bulgeScale t = p₀.scale +
          (p₁.scale - p₀.scale) * ((t - p₀.position) / (p₁.position - p₀.position)))) ∧
    (∀ first ∈ rings.head?, ∀ last ∈ rings.getLast?, first.position < t → t < last.position →
      ∃ r₀ r₁, Meets Ring.position t rings r₀ r₁ ∧ (field.ringAt t).position = t ∧
        ∀ component ∈ Ring.components, component (field.ringAt t) = component r₀ +
          (component r₁ - component r₀) * ((t - r₀.position) / (r₁.position - r₀.position))) := by
  obtain ⟨hacceptable, rfl⟩ := build_eq_ok.mp h
  have harranges := BulgePoint.arranges_sort (bulge.map BulgePoint.clamped)
  have hascending : rings.Pairwise fun r r' => r.position ≤ r'.position :=
    hacceptable.ascending.pairwise.imp le_of_lt
  refine ⟨harranges, fun first hfirst last hlast => ⟨fun hle => ?_, fun hlt hle => ?_,
    fun hbelow habove => ?_⟩, fun first hfirst last hlast hbelow habove => ?_⟩
  · rw [bulgeScale_eq hfirst hlast, if_pos hle]
  · rw [bulgeScale_eq hfirst hlast, if_neg (not_le.mpr hlt), if_pos hle]
  · obtain ⟨p₀, p₁, hmeets⟩ := exists_meets harranges.ascending hfirst hlast hbelow habove
    refine ⟨p₀, p₁, hmeets, ?_⟩
    rw [bulgeScale_eq hfirst hlast, if_neg (not_le.mpr hbelow), if_neg (not_le.mpr habove),
      scaleBetween_eq, hmeets.found]
    exact scaleFrom_eq hmeets.span_pos
  · obtain ⟨r₀, r₁, hmeets⟩ := exists_meets hascending hfirst hlast hbelow habove
    have hring : ringAt ⟨taper, twist, BulgePoint.sort (bulge.map BulgePoint.clamped), rings⟩ t =
        r₀.interpolate r₁ t := by
      rw [ringAt_eq hfirst hlast, if_neg (not_le.mpr hbelow), if_neg (not_le.mpr habove),
        ringBetween_eq, hmeets.found]
    rw [hring]
    exact ⟨r₀, r₁, hmeets, rfl, fun component hcomponent =>
      Ring.component_interpolate hcomponent r₀ r₁ t⟩

/-- Points at one position, before the segment and behind it, in no order. -/
def kneeBulge : List (BulgePoint ℚ) := [⟨3 / 2, 2⟩, ⟨1 / 2, 3⟩, ⟨-1, 1⟩, ⟨1 / 2, 4⟩]

/-- Rings that go straight up to the middle and widen from there. -/
def kneeRings : List (Ring ℚ) :=
  [Ring.identity 0, Ring.identity (1 / 2), ⟨1, 3, 1, 10, 0, 0, 0, 0⟩]

/-- Of the two points in the middle, the first ends the one slope and the second begins the
other. -/
theorem interpolates_of_build_knee : ∃ field,
    build (.root "knee") (1 / 2) kneeBulge 0 kneeRings = .ok field ∧
      field.bulge = [⟨0, 1⟩, ⟨1 / 2, 3⟩, ⟨1 / 2, 4⟩, ⟨1, 2⟩] ∧
      Meets BulgePoint.position (3 / 4) field.bulge ⟨1 / 2, 4⟩ ⟨1, 2⟩ ∧
      field.bulgeScale (3 / 4) = 3 ∧ (field.ringAt (3 / 4)).scaleX = 2 := by
  let field : Deformation ℚ := ⟨1 / 2, 0, [⟨0, 1⟩, ⟨1 / 2, 3⟩, ⟨1 / 2, 4⟩, ⟨1, 2⟩], kneeRings⟩
  have hbuild : build (.root "knee") (1 / 2) kneeBulge 0 kneeRings = .ok field := by
    decide +kernel
  have hpoints : neighbours BulgePoint.position (3 / 4) field.bulge =
      some (⟨1 / 2, 4⟩, ⟨1, 2⟩) := by
    decide +kernel
  have hrings : neighbours Ring.position (3 / 4) kneeRings =
      some (Ring.identity (1 / 2), ⟨1, 3, 1, 10, 0, 0, 0, 0⟩) := by
    decide +kernel
  obtain ⟨-, hbulge, hring⟩ := interpolates_of_build hbuild (3 / 4)
  obtain ⟨p₀, p₁, hmeets, hscale⟩ :=
    (hbulge ⟨0, 1⟩ rfl ⟨1, 2⟩ rfl).2.2 (by decide +kernel) (by decide +kernel)
  obtain ⟨r₀, r₁, hmeets', -, hcomponents⟩ :=
    hring _ rfl ⟨1, 3, 1, 10, 0, 0, 0, 0⟩ rfl (by decide +kernel) (by decide +kernel)
  cases hmeets.found.symm.trans hpoints
  cases hmeets'.found.symm.trans hrings
  refine ⟨field, hbuild, rfl, hmeets, hscale.trans (by decide +kernel), ?_⟩
  exact (hcomponents Ring.scaleX List.mem_cons_self).trans (by decide +kernel)

end Deformation

end

end Mannequin
