import Mannequin.Proofs.Blueprint.Sound

/-!
# Accepted fields

A deformation field is accepted if all its numbers pass their checks, and it is then made
up of them: its bulge points are clamped to the segment and sorted, its rings are kept as
they are. What is known of an accepted field is known of these parts.
-/

namespace Mannequin

variable {α : Type} [Scalar α]

namespace BulgePoint

/-- The point within the segment. -/
def clamped (p : BulgePoint α) : BulgePoint α := { p with position := Scalar.clamp 0 1 p.position }

theorem insert_perm (p : BulgePoint α) (points : List (BulgePoint α)) :
    (insert p points).Perm (p :: points) := by
  induction points with
  | nil => exact .refl _
  | cons first rest ih =>
      rw [insert]
      split
      · exact (ih.cons first).trans (.swap p first rest)
      · exact .refl _

/-- Sorting loses no point and adds none. -/
theorem sort_perm (points : List (BulgePoint α)) : (sort points).Perm points := by
  induction points with
  | nil => exact .refl _
  | cons p rest ih => exact (insert_perm p (sort rest)).trans (ih.cons p)

/-- Points pass their checks exactly if they are sound, and are then clamped. -/
theorem check_eq_ok_iff {loc : Location} {index : Nat} {points checked : List (BulgePoint α)} :
    check loc index points = .ok checked ↔
      (∀ p ∈ points, p.Sound) ∧ checked = points.map clamped := by
  constructor
  · intro h
    have hsound : ∀ p ∈ points, p.Sound := by
      induction points generalizing index checked with
      | nil => exact nofun
      | cons p rest ih =>
          obtain ⟨_, hposition, h⟩ := bind_eq_ok.mp h
          obtain ⟨_, hscale, h⟩ := bind_eq_ok.mp h
          obtain ⟨others, hothers, -⟩ := bind_eq_ok.mp h
          refine List.forall_mem_cons.mpr ⟨⟨?_, ?_⟩, ih hothers⟩
          · exact Field.finite_eq_ok.mp hposition
          · exact Field.positive_eq_ok.mp hscale
    rw [check_eq_ok hsound] at h
    exact ⟨hsound, (Except.ok.inj h).symm⟩
  · rintro ⟨hsound, rfl⟩
    exact check_eq_ok hsound loc index

end BulgePoint

namespace Ring

/-- What is checked of a ring by itself. -/
structure Sound (r : Ring α) : Prop where
  position : Scalar.isFinite r.position = true
  within : ¬ r.position < 0 ∧ ¬ 1 < r.position
  scale : Scalar.IsPositive r.scaleX ∧ Scalar.IsPositive r.scaleY
  twist : Scalar.isFinite r.twist = true
  offset : Scalar.isFinite r.offsetX = true ∧ Scalar.isFinite r.offsetY = true
  tilt : Scalar.isFinite r.tiltX = true ∧ Scalar.isFinite r.tiltY = true

/-- Every ring stands above the one before it. -/
def Ascending (rings : List (Ring α)) : Prop :=
  rings.IsChain fun r r' => ¬ r'.position ≤ r.position

theorem check_cons_eq_ok {loc : Location} {index : Nat} {below : Option α} {r : Ring α}
    {rest : List (Ring α)} :
    check loc index below (r :: rest) = .ok () ↔
      r.Sound ∧ (∀ last ∈ below, ¬ r.position ≤ last) ∧
        check loc (index + 1) (some r.position) rest = .ok () := by
  constructor
  · intro h
    obtain ⟨_, hposition, h⟩ := bind_eq_ok.mp h
    split at h
    case isTrue => cases h
    case isFalse hwithin =>
      obtain ⟨_, hscaleX, h⟩ := bind_eq_ok.mp h
      obtain ⟨_, hscaleY, h⟩ := bind_eq_ok.mp h
      obtain ⟨_, htwist, h⟩ := bind_eq_ok.mp h
      obtain ⟨_, hoffsetX, h⟩ := bind_eq_ok.mp h
      obtain ⟨_, hoffsetY, h⟩ := bind_eq_ok.mp h
      obtain ⟨_, htiltX, h⟩ := bind_eq_ok.mp h
      obtain ⟨_, htiltY, h⟩ := bind_eq_ok.mp h
      simp only [not_or, Option.any_eq_true, decide_eq_true_eq, not_exists, not_and] at hwithin
      obtain ⟨hlow, hhigh, hbelow⟩ := hwithin
      exact ⟨⟨Field.finite_eq_ok.mp hposition, ⟨hlow, hhigh⟩,
        ⟨Field.positive_eq_ok.mp hscaleX, Field.positive_eq_ok.mp hscaleY⟩,
        Field.finite_eq_ok.mp htwist,
        ⟨Field.finite_eq_ok.mp hoffsetX, Field.finite_eq_ok.mp hoffsetY⟩,
        ⟨Field.finite_eq_ok.mp htiltX, Field.finite_eq_ok.mp htiltY⟩⟩, hbelow, h⟩
  · rintro ⟨hr, hbelow, hrest⟩
    refine bind_eq_ok.mpr ⟨(), Field.finite_eq_ok.mpr hr.position, ?_⟩
    rw [if_neg]
    case hnc =>
      simp only [not_or, Option.any_eq_true, decide_eq_true_eq, not_exists, not_and]
      exact ⟨hr.within.1, hr.within.2, hbelow⟩
    refine bind_eq_ok.mpr ⟨(), Field.positive_eq_ok.mpr hr.scale.1, ?_⟩
    refine bind_eq_ok.mpr ⟨(), Field.positive_eq_ok.mpr hr.scale.2, ?_⟩
    refine bind_eq_ok.mpr ⟨(), Field.finite_eq_ok.mpr hr.twist, ?_⟩
    refine bind_eq_ok.mpr ⟨(), Field.finite_eq_ok.mpr hr.offset.1, ?_⟩
    refine bind_eq_ok.mpr ⟨(), Field.finite_eq_ok.mpr hr.offset.2, ?_⟩
    refine bind_eq_ok.mpr ⟨(), Field.finite_eq_ok.mpr hr.tilt.1, ?_⟩
    exact bind_eq_ok.mpr ⟨(), Field.finite_eq_ok.mpr hr.tilt.2, hrest⟩

/-- Rings pass their checks exactly if each of them is sound and they ascend, the first of
them from the height below, if there is one. -/
theorem check_eq_ok {loc : Location} {index : Nat} {below : Option α} {rings : List (Ring α)} :
    check loc index below rings = .ok () ↔
      (∀ r ∈ rings, r.Sound) ∧ Ascending rings ∧
        ∀ last ∈ below, ∀ r ∈ rings.head?, ¬ r.position ≤ last := by
  induction rings generalizing index below with
  | nil => exact iff_of_true rfl ⟨nofun, .nil, nofun⟩
  | cons r rest ih =>
      rw [check_cons_eq_ok, ih]
      simp only [Ascending, List.isChain_cons, List.forall_mem_cons, List.head?_cons,
        Option.mem_some_iff, forall_eq']
      tauto

end Ring

namespace Deformation

/-- What a field is accepted for. -/
structure Acceptable (taper : α) (bulge : List (BulgePoint α)) (twist : α)
    (rings : List (Ring α)) : Prop where
  taperPositive : Scalar.IsPositive taper
  twistFinite : Scalar.isFinite twist = true
  bulgeSound : ∀ p ∈ bulge, p.Sound
  ringsSound : ∀ r ∈ rings, r.Sound
  ascending : Ring.Ascending rings

/-- A field is built exactly from parts that are acceptable. -/
theorem build_eq_ok {loc : Location} {taper : α} {bulge : List (BulgePoint α)} {twist : α}
    {rings : List (Ring α)} {field : Deformation α} :
    build loc taper bulge twist rings = .ok field ↔
      Acceptable taper bulge twist rings ∧
        field = ⟨taper, twist, BulgePoint.sort (bulge.map BulgePoint.clamped), rings⟩ := by
  constructor
  · intro h
    obtain ⟨_, htaper, h⟩ := bind_eq_ok.mp h
    obtain ⟨_, htwist, h⟩ := bind_eq_ok.mp h
    obtain ⟨_, hbulge, h⟩ := bind_eq_ok.mp h
    obtain ⟨_, hrings, h⟩ := bind_eq_ok.mp h
    obtain ⟨hpoints, rfl⟩ := BulgePoint.check_eq_ok_iff.mp hbulge
    obtain ⟨hsound, hascending, -⟩ := Ring.check_eq_ok.mp hrings
    cases h
    exact ⟨⟨Field.positive_eq_ok.mp htaper, Field.finite_eq_ok.mp htwist, hpoints, hsound,
      hascending⟩, rfl⟩
  · rintro ⟨h, rfl⟩
    refine bind_eq_ok.mpr ⟨(), Field.positive_eq_ok.mpr h.taperPositive, ?_⟩
    refine bind_eq_ok.mpr ⟨(), Field.finite_eq_ok.mpr h.twistFinite, ?_⟩
    refine bind_eq_ok.mpr ⟨_, BulgePoint.check_eq_ok_iff.mpr ⟨h.bulgeSound, rfl⟩, ?_⟩
    exact bind_eq_ok.mpr ⟨(), Ring.check_eq_ok.mpr ⟨h.ringsSound, h.ascending, nofun⟩, rfl⟩

/-- A field that has been accepted. -/
def IsBuilt (field : Deformation α) : Prop :=
  ∃ loc taper bulge twist rings, build loc taper bulge twist rings = .ok field

end Deformation

end Mannequin
