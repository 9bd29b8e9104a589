import Mannequin.Proofs.Deformation.Sorting
import Mannequin.Proofs.Scalar.Finite

/-!
# Fields of points in another order

The order in which bulge points are given matters only among points that the segment holds at
one position. The checks look at every point by itself, so they pass in any order; and points
that are apart once they are clamped are sorted into the same list, so the field is the same.
-/

namespace Mannequin

variable {α : Type} [Scalar α] [Scalar.Symmetric α] [Scalar.Linear α]

namespace Scalar

theorem isFinite_clamp {x : α} (hx : isFinite x = true) : isFinite (clamp 0 1 x) = true := by
  rw [clamp]
  split
  · exact Symmetric.isFinite_zero
  · split
    · exact Ordered.isPositive_one.1
    · exact hx

end Scalar

namespace Deformation

/-- The bulge points of a field are those that were given, clamped and sorted. -/
theorem sorts_of_build {loc : Location} {taper twist : α} {bulge : List (BulgePoint α)}
    {rings : List (Ring α)} {field : Deformation α}
    (h : build loc taper bulge twist rings = .ok field) :
    BulgePoint.Sorts (bulge.map BulgePoint.clamped) field.bulge := by
  obtain ⟨hacceptable, rfl⟩ := build_eq_ok.mp h
  apply BulgePoint.sorts_sort
  intro p hp
  obtain ⟨q, hq, rfl⟩ := List.mem_map.mp hp
  exact Scalar.isFinite_clamp (hacceptable.bulgeSound q hq).position

omit [Scalar.Symmetric α] [Scalar.Linear α] in
/-- What makes points acceptable does not depend on their order. -/
theorem Acceptable.perm {taper twist : α} {bulge bulge' : List (BulgePoint α)}
    {rings : List (Ring α)} (h : Acceptable taper bulge twist rings) (hperm : bulge'.Perm bulge) :
    Acceptable taper bulge' twist rings :=
  { h with bulgeSound := fun p hp => h.bulgeSound p (hperm.mem_iff.mp hp) }

/-- A field can be built from bulge points exactly if it can be built from them in any other
order. If no two of them are clamped to one position the fields are the same, and so is what
they do at every height. In every field the points of one position keep the order in which they
were given. -/
theorem build_reordered (loc : Location) (taper twist : α) (rings : List (Ring α))
    {bulge bulge' : List (BulgePoint α)} (hperm : bulge'.Perm bulge) :
    ((∃ field, build loc taper bulge twist rings = .ok field) ↔
      ∃ field, build loc taper bulge' twist rings = .ok field) ∧
    (BulgePoint.Apart (bulge.map BulgePoint.clamped) → ∀ field field',
      build loc taper bulge twist rings = .ok field →
      build loc taper bulge' twist rings = .ok field' →
      field' = field ∧ ∀ t, field'.evaluate t = field.evaluate t) ∧
    ∀ field, build loc taper bulge twist rings = .ok field →
      BulgePoint.Sorts (bulge.map BulgePoint.clamped) field.bulge := by
  refine ⟨⟨?_, ?_⟩, ?_, fun field => sorts_of_build⟩
  · rintro ⟨_, h⟩
    exact ⟨_, build_eq_ok.mpr ⟨(build_eq_ok.mp h).1.perm hperm, rfl⟩⟩
  · rintro ⟨_, h⟩
    exact ⟨_, build_eq_ok.mpr ⟨(build_eq_ok.mp h).1.perm hperm.symm, rfl⟩⟩
  · intro hapart field field' h h'
    have hbulge : field'.bulge = field.bulge :=
      (sorts_of_build h).unique (sorts_of_build h') (hperm.map _) hapart
    have hfield : field' = field := by
      obtain ⟨-, rfl⟩ := build_eq_ok.mp h
      obtain ⟨-, rfl⟩ := build_eq_ok.mp h'
      exact congrArg (Deformation.mk taper twist · rings) hbulge
    exact ⟨hfield, fun t => by rw [hfield]⟩

/-- Points inside of the segment, behind it and before it. -/
def waistBulge : List (BulgePoint Float) := [⟨0.5, 0.75⟩, ⟨3, 2⟩, ⟨-2, 1.5⟩]

/-- Points that are clamped to both ends of the segment and to its middle make the same field
in either direction. -/
theorem build_reordered_waist : ∃ field,
    build (.root "waist") 1 waistBulge 0 [] = .ok field ∧
      build (.root "waist") 1 waistBulge.reverse 0 [] = .ok field ∧
      field.bulge = [⟨0, 1.5⟩, ⟨0.5, 0.75⟩, ⟨1, 2⟩] ∧
      BulgePoint.Sorts (waistBulge.map BulgePoint.clamped) field.bulge := by
  let field : Deformation Float := ⟨1, 0, [⟨0, 1.5⟩, ⟨0.5, 0.75⟩, ⟨1, 2⟩], []⟩
  have hbuild : build (.root "waist") 1 waistBulge 0 [] = .ok field := by decide +kernel
  have hapart : BulgePoint.Apart (waistBulge.map BulgePoint.clamped) := by
    unfold BulgePoint.Apart
    decide +kernel
  obtain ⟨haccepts, hsame, hsorts⟩ :=
    build_reordered (.root "waist") 1 0 [] waistBulge.reverse_perm
  obtain ⟨field', hbuild'⟩ := haccepts.mp ⟨field, hbuild⟩
  obtain ⟨rfl, -⟩ := hsame hapart field field' hbuild hbuild'
  exact ⟨field, hbuild, hbuild', rfl, hsorts field hbuild⟩

end Deformation

end Mannequin
