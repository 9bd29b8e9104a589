import Mannequin.Proofs.Deformation
import Mannequin.Proofs.Scalar.Total

/-!
# Sorting bulge points

Sorting inserts the points one by one, the last of them first, and each of them before all
others of its position. So the points come to stand in the order of their positions, and
those of one position in the order in which they stood. Over floating point numbers the two
zeros are one position.

Nothing but the order of the positions decides where a point comes to stand. If no two points
are at one position there is only one order that they can be in, whatever order they had.
-/

namespace Mannequin.BulgePoint

variable {α : Type} [Scalar α]

/-- The points of one list stand in another in the order of their positions, those of one
position in the order in which they stood. -/
structure Sorts (points sorted : List (BulgePoint α)) : Prop where
  perm : sorted.Perm points
  ascending : sorted.Pairwise fun p q => p.position ≤ q.position
  stable : ∀ x : α, sorted.filter (fun p => Scalar.Agree p.position x) =
    points.filter fun p => Scalar.Agree p.position x

/-- Points of which no two are at one position. -/
def Apart (points : List (BulgePoint α)) : Prop :=
  points.Pairwise fun p q => ¬ Scalar.Agree p.position q.position

/-- Points that are apart can be told by their positions. -/
theorem Apart.eq_of_agree {points : List (BulgePoint α)} (h : Apart points) {p q : BulgePoint α}
    (hp : p ∈ points) (hq : q ∈ points) (hagree : Scalar.Agree p.position q.position) : p = q := by
  have : Std.Symm fun p q : BulgePoint α => ¬ Scalar.Agree p.position q.position :=
    ⟨fun _ _ hnot hagree => hnot ⟨hagree.2, hagree.1⟩⟩
  by_contra hne
  exact h.forall hp hq hne hagree

/-- There is only one way to sort points that are apart, whatever order they are given in. -/
theorem Sorts.unique {points points' sorted sorted' : List (BulgePoint α)}
    (h : Sorts points sorted) (h' : Sorts points' sorted') (hperm : points'.Perm points)
    (hapart : Apart points) : sorted' = sorted := by
  have hsame : sorted'.Perm sorted := h'.perm.trans (hperm.trans h.perm.symm)
  refine hsame.eq_of_pairwise (fun p q hp hq hle hge => ?_) h'.ascending h.ascending
  exact hapart.eq_of_agree ((h.perm.mem_iff).mp (hsame.mem_iff.mp hp)) (h.perm.mem_iff.mp hq)
    ⟨hle, hge⟩

/-! ### Insertion -/

variable [Scalar.Linear α]

theorem pairwise_insert {p : BulgePoint α} {points : List (BulgePoint α)}
    (hp : Scalar.isFinite p.position = true)
    (hfinite : ∀ q ∈ points, Scalar.isFinite q.position = true)
    (h : points.Pairwise fun p q => p.position ≤ q.position) :
    (insert p points).Pairwise fun p q => p.position ≤ q.position := by
  induction points with
  | nil => exact List.pairwise_singleton _ p
  | cons first rest ih =>
      obtain ⟨hfirst, hrest⟩ := List.pairwise_cons.mp h
      obtain ⟨hfinite, hothers⟩ := List.forall_mem_cons.mp hfinite
      rw [insert]
      split
      case isTrue hlt =>
        refine List.pairwise_cons.mpr ⟨fun q hq => ?_, ih hothers hrest⟩
        rcases List.mem_cons.mp ((insert_perm p rest).mem_iff.mp hq) with rfl | hq
        · exact Scalar.Total.le_of_lt _ _ hlt
        · exact hfirst q hq
      case isFalse hnot =>
        have hle : p.position ≤ first.position := Scalar.le_of_not_lt hp hfinite hnot
        refine List.pairwise_cons.mpr ⟨fun q hq => ?_, h⟩
        rcases List.mem_cons.mp hq with rfl | hq
        · exact hle
        · exact Scalar.Ordered.le_trans _ _ _ hle (hfirst q hq)

/-- A point that is inserted comes to stand before all others of its position. -/
theorem filter_insert (p : BulgePoint α) (points : List (BulgePoint α)) (x : α) :
    (insert p points).filter (fun q => Scalar.Agree q.position x) =
      (p :: points).filter fun q => Scalar.Agree q.position x := by
  induction points with
  | nil => rfl
  | cons first rest ih =>
      rw [insert]
      split
      case isTrue hlt =>
        rw [List.filter_cons, ih]
        by_cases hp : Scalar.Agree p.position x
        · -- A point that is passed by is below the inserted one, so it is not at its position.
          have hfirst : ¬ Scalar.Agree first.position x := fun hagree =>
            Scalar.Linear.not_le_of_lt _ _ hlt
              (Scalar.Ordered.le_trans _ _ _ hp.1 hagree.2)
          simp [hp, hfirst]
        · simp [List.filter_cons, hp]
      case isFalse => rfl

/-- Finite positions are sorted, and the points of one position keep their order. -/
theorem sorts_sort {points : List (BulgePoint α)}
    (hfinite : ∀ p ∈ points, Scalar.isFinite p.position = true) : Sorts points (sort points) := by
  refine ⟨sort_perm points, ?_, fun x => ?_⟩
  · induction points with
    | nil => exact .nil
    | cons p rest ih =>
        obtain ⟨hp, hrest⟩ := List.forall_mem_cons.mp hfinite
        have hsorted : ∀ q ∈ sort rest, Scalar.isFinite q.position = true :=
          fun q hq => hrest q ((sort_perm rest).mem_iff.mp hq)
        exact pairwise_insert hp hsorted (ih hrest)
  · induction points with
    | nil => rfl
    | cons p rest ih =>
        refine (filter_insert p (sort rest) x).trans ?_
        rw [List.filter_cons, List.filter_cons, ih (List.forall_mem_cons.mp hfinite).2]

end Mannequin.BulgePoint
