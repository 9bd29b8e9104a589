import Mannequin.Proofs.Deformation

/-!
# Neighbours at a height

Bulge points and rings are searched in the same way: the list is gone through from below
until a member is met that is not below the height, and this one and the one before it are
taken. Between the ends of the list the search always meets such a member, in whatever order
the list stands, and the one before it lies below the height.
-/

namespace Mannequin.Deformation

variable {α β : Type} [Scalar α]

/-- The neighbours at which the search of a list for a height ends. There are none if it
runs off the list. -/
def neighbours (position : β → α) (t : α) : List β → Option (β × β)
  | x :: y :: rest =>
    if position y < t then neighbours position t (y :: rest) else some (x, y)
  | _ => none

/-- At a place of a list, a height lies above the one neighbour and not above the other. -/
structure Straddles (position : β → α) (t : α) (l : List β) (i : Nat) (x y : β) : Prop where
  lower : l[i]? = some x
  upper : l[i + 1]? = some y
  below : position x < t
  notBelow : ¬ position y < t

namespace Straddles

variable {position : β → α} {t : α} {l : List β} {i : Nat} {x y : β}

theorem cons (h : Straddles position t l i x y) (z : β) :
    Straddles position t (z :: l) (i + 1) x y :=
  ⟨h.lower, h.upper, h.below, h.notBelow⟩

theorem mem_lower (h : Straddles position t l i x y) : x ∈ l := List.mem_of_getElem? h.lower

theorem mem_upper (h : Straddles position t l i x y) : y ∈ l := List.mem_of_getElem? h.upper

end Straddles

/-- Between the ends of a list the search ends at neighbours that the height lies between. -/
theorem exists_straddles {position : β → α} {t : α} {l : List β} {first last : β}
    (hfirst : l.head? = some first) (hlast : l.getLast? = some last)
    (hbelow : position first < t) (habove : ¬ position last < t) :
    ∃ i x y, neighbours position t l = some (x, y) ∧ Straddles position t l i x y := by
  fun_induction neighbours position t l generalizing first with
  | case1 x y rest hlt ih =>
      obtain ⟨i, x', y', hfound, hstraddles⟩ := ih rfl (by simpa using hlast) hlt
      exact ⟨i + 1, x', y', hfound, hstraddles.cons x⟩
  | case2 x y rest hnot =>
      obtain rfl : x = first := Option.some.inj hfirst
      exact ⟨0, x, y, rfl, rfl, rfl, hbelow, hnot⟩
  | case3 l hshort =>
      -- A list with one member has it at both ends.
      match l, hshort with
      | [], _ => cases hfirst
      | [x], _ =>
          obtain rfl : x = first := Option.some.inj hfirst
          obtain rfl : x = last := Option.some.inj hlast
          exact absurd hbelow habove
      | x :: y :: rest, hshort => exact absurd rfl (hshort x y rest)

/-! ### The searches of a field -/

/-- The scale between two bulge points. Points of one position make a step. -/
def scaleFrom (t : α) (p₀ p₁ : BulgePoint α) : α :=
  if p₁.position - p₀.position ≤ 0 then p₁.scale
  else p₀.scale + (p₁.scale - p₀.scale) * ((t - p₀.position) / (p₁.position - p₀.position))

/-- The scale between bulge points is found at the neighbours; if there are none, it is that
of the last point. -/
theorem scaleBetween_eq (t : α) (points : List (BulgePoint α)) :
    scaleBetween t points =
      match neighbours BulgePoint.position t points with
      | some (p₀, p₁) => scaleFrom t p₀ p₁
      | none => (points.getLast?.map BulgePoint.scale).getD 1 := by
  fun_induction neighbours BulgePoint.position t points with
  | case1 p₀ p₁ rest hlt ih => rw [scaleBetween, if_pos hlt, ih, List.getLast?_cons_cons]
  | case2 p₀ p₁ rest hnot =>
      rw [scaleBetween, if_neg hnot]
      rfl
  | case3 points hshort =>
      match points, hshort with
      | [], _ => rfl
      | [p], _ => rfl
      | p₀ :: p₁ :: rest, hshort => exact absurd rfl (hshort p₀ p₁ rest)

/-- The ring between rings is found at the neighbours; if there are none, the last ring is
taken for both of them. -/
theorem ringBetween_eq (t : α) (rings : List (Ring α)) :
    ringBetween t rings =
      match neighbours Ring.position t rings with
      | some (r₀, r₁) => r₀.interpolate r₁ t
      | none => (rings.getLast?.map fun r => r.interpolate r t).getD (Ring.identity t) := by
  fun_induction neighbours Ring.position t rings with
  | case1 r₀ r₁ rest hlt ih => rw [ringBetween, if_pos hlt, ih, List.getLast?_cons_cons]
  | case2 r₀ r₁ rest hnot => rw [ringBetween, if_neg hnot]
  | case3 rings hshort =>
      match rings, hshort with
      | [], _ => rfl
      | [r], _ => rfl
      | r₀ :: r₁ :: rest, hshort => exact absurd rfl (hshort r₀ r₁ rest)

end Mannequin.Deformation
