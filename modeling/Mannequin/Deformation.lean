import Mannequin.Field

/-!
# Deformation fields

A field says how the cross-section of a segment changes with the height above
its start, measured in fractions of its height. A taper and a list of bulge
points scale it, a twist turns it, and a list of rings scales, turns, shifts and
tilts it further. Between two bulge points and between two rings the values are
interpolated linearly.

Building a field checks every number. Bulge points are clamped to the segment
and sorted by position, points of one position keeping their order; rings must
already ascend.
-/

namespace Mannequin

/-- A scale of the cross-section at one height. -/
structure BulgePoint (α : Type) where
  position : α
  scale : α
  deriving DecidableEq

/-- The shape of the cross-section at one height. Angles are in degrees, offsets in
segment heights. -/
structure Ring (α : Type) where
  position : α
  scaleX : α
  scaleY : α
  twist : α
  offsetX : α
  offsetY : α
  tiltX : α
  tiltY : α
  deriving DecidableEq

/-- What a field does at one height. Angles are in radians. -/
structure FieldSample (α : Type) where
  radialScale : α
  twist : α
  scaleX : α
  scaleY : α
  offsetX : α
  offsetY : α
  tiltX : α
  tiltY : α
  deriving DecidableEq

/-- The deformation of a segment. The twist is in degrees over the whole height. -/
structure Deformation (α : Type) where
  taper : α
  twist : α
  bulge : List (BulgePoint α)
  rings : List (Ring α)
  deriving DecidableEq

/-- Why rings make no field. -/
inductive RingFault where
  | notAscending
  deriving DecidableEq, Repr

instance : Cause RingFault where
  kind _ := .range
  message _ := "ring heights must increase within the segment"

variable {α : Type} [Scalar α]

namespace Ring

/-- The ring that changes nothing, at a given height. -/
def identity (position : α) : Ring α := ⟨position, 1, 1, 0, 0, 0, 0, 0⟩

/-- The ring at height `t` on the way from one ring to the next. -/
def interpolate (r₀ r₁ : Ring α) (t : α) : Ring α :=
  let f := (t - r₀.position) / (r₁.position - r₀.position)
  let mix (a b : α) : α := a + (b - a) * f
  { position := t
    scaleX := mix r₀.scaleX r₁.scaleX
    scaleY := mix r₀.scaleY r₁.scaleY
    twist := mix r₀.twist r₁.twist
    offsetX := mix r₀.offsetX r₁.offsetX
    offsetY := mix r₀.offsetY r₁.offsetY
    tiltX := mix r₀.tiltX r₁.tiltX
    tiltY := mix r₀.tiltY r₁.tiltY }

/-- Whether the ring leaves the cross-section alone. -/
def IsNeutral (r : Ring α) : Prop :=
  Scalar.Agree r.scaleX 1 ∧ Scalar.Agree r.scaleY 1 ∧ Scalar.Agree r.twist 0 ∧
    Scalar.Agree r.offsetX 0 ∧ Scalar.Agree r.offsetY 0 ∧ Scalar.Agree r.tiltX 0 ∧
    Scalar.Agree r.tiltY 0

instance (r : Ring α) : Decidable r.IsNeutral := inferInstanceAs (Decidable (_ ∧ _))

/-- Demand rings that ascend from above `below` inside the segment, with positive scales
and finite values. -/
def check (loc : Location) (index : Nat) (below : Option α) : List (Ring α) → Except Error Unit
  | [] => .ok ()
  | r :: rest => do
    let place := Location.item loc index
    Field.finite place r.position
    if r.position < 0 ∨ 1 < r.position ∨ below.any (fun last => r.position ≤ last) then
      refuse RingFault.notAscending place.render
    Field.positive place r.scaleX
    Field.positive place r.scaleY
    Field.finite place r.twist
    Field.finite place r.offsetX
    Field.finite place r.offsetY
    Field.finite place r.tiltX
    Field.finite place r.tiltY
    check loc (index + 1) (some r.position) rest

end Ring

namespace BulgePoint

/-- Demand finite positions and positive scales; positions are clamped to the segment. -/
def check (loc : Location) (index : Nat) : List (BulgePoint α) → Except Error (List (BulgePoint α))
  | [] => .ok []
  | p :: rest => do
    let place := Location.item loc index
    Field.finite (.key place "at") p.position
    Field.positive (.key place "scale") p.scale
    let others ← check loc (index + 1) rest
    return { p with position := Scalar.clamp 0 1 p.position } :: others

/-- Insert a point before the first one that is not below it. -/
def insert (p : BulgePoint α) : List (BulgePoint α) → List (BulgePoint α)
  | [] => [p]
  | q :: rest => if q.position < p.position then q :: insert p rest else p :: q :: rest

/-- The points by position; points of one position keep their order. -/
def sort (points : List (BulgePoint α)) : List (BulgePoint α) := points.foldr insert []

end BulgePoint

namespace Deformation

/-- The field of checked parts. -/
def build (loc : Location) (taper : α) (bulge : List (BulgePoint α)) (twist : α)
    (rings : List (Ring α)) : Except Error (Deformation α) := do
  Field.positive (.key loc "taper") taper
  Field.finite (.key loc "twist") twist
  let clamped ← BulgePoint.check (.key loc "bulge") 0 bulge
  Ring.check (.key loc "extrusion_steps") 0 none rings
  return { taper, twist, bulge := BulgePoint.sort clamped, rings }

/-- The scale at height `t` that the taper gives. -/
def taperScale (field : Deformation α) (t : α) : α := 1 + (field.taper - 1) * t

/-- The scale at height `t` between two neighbours of a list of points. -/
def scaleBetween (t : α) : List (BulgePoint α) → α
  | p₀ :: p₁ :: rest =>
    if p₁.position < t then scaleBetween t (p₁ :: rest)
    else
      let span := p₁.position - p₀.position
      if span ≤ 0 then p₁.scale
      else
        let f := (t - p₀.position) / span
        p₀.scale + (p₁.scale - p₀.scale) * f
  | [p] => p.scale
  | [] => 1

/-- The scale at height `t` that the bulge points give. Outside of them the nearest counts. -/
def bulgeScale (field : Deformation α) (t : α) : α :=
  match field.bulge.head?, field.bulge.getLast? with
  | some first, some last =>
    if t ≤ first.position then first.scale
    else if last.position ≤ t then last.scale
    else scaleBetween t field.bulge
  | _, _ => 1

/-- The turn at height `t` that the twist gives, in radians. -/
def twistRadians (field : Deformation α) (t : α) : α := Scalar.radians (field.twist * t)

/-- The ring at height `t` between two neighbours of a list of rings. A ring without a
neighbour is taken for both. -/
def ringBetween (t : α) : List (Ring α) → Ring α
  | r₀ :: r₁ :: rest =>
    if r₁.position < t then ringBetween t (r₁ :: rest) else r₀.interpolate r₁ t
  | [r] => r.interpolate r t
  | [] => Ring.identity t

/-- The ring at height `t`. Outside of the rings the nearest counts. -/
def ringAt (field : Deformation α) (t : α) : Ring α :=
  match field.rings.head?, field.rings.getLast? with
  | some first, some last =>
    if t ≤ first.position then first
    else if last.position ≤ t then last
    else ringBetween t field.rings
  | _, _ => Ring.identity t

/-- What the field does at height `t`. -/
def evaluate (field : Deformation α) (t : α) : FieldSample α :=
  let ring := field.ringAt t
  { radialScale := field.taperScale t * field.bulgeScale t
    twist := field.twistRadians t + Scalar.radians ring.twist
    scaleX := ring.scaleX
    scaleY := ring.scaleY
    offsetX := ring.offsetX
    offsetY := ring.offsetY
    tiltX := Scalar.radians ring.tiltX
    tiltY := Scalar.radians ring.tiltY }

/-- Whether no part of the field changes anything. -/
def IsIdentity (field : Deformation α) : Prop :=
  Scalar.Agree field.taper 1 ∧ Scalar.Agree field.twist 0 ∧
    (∀ p ∈ field.bulge, Scalar.Agree p.scale 1) ∧ ∀ r ∈ field.rings, r.IsNeutral

instance (field : Deformation α) : Decidable field.IsIdentity :=
  inferInstanceAs (Decidable (_ ∧ _))

end Deformation

end Mannequin
