import Mannequin.Blueprint.Step
import Mannequin.Deformation

/-!
# Rings of extrusion steps

Extrusion steps add up: each ring is the one below it, moved and changed by one
step. The rings start with the identity at height zero. Heights and offsets are
then divided by the height of the last ring, so the segment runs from zero to
one.
-/

namespace Mannequin.Blueprint

/-- Why steps make no rings. -/
inductive StepFault where
  | notAdvancing
  deriving DecidableEq, Repr

instance : Cause StepFault where
  kind _ := .range
  message _ := "extrusion step does not advance along the bone"

/-- The rings of a segment and its height in bone lengths. -/
structure Drawing (α : Type) where
  rings : List (Ring α)
  height : α
  deriving DecidableEq

namespace Step

variable {α : Type} [Scalar α]

/-- The ring above a ring, at the height that a step reaches. -/
def above (s : Step α) (ring : Ring α) (height : α) : Ring α :=
  { position := height
    scaleX := ring.scaleX * (s.scaleX * s.bulgeSide)
    scaleY := ring.scaleY * (s.scaleY * s.bulgeFront)
    twist := ring.twist + s.rotate
    offsetX := ring.offsetX + s.translate.x
    offsetY := ring.offsetY + s.translate.y
    tiltX := ring.tiltX + s.tiltX
    tiltY := ring.tiltY + s.tiltY }

/-- The rings above a ring, and the height of the last one. Every step must end
above the ring it starts from. -/
def climb (loc : Location) (index : Nat) (ring : Ring α) (height : α) :
    List (Step α) → Except Error (Drawing α)
  | [] => .ok ⟨[], height⟩
  | s :: rest =>
    let next := height + s.extrude + s.translate.z
    if height < next then do
      let ring := s.above ring next
      let drawing ← climb loc (index + 1) ring next rest
      return { drawing with rings := ring :: drawing.rings }
    else refuse StepFault.notAdvancing (Location.item loc index).render

/-- A ring with its height and offsets as fractions of a height. -/
def fraction (height : α) (r : Ring α) : Ring α :=
  { r with
    position := r.position / height
    offsetX := r.offsetX / height
    offsetY := r.offsetY / height }

/-- The rings with the last one at height one. -/
def closeTop : List (Ring α) → List (Ring α)
  | [] => []
  | [r] => [{ r with position := 1 }]
  | r :: rest => r :: closeTop rest

/-- The rings of a list of steps. Without steps there are none, and the segment
is as high as the bone is long. -/
def draw (loc : Location) (steps : List (Step α)) : Except Error (Drawing α) :=
  if steps.isEmpty then .ok ⟨[], 1⟩
  else do
    let base := Ring.identity (0 : α)
    let drawing ← climb (.key loc "extrusion_steps") 0 base 0 steps
    let rings := (base :: drawing.rings).map (fraction drawing.height)
    return { drawing with rings := closeTop rings }

end Step

end Mannequin.Blueprint
