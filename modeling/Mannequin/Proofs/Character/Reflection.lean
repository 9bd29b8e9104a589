import Mathlib.Data.List.Forall2
import Mannequin.Character.BoneMesh
import Mannequin.Proofs.Concur
import Mannequin.Proofs.Geometry.Reflection

/-!
# Reflected meshes

A definition is placed in the frame of a bone, and its reflection in an opposite
frame. What comes of the second is opposite to what comes of the first: every piece
stands at the mirrored place and is deformed the other way round.
-/

namespace Mannequin

variable {α : Type} [Scalar α]

/-- The cross-section on the other side. -/
def Ring.reflect (r : Ring α) : Ring α :=
  { r with twist := -r.twist, offsetX := -r.offsetX, tiltY := -r.tiltY }

/-- The deformation on the other side. -/
def Deformation.reflect (field : Deformation α) : Deformation α :=
  { field with twist := -field.twist, rings := field.rings.map Ring.reflect }

/-- Two pieces are opposite: they are of one form and material, at opposite placements,
and the second is deformed the other way round. -/
structure Piece.Opposite (p q : Piece α) : Prop where
  form : q.form = p.form
  world : p.world.Opposite q.world
  field : q.field = p.field.map Deformation.reflect
  material : q.material = p.material

/-- Two operations are opposite: they are the same, with opposite operands. -/
structure PartOperation.Opposite (o u : PartOperation α) : Prop where
  op : u.op = o.op
  target : o.target.Opposite u.target

/-- Two parts are opposite, shape by shape. -/
structure Part.Opposite (p q : Part α) : Prop where
  base : p.base.Opposite q.base
  operations : List.Forall₂ PartOperation.Opposite p.operations q.operations

/-- Two meshes are opposite: the frames, the segments, the parts and the attachments are,
the second segment is deformed the other way round, and nothing else that is drawn or
applied differs. Bridges may still close one of two ends and not the other. -/
structure BoneMesh.Opposite (m n : BoneMesh α) : Prop where
  frame : m.frame.Opposite n.frame
  profile : n.profile = m.profile
  radius : n.radius = m.radius
  segment : m.segment.Opposite n.segment
  field : n.field = m.field.reflect
  part : Option.Rel Part.Opposite m.part n.part
  attachments : List.Forall₂ Piece.Opposite m.attachments n.attachments
  modifiers : n.modifiers = m.modifiers
  material : n.material = m.material

/-! ### Lengths and fields -/

theorem Length.concur_measure (loc loc' : Location) (boneLength : α) (l : Length α) :
    Concur Eq (measure loc boneLength l) (measure loc' boneLength l) := by
  have hscaled : ∀ (loc loc' : Location) (x factor : α),
      Concur Eq (scaled loc x factor) (scaled loc' x factor) :=
    fun _ _ _ _ => .bind_eq (.unit _ _) fun _ => .pure rfl
  refine .bind_eq (.unit _ _) fun _ => ?_
  cases l with
  | relative factor => exact .bind_eq (hscaled _ _ _ _) fun x => .pure rfl
  | pair first second =>
      refine .bind_eq (hscaled _ _ _ _) fun x => ?_
      exact .bind_eq (hscaled _ _ _ _) fun y => .pure rfl
  | absolute value => exact .bind_eq (hscaled _ _ _ _) fun x => .pure rfl

theorem BulgePoint.concur_check (loc loc' : Location) (index : Nat) (points : List (BulgePoint α)) :
    Concur Eq (check loc index points) (check loc' index points) := by
  induction points generalizing index with
  | nil => exact .pure rfl
  | cons p rest ih =>
      refine .bind_eq (.unit _ _) fun _ => ?_
      refine .bind_eq (.unit _ _) fun _ => ?_
      exact .bind_eq (ih (index + 1)) fun others => .pure rfl

theorem Deformation.concur_build (loc loc' : Location) (taper twist : α)
    (bulge : List (BulgePoint α)) (rings : List (Ring α)) :
    Concur (fun field image => image = field.reflect) (build loc taper bulge twist rings)
      (build loc' taper bulge (-twist) (rings.map Ring.reflect)) := by
  refine .bind_eq (.unit _ _) fun _ => ?_
  refine .bind_eq (.unit _ _) fun _ => ?_
  refine .bind_eq (BulgePoint.concur_check _ _ 0 bulge) fun clamped => ?_
  exact .bind_eq (.unit _ _) fun _ => .pure rfl

variable [Scalar.Signed α]

/-! ### Rings of reflected steps -/

theorem Ring.reflect_identity : (identity 0 : Ring α).reflect = identity 0 := by
  simp [identity, reflect]

namespace Blueprint.Step

theorem above_reflect (s : Step α) (ring : Ring α) (height : α) :
    s.reflect.above ring.reflect height = (s.above ring height).reflect := by
  simp [above, reflect, Ring.reflect, Vec3.mirror]

/-- The rings of two drawings are reflected into each other, and they are equally high. -/
def Reflected (d e : Drawing α) : Prop := e = { d with rings := d.rings.map Ring.reflect }

theorem concur_climb (loc loc' : Location) (index : Nat) (ring : Ring α) (height : α)
    (steps : List (Step α)) :
    Concur Reflected (climb loc index ring height steps)
      (climb loc' index ring.reflect height (steps.map reflect)) := by
  induction steps generalizing index ring height with
  | nil => exact .pure rfl
  | cons s rest ih =>
      have hnext : height + s.reflect.extrude + s.reflect.translate.z =
          height + s.extrude + s.translate.z := by
        simp [reflect, Vec3.mirror]
      rw [List.map_cons, climb, climb, hnext]
      split
      · rw [above_reflect]
        refine .bind (ih (index + 1) _ _) ?_
        rintro d _ rfl
        exact .pure rfl
      · exact .refused _ _

theorem fraction_reflect (height : α) (r : Ring α) :
    fraction height r.reflect = (fraction height r).reflect := by
  simp [fraction, Ring.reflect]

omit [Scalar.Signed α] in
theorem closeTop_map_reflect (rings : List (Ring α)) :
    closeTop (rings.map Ring.reflect) = (closeTop rings).map Ring.reflect := by
  induction rings with
  | nil => rfl
  | cons r rest ih =>
      cases rest with
      | nil => rfl
      | cons r' rest => exact congrArg (r.reflect :: ·) ih

theorem concur_draw (loc loc' : Location) (steps : List (Step α)) :
    Concur Reflected (draw loc steps) (draw loc' (steps.map reflect)) := by
  rw [draw, draw, List.isEmpty_map]
  split
  · exact .pure rfl
  · have hclimb := concur_climb (.key loc "extrusion_steps") (.key loc' "extrusion_steps") 0
      (Ring.identity 0) 0 steps
    rw [Ring.reflect_identity] at hclimb
    refine .bind hclimb ?_
    rintro d _ rfl
    have hrings : (Ring.identity 0 :: d.rings.map Ring.reflect).map (fraction d.height) =
        ((Ring.identity 0 :: d.rings).map (fraction d.height)).map Ring.reflect := by
      nth_rewrite 1 [← Ring.reflect_identity]
      rw [← List.map_cons, List.map_map, List.map_map]
      exact List.map_congr_left fun r _ => fraction_reflect d.height r
    refine .pure ?_
    rw [Reflected, hrings, closeTop_map_reflect]

end Blueprint.Step

/-! ### Pieces in opposite frames -/

namespace Blueprint

variable {f g : BoneFrame α}

theorem Primitive.opposite_place (p : Primitive α) (h : f.Opposite g) :
    (p.place f).Opposite (p.reflect.place g) := by
  refine ⟨rfl, ?_, rfl, rfl⟩
  simp only [place, reflect, Vec3.reflectOffset_eq, h.length]
  exact h.place _ _ _

theorem Asset.opposite_place (a : Asset α) (h : f.Opposite g) :
    (a.place f).Opposite (a.reflect.place g) := by
  refine ⟨rfl, ?_, rfl, rfl⟩
  simp only [place, reflect, Vec3.reflectOffset_eq]
  exact h.place _ _ _

theorem Shape.opposite_place (s : Shape α) (h : f.Opposite g) :
    (s.place f).Opposite (s.reflect.place g) := by
  cases s with
  | primitive shape => exact shape.opposite_place h
  | asset shape => exact shape.opposite_place h

theorem Part.opposite_place (p : Part α) (h : f.Opposite g) :
    (p.place f).Opposite (p.reflect.place g) := by
  refine ⟨p.base.opposite_place h, ?_⟩
  simp only [place, reflect, List.map_map, List.forall₂_map_left_iff, List.forall₂_map_right_iff,
    List.forall₂_same]
  exact fun o _ => ⟨rfl, o.target.opposite_place h⟩

/-- The ends of an extrusion are mirrored, so its own frame is opposite. -/
theorem Extrusion.concur_span (e : Extrusion α) (loc loc' : Location) (epsilon : α)
    (h : f.Opposite g) :
    Concur BoneFrame.Opposite (e.span loc f epsilon) (e.reflect.span loc' g epsilon) := by
  refine .mapError ?_
  simp only [reflect, Vec3.reflectOffset_eq, h.point]
  intro _ _ hspan hspan'
  exact BoneFrame.opposite_ofEnds hspan hspan'

theorem Extrusion.concur_place (e : Extrusion α) (loc loc' : Location) (epsilon : α)
    (h : f.Opposite g) :
    Concur Piece.Opposite (e.place loc f epsilon) (e.reflect.place loc' g epsilon) := by
  refine .bind (e.concur_span loc loc' epsilon h) fun span image hspan => ?_
  rw [h.length]
  refine .bind_eq (Length.concur_measure _ _ _ _) fun radius => ?_
  have hfield := Deformation.concur_build loc loc' e.taper 0 [] []
  rw [Scalar.Signed.neg_zero] at hfield
  refine .bind hfield ?_
  rintro field _ rfl
  refine .pure ⟨rfl, ⟨hspan.head, ?_, hspan.orientation.rotate⟩, rfl, rfl⟩
  rw [hspan.length]

theorem Attachment.concur_place (a : Attachment α) (loc loc' : Location) (epsilon : α)
    (h : f.Opposite g) :
    Concur Piece.Opposite (a.place loc f epsilon) (a.reflect.place loc' g epsilon) := by
  cases a with
  | primitive shape => exact .pure (shape.opposite_place h)
  | extrude shape => exact shape.concur_place _ _ epsilon h
  | asset shape => exact .pure (shape.opposite_place h)

theorem concur_placeAttachments (loc loc' : Location) (epsilon : α) (index : Nat)
    (attachments : List (Attachment α)) (h : f.Opposite g) :
    Concur (List.Forall₂ Piece.Opposite) (placeAttachments loc f epsilon index attachments)
      (placeAttachments loc' g epsilon index (attachments.map Attachment.reflect)) := by
  induction attachments generalizing index with
  | nil => exact .pure .nil
  | cons a rest ih =>
      refine .bind (a.concur_place _ _ epsilon h) fun piece image hpiece => ?_
      exact .bind (ih (index + 1)) fun others images hothers => .pure (.cons hpiece hothers)

/-- A definition on a bone and its reflection on the opposite bone make opposite meshes. -/
theorem BoneMesh.concur_place (m : BoneMesh α) (bone bone' : String)
    (parent parent' : Option String) (settings : Settings α) (h : f.Opposite g) :
    Concur Mannequin.BoneMesh.Opposite (m.place bone parent f settings)
      (m.reflect.place bone' parent' g settings) := by
  simp only [place]
  rw [h.length]
  refine .bind_eq (Length.concur_measure _ _ _ _) fun radius => ?_
  refine .bind (Step.concur_draw _ _ m.steps) ?_
  rintro drawing _ rfl
  refine .bind (Deformation.concur_build _ _ m.taper m.twist m.bulge drawing.rings) ?_
  rintro field _ rfl
  refine .bind (concur_placeAttachments _ _ _ 0 m.attachments h) fun pieces images hpieces => ?_
  refine .pure ⟨h, rfl, rfl, ?_, rfl, ?_, hpieces, rfl, rfl⟩
  · simp only [reflect, Vec3.reflectOffset_eq]
    exact h.place _ _ _
  · simp only [reflect]
    cases m.part with
    | none => exact .none
    | some part => exact .some (part.opposite_place h)

end Blueprint

end Mannequin
