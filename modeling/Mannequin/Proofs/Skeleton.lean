import Mannequin.Proofs.Geometry.Reflection
import Mannequin.Proofs.Skeleton.Description

/-!
# Skeletons and their frames

Every bone that a skeleton takes in comes with the frame of its ends, and nothing
that is done to a skeleton later moves a bone. So on opposite bones the frames are
opposite.
-/

namespace Mannequin.Skeleton

variable {α : Type} [Scalar α]

/-- Every joint has the frame of its bone. -/
def Framed (s : Skeleton α) : Prop :=
  ∀ joint ∈ s.joints, ∃ epsilon,
    BoneFrame.ofEnds joint.bone.name joint.bone.head joint.bone.tail epsilon = .ok joint.frame

/-- Every joint has the frame of its bone, whose ends are apart by some bound of a kind. -/
def FramedBy (bounds : α → Prop) (s : Skeleton α) : Prop :=
  ∀ joint ∈ s.joints, ∃ epsilon, bounds epsilon ∧
    BoneFrame.ofEnds joint.bone.name joint.bone.head joint.bone.tail epsilon = .ok joint.frame

theorem framed_iff {s : Skeleton α} : s.Framed ↔ s.FramedBy fun _ => True := by
  simp [Framed, FramedBy]

variable {bounds : α → Prop}

theorem framedBy_empty : (empty : Skeleton α).FramedBy bounds := by
  intro joint hjoint
  cases hjoint

theorem FramedBy.add {s s' : Skeleton α} (h : s.FramedBy bounds) {bone : Bone α} {epsilon : α}
    (hbound : bounds epsilon) (hadd : s.add bone epsilon = .ok s') : s'.FramedBy bounds := by
  unfold Skeleton.add at hadd
  split at hadd
  · cases hadd
  · obtain ⟨frame, hframe, hdone⟩ := bind_eq_ok.mp hadd
    cases hdone
    intro joint hjoint
    rcases List.mem_append.mp hjoint with hold | hnew
    · exact h joint hold
    · obtain rfl := List.mem_singleton.mp hnew
      exact ⟨epsilon, hbound, hframe⟩

theorem FramedBy.addAll {s s' : Skeleton α} (h : s.FramedBy bounds) {bones : List (Bone α)}
    {epsilon : α} (hbound : bounds epsilon) (hadd : s.addAll bones epsilon = .ok s') :
    s'.FramedBy bounds := by
  unfold Skeleton.addAll at hadd
  induction bones generalizing s with
  | nil =>
      cases hadd
      exact h
  | cons bone rest ih =>
      rw [List.foldlM_cons] at hadd
      obtain ⟨middle, hmiddle, hrest⟩ := bind_eq_ok.mp hadd
      exact ih (h.add hbound hmiddle) hrest

variable {journal journal' : Journal} {s s' : Skeleton α} {epsilon : α}

theorem FramedBy.settleParents (h : s.FramedBy bounds)
    (hsettle : Returns s.settleParents journal s' journal') : s'.FramedBy bounds := by
  obtain ⟨rfl, -⟩ := hsettle.unique (returns_settleParents s journal)
  intro joint hjoint
  obtain ⟨before, hbefore, rfl⟩ := List.mem_map.mp hjoint
  exact h before hbefore

theorem FramedBy.addMirror (h : s.FramedBy bounds) (hbound : bounds epsilon)
    {name mirror : String} (hadd : Returns (addMirror epsilon s name mirror) journal s' journal') :
    s'.FramedBy bounds := by
  unfold Skeleton.addMirror at hadd
  split at hadd
  · obtain ⟨_, _, -, hadd⟩ := returns_bind.mp hadd
    obtain ⟨rfl, -⟩ := returns_pure.mp hadd
    exact h
  · exact h.add hbound (returns_lift.mp hadd).1

/-- Every skeleton that is assembled has the frames of its bones. -/
theorem framedBy_assemble {base : List (Bone α)} {entries : List (BoneEntry α)}
    (hbound : bounds epsilon) (h : Returns (assemble base entries epsilon) journal s journal') :
    s.FramedBy bounds := by
  obtain ⟨bones, _, -, h⟩ := returns_bind.mp h
  obtain ⟨plain, _, hplain, h⟩ := returns_bind.mp h
  obtain ⟨settled, _, hsettled, h⟩ := returns_bind.mp h
  have hstart : settled.FramedBy bounds :=
    (framedBy_empty.addAll hbound (returns_lift.mp hplain).1).settleParents hsettled
  refine of_returns_foldlM ?_ hstart h
  rintro s ⟨name, mirror⟩ s' _ _ hs hreturns
  exact hs.addMirror hbound hreturns

theorem framedBy_ofRecipe {preset list : Json α} (hbound : bounds epsilon)
    (h : Returns (ofRecipe preset list epsilon) journal s journal') : s.FramedBy bounds := by
  obtain ⟨_, _, _, -, -, hassemble⟩ := of_returns_ofRecipe h
  exact framedBy_assemble hbound hassemble

theorem framed_empty : (empty : Skeleton α).Framed := framed_iff.mpr framedBy_empty

theorem Framed.addAll (h : s.Framed) {bones : List (Bone α)}
    (hadd : s.addAll bones epsilon = .ok s') : s'.Framed :=
  framed_iff.mpr ((framed_iff.mp h).addAll trivial hadd)

theorem Framed.add (h : s.Framed) {bone : Bone α} (hadd : s.add bone epsilon = .ok s') :
    s'.Framed :=
  framed_iff.mpr ((framed_iff.mp h).add trivial hadd)

theorem framed_assemble {base : List (Bone α)} {entries : List (BoneEntry α)}
    (h : Returns (assemble base entries epsilon) journal s journal') : s.Framed :=
  framed_iff.mpr (framedBy_assemble trivial h)

omit [Scalar α] in
theorem contains_of_frame? {name : String} {frame : BoneFrame α}
    (h : s.frame? name = some frame) : s.contains name = true := by
  rw [contains, ← Option.isSome_map, ← frame?, h, Option.isSome_some]

/-- A frame that is found has the name that it is found under, and is as long as one of the
bounds. -/
theorem FramedBy.frame?_eq_some {name : String} {frame : BoneFrame α} (h : s.FramedBy bounds)
    (hframe : s.frame? name = some frame) :
    frame.name = name ∧ ∃ epsilon, bounds epsilon ∧ epsilon ≤ frame.length := by
  obtain ⟨joint, hjoint, rfl⟩ := Option.map_eq_some_iff.mp hframe
  obtain ⟨epsilon, hbound, hends⟩ := h joint (List.mem_of_find?_eq_some hjoint)
  refine ⟨?_, epsilon, hbound, BoneFrame.le_length_of_ofEnds hends⟩
  rw [BoneFrame.ofEnds_eq_ok hends]
  simpa using List.find?_some hjoint

/-! ### Opposite bones -/

/-- Two bones are opposite: the second has the mirrored name of the first, which is
another one, and the mirrored ends. -/
structure OppositeBones (s : Skeleton α) (source image : String) : Prop where
  name : Side.mirrorName source = image
  ne : image ≠ source
  ends : ∃ bone bone', s.bone? source = some bone ∧ s.bone? image = some bone' ∧
    bone'.head = bone.head.mirror ∧ bone'.tail = bone.tail.mirror

variable [Scalar.Signed α]

/-- The frames of opposite bones are opposite. -/
theorem OppositeBones.joints {source image : String} (h : s.OppositeBones source image)
    (hframed : s.Framed) : ∃ joint joint', s.joint? source = some joint ∧
      s.joint? image = some joint' ∧ joint.frame.Opposite joint'.frame := by
  obtain ⟨_, _, hbone, hbone', hhead, htail⟩ := h.ends
  obtain ⟨joint, hjoint, rfl⟩ := Option.map_eq_some_iff.mp hbone
  obtain ⟨joint', hjoint', rfl⟩ := Option.map_eq_some_iff.mp hbone'
  obtain ⟨epsilon, hframe⟩ := hframed joint (List.mem_of_find?_eq_some hjoint)
  obtain ⟨epsilon', hframe'⟩ := hframed joint' (List.mem_of_find?_eq_some hjoint')
  rw [hhead, htail] at hframe'
  exact ⟨joint, joint', hjoint, hjoint', BoneFrame.opposite_ofEnds hframe hframe'⟩

end Mannequin.Skeleton
