import Mannequin.Proofs.Blueprint.Drawing
import Mannequin.Proofs.Character.Sizes
import Mannequin.Proofs.Geometry.Upright

/-!
# What geometry spans

A segment runs from the head of its bone along the bone, as far as its steps lead, and an
extrusion runs from its start to its end. Both are prisms of height one that are scaled along
their axis, turned so that it looks along the bone or along the span, and moved to where they
begin; the frame of a span is computed inside of the frame of a bone.
-/

namespace Mannequin

attribute [local instance] instOfNatAtLeastTwo

/-- A placement spans two points: it takes the middle of the lower end of a prism to the first
and the middle of the upper end to the second. -/
structure Transform.Spans (t : Transform ℝ) (bottom top : Vec3 ℝ) : Prop where
  bottom : t.matrix.transformPoint ⟨0, 0, 0⟩ = bottom
  top : t.matrix.transformPoint ⟨0, 0, 1⟩ = top

/-- A placement spans two points if it stands on the first and is as high and turned as leads to
the second. -/
theorem Transform.spans_of_rotate {t : Transform ℝ} {bottom top : Vec3 ℝ}
    (hposition : t.position = bottom)
    (hrotate : t.rotation.rotate ⟨0, 0, t.scale.z⟩ = top - bottom) : t.Spans bottom top := by
  have hlower : t.scale.hadamard ⟨0, 0, 0⟩ = ⟨0, 0, 0⟩ := by
    ext <;> simp [Vec3.hadamard]
  have hupper : t.scale.hadamard ⟨0, 0, 1⟩ = ⟨0, 0, t.scale.z⟩ := by
    ext <;> simp [Vec3.hadamard]
  have horigin : t.rotation.rotate ⟨0, 0, 0⟩ = ⟨0, 0, 0⟩ := by
    ext <;> simp [Quat.rotate, Vec3.cross, Vec3.scale]
  constructor
  · rw [transformPoint_matrix, hposition, hlower, horigin]
    ext <;> simp
  · rw [transformPoint_matrix, hposition, hupper, hrotate]
    ext <;> simp

namespace BoneFrame

variable {name : String} {head tail : Vec3 ℝ} {epsilon : ℝ} {frame : BoneFrame ℝ}

/-- The frame of a bone looks along it. -/
theorem rotate_length (h : ofEnds name head tail epsilon = .ok frame) (hpos : 0 < frame.length) :
    frame.orientation.rotate ⟨0, 0, frame.length⟩ = tail - head := by
  have hlength : frame.length = (tail - head).length := by rw [ofEnds_eq_ok h]
  have horientation : frame.orientation =
      Quat.ofAxis ((tail - head).scale (1 / (tail - head).length)) := by
    rw [ofEnds_eq_ok h, Exact.ofNat_one]
  rw [hlength] at hpos
  rw [horientation, hlength, Quat.rotate_ofAxis_direction hpos]

theorem point_zero (frame : BoneFrame ℝ) : frame.point Vec3.zero = frame.head := by
  ext <;> simp [point, Vec3.zero, Quat.rotate, Vec3.cross, Vec3.scale, Exact.ofNat_zero]

end BoneFrame

namespace Blueprint

/-! ### Placing -/

/-- Wherever steps start, they lead up by the sum of what each of them does. -/
theorem Step.foldl_advance (height : ℝ) (steps : List (Step ℝ)) :
    steps.foldl (fun height s => height + s.extrude + s.translate.z) height =
      height + Step.rise steps := by
  induction steps generalizing height with
  | nil => simp
  | cons s rest ih => rw [List.foldl_cons, ih, rise_cons, advance, add_assoc, add_assoc, add_assoc]

theorem Step.height_eq (steps : List (Step ℝ)) :
    Step.height steps = if steps = [] then 1 else Step.rise steps := by
  rw [height, foldl_advance, Exact.ofNat_zero, Exact.ofNat_one, zero_add]
  exact if_congr List.isEmpty_iff rfl rfl

variable {name : String} {head tail : Vec3 ℝ} {epsilon : ℝ} {frame : BoneFrame ℝ}
  {loc : Location}

theorem BoneMesh.segment_of_place {frame : BoneFrame ℝ} {m : BoneMesh ℝ} {bone : String}
    {parent : Option String} {settings : Settings ℝ} {mesh : Mannequin.BoneMesh ℝ}
    (h : m.place bone parent frame settings = .ok mesh) :
    mesh.segment = frame.place m.translate m.rotate mesh.segment.scale := by
  obtain ⟨_, -, h⟩ := bind_eq_ok.mp h
  obtain ⟨_, -, h⟩ := bind_eq_ok.mp h
  obtain ⟨_, -, h⟩ := bind_eq_ok.mp h
  obtain ⟨_, -, h⟩ := bind_eq_ok.mp h
  cases h
  rfl

/-- A segment that is neither moved nor turned stands on the head of its bone and leads along
the bone. -/
theorem BoneMesh.spans_of_place (h : BoneFrame.ofEnds name head tail epsilon = .ok frame)
    {m : BoneMesh ℝ} {bone : String} {parent : Option String} {settings : Settings ℝ}
    {mesh : Mannequin.BoneMesh ℝ} (htranslate : m.translate = Vec3.zero) (hrotate : m.rotate = none)
    (hmesh : m.place bone parent frame settings = .ok mesh) :
    mesh.segment.Spans head (head + (tail - head).scale (Step.height m.steps)) := by
  obtain ⟨⟨-, hpositive⟩, -, -, hz⟩ := scale_of_place hmesh
  have hpos : 0 < frame.length := by
    rwa [Exact.ofNat_zero, not_le] at hpositive
  have hsegment := segment_of_place hmesh
  rw [htranslate, hrotate] at hsegment
  have hhead : frame.head = head := by rw [BoneFrame.ofEnds_eq_ok h]
  have hheight : (⟨0, 0, mesh.segment.scale.z⟩ : Vec3 ℝ) =
      (⟨0, 0, frame.length⟩ : Vec3 ℝ).scale (Step.height m.steps) := by
    ext <;> simp [Vec3.scale, hz]
  apply Transform.spans_of_rotate
  · rw [hsegment, BoneFrame.place, BoneFrame.point_zero, hhead]
  · have hrotation : mesh.segment.rotation = frame.rotation none := by
      rw [hsegment, BoneFrame.place]
    rw [hrotation, BoneFrame.rotate_rotation (BoneFrame.square_orientation h), Vec3.turnBy, hheight,
      Quat.rotate_scale, BoneFrame.rotate_length h hpos]
    ext <;> simp

/-- An extrusion stands on its start and leads to its end. -/
theorem Extrusion.spans_of_place {e : Extrusion ℝ} {piece : Piece ℝ} (hepsilon : 0 < epsilon)
    (h : e.place loc frame epsilon = .ok piece) :
    piece.world.Spans (frame.point e.start) (frame.point e.stop) := by
  obtain ⟨span, hspan, h⟩ := bind_eq_ok.mp h
  obtain ⟨radius, -, h⟩ := bind_eq_ok.mp h
  obtain ⟨field, -, h⟩ := bind_eq_ok.mp h
  cases h
  have hends := mapError_eq_ok.mp hspan
  have hpos : 0 < span.length := lt_of_lt_of_le hepsilon (BoneFrame.le_length_of_ofEnds hends)
  have hstart : span.head = frame.point e.start := by rw [BoneFrame.ofEnds_eq_ok hends]
  exact Transform.spans_of_rotate hstart (BoneFrame.rotate_length hends hpos)

/-! ### A sleeve with a strap -/

/-- A strap across the end of an arm. -/
noncomputable def strap : Extrusion ℝ :=
  { profile := ⟨.square, 4⟩
    start := ⟨0, 0, 1⟩
    stop := ⟨1, 0, 1⟩
    radius := .absolute 1
    taper := 1 }

/-- A sleeve that is drawn beyond its arm in two steps, with the strap attached. The upper ring
of the first step is moved along the arm as well as to the side. -/
noncomputable def sleeve : BoneMesh ℝ :=
  { profile := ⟨.circle, 12⟩
    radius := .absolute 1
    capStart := true
    capEnd := true
    taper := 1
    bulge := []
    twist := 0
    translate := Vec3.zero
    rotate := none
    attachments := [.extrude strap]
    modifiers := []
    material := none
    steps := [⟨1, 1, 1, ⟨1, 0, 1⟩, 0, 0, 0, 1, 1⟩, ⟨1, 1, 1, ⟨0, -1, 0⟩, 0, 0, 0, 1, 1⟩]
    connectStart := .segmented
    connectEnd := .segmented
    part := none }

theorem exists_measure (loc : Location) {boneLength value : ℝ} (hlength : 0 < boneLength)
    (hvalue : 0 < value) :
    ∃ extent, Length.measure loc boneLength (.absolute value) = .ok extent := by
  have hpositive : ∀ (loc : Location) (x : ℝ), 0 < x → Field.positive loc x = .ok () := by
    intro loc x hx
    rw [Field.positive_eq_ok, Scalar.IsPositive, Exact.ofNat_zero, not_le]
    exact ⟨rfl, hx⟩
  have hscaled : Length.scaled (.key loc "absolute") value 1 = .ok (value * 1) :=
    bind_eq_ok.mpr ⟨(), hpositive _ _ (by rwa [mul_one]), rfl⟩
  rw [← Exact.ofNat_one] at hscaled
  exact ⟨_, bind_eq_ok.mpr ⟨(), hpositive _ _ hlength, bind_eq_ok.mpr ⟨_, hscaled, rfl⟩⟩⟩

/-- A field with a twist alone can be built. -/
theorem exists_build (loc : Location) (twist : ℝ) :
    ∃ field, Deformation.build loc 1 [] twist [] = .ok field := by
  refine ⟨_, Deformation.build_eq_ok.mpr ⟨⟨⟨rfl, ?_⟩, rfl, nofun, nofun, .nil⟩, rfl⟩⟩
  rw [Exact.ofNat_zero]
  norm_num

section

variable (h : BoneFrame.ofEnds name head tail epsilon = .ok frame) (hlength : frame.length = 5)

include h hlength

theorem exists_place_strap (loc : Location) :
    ∃ piece, strap.place loc frame (1 / 1000) = .ok piece := by
  have hdistance : (frame.point strap.stop - frame.point strap.start).length = 5 := by
    rw [BoneFrame.length_point_sub (BoneFrame.square_orientation h), hlength]
    change √_ = _
    rw [Real.sqrt_eq_iff_mul_self_eq_of_pos (by norm_num)]
    norm_num [Vec3.dot, Vec3.scale, strap]
  have hfar : 1 / 1000 ≤ (frame.point strap.stop - frame.point strap.start).length := by
    rw [hdistance]
    norm_num
  have hpos : 0 < frame.length := by
    rw [hlength]
    norm_num
  obtain ⟨span, hspan⟩ := BoneFrame.exists_ofEnds frame.name hfar
  obtain ⟨radius, hradius⟩ := exists_measure (.key loc "profile_radius") hpos one_pos
  obtain ⟨field, hfield⟩ := exists_build loc _
  exact ⟨_, bind_eq_ok.mpr ⟨span, mapError_eq_ok.mpr hspan,
    bind_eq_ok.mpr ⟨radius, hradius, bind_eq_ok.mpr ⟨field, hfield, rfl⟩⟩⟩⟩

theorem exists_place_sleeve (settings : Settings ℝ)
    (hsettings : settings.degenerateEpsilon = 1 / 1000) : ∃ loc mesh piece,
      sleeve.place "arm" none frame settings = .ok mesh ∧ mesh.attachments = [piece] ∧
        strap.place loc frame (1 / 1000) = .ok piece := by
  have hpos : 0 < frame.length := by
    rw [hlength]
    norm_num
  have hsteps : ∀ s ∈ sleeve.steps, s.Positive := by
    simp only [sleeve, List.forall_mem_cons]
    refine ⟨?_, ?_, List.forall_mem_nil _⟩ <;> constructor <;> norm_num
  have hadvance : ∀ s ∈ sleeve.steps, 0 < s.advance := by
    simp only [sleeve, List.forall_mem_cons, Step.advance]
    refine ⟨?_, ?_, List.forall_mem_nil _⟩ <;> norm_num
  have hsome : sleeve.steps ≠ [] := List.cons_ne_nil _ _
  let loc := Mannequin.BoneMesh.location "arm"
  obtain ⟨radius, hradius⟩ := exists_measure (.key loc "profile_radius") hpos one_pos
  obtain ⟨plain, hplain⟩ := exists_build loc 0
  have hfield := Step.build_drawn hsteps hsome hadvance hplain
  obtain ⟨piece, hpiece⟩ := exists_place_strap h hlength
    (.key (.item (.key loc "attachments") 0) "extrude")
  have hattachments : placeAttachments (.key loc "attachments") frame settings.degenerateEpsilon 0
      sleeve.attachments = .ok [piece] := by
    rw [hsettings]
    exact bind_eq_ok.mpr ⟨piece, hpiece, rfl⟩
  have hdraw : Step.draw loc sleeve.steps = .ok (Step.drawn sleeve.steps) :=
    Step.draw_eq_ok hsome hadvance
  exact ⟨_, _, piece, bind_eq_ok.mpr ⟨radius, hradius, bind_eq_ok.mpr ⟨_, hdraw,
    bind_eq_ok.mpr ⟨_, hfield, bind_eq_ok.mpr ⟨_, hattachments, rfl⟩⟩⟩⟩, rfl, hpiece⟩

end

/-! ### Spans -/

/-- The segment of a bone that is neither moved nor turned spans the bone, or as much of it or
beyond it as its steps lead up; and an extrusion spans its ends. -/
theorem spans_of_ofEnds (h : BoneFrame.ofEnds name head tail epsilon = .ok frame) :
    (∀ (m : BoneMesh ℝ) bone parent settings mesh, m.translate = Vec3.zero → m.rotate = none →
      m.place bone parent frame settings = .ok mesh →
      mesh.segment.Spans head
        (head + (tail - head).scale (if m.steps = [] then 1 else Step.rise m.steps))) ∧
    ∀ (e : Extrusion ℝ) loc epsilon' piece, 0 < epsilon' →
      e.place loc frame epsilon' = .ok piece →
      piece.world.Spans (frame.point e.start) (frame.point e.stop) := by
  constructor
  · intro m bone parent settings mesh htranslate hrotate hmesh
    rw [← Step.height_eq]
    exact BoneMesh.spans_of_place h htranslate hrotate hmesh
  · intro e loc epsilon' piece hepsilon hpiece
    exact Extrusion.spans_of_place hepsilon hpiece

/-- The sleeve is three times as long as the arm, and the strap runs from the end of the arm to
its side. -/
theorem spans_of_ofEnds_arm : ∃ frame mesh piece,
    BoneFrame.ofEnds "arm" (⟨1, 2, 3⟩ : Vec3 ℝ) ⟨4, 2, 7⟩ (1 / 1000) = .ok frame ∧
      sleeve.place "arm" none frame { Settings.standard with degenerateEpsilon := 1 / 1000 } =
        .ok mesh ∧
      mesh.segment.Spans ⟨1, 2, 3⟩ ⟨10, 2, 15⟩ ∧ mesh.attachments = [piece] ∧
      piece.world.Spans (frame.point ⟨0, 0, 1⟩) (frame.point ⟨1, 0, 1⟩) := by
  obtain ⟨frame, hframe, hlength⟩ := BoneFrame.exists_arm
  obtain ⟨hsegment, hextrusion⟩ := spans_of_ofEnds hframe
  obtain ⟨loc, mesh, piece, hmesh, hattachments, hpiece⟩ := exists_place_sleeve hframe hlength
    { Settings.standard with degenerateEpsilon := 1 / 1000 } rfl
  have hspans := hsegment sleeve _ _ _ mesh rfl rfl hmesh
  have htop : (⟨1, 2, 3⟩ : Vec3 ℝ) + ((⟨4, 2, 7⟩ : Vec3 ℝ) - ⟨1, 2, 3⟩).scale
      (if sleeve.steps = [] then 1 else Step.rise sleeve.steps) = ⟨10, 2, 15⟩ := by
    have hsome : sleeve.steps ≠ [] := List.cons_ne_nil _ _
    have hrise : Step.rise sleeve.steps = 3 := by
      norm_num [sleeve, Step.rise, Step.advance]
    rw [if_neg hsome, hrise]
    ext <;> norm_num [Vec3.scale]
  rw [htop] at hspans
  exact ⟨frame, mesh, piece, hframe, hmesh, hspans, hattachments,
    hextrusion strap loc _ piece (by norm_num) hpiece⟩

end Blueprint

end Mannequin
