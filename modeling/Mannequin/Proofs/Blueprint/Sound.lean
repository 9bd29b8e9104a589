import Mannequin.Proofs.Character.Sizes
import Mannequin.Proofs.Scalar.Finite

/-!
# Sound definitions

Geometry is computed from the numbers of a definition, most of them without another look.
What it relies on is one invariant of definitions: sizes are finite and above zero, all
other numbers are finite, counts are large enough, and a part stands alone. Every definition
that can be read has it, however its fields are spelled. Reflections keep it, and with it
the deformation field of a segment can always be built.
-/

namespace Mannequin

variable {α : Type}

/-! ### The invariant -/

section

variable [Scalar α]

structure BulgePoint.Sound (p : BulgePoint α) : Prop where
  position : Scalar.isFinite p.position = true
  scale : Scalar.IsPositive p.scale

namespace Blueprint

structure Primitive.Sound (p : Primitive α) : Prop where
  dimensions : p.dimensions.AllPositive
  offset : p.offset.AllFinite
  rotation : ∀ angles ∈ p.rotation, angles.AllFinite

structure Extrusion.Sound (e : Extrusion α) : Prop where
  segments : 3 ≤ e.profile.segments
  start : e.start.AllFinite
  stop : e.stop.AllFinite
  taper : Scalar.IsPositive e.taper

structure Asset.Sound (a : Asset α) : Prop where
  /-- The path is more than white space. -/
  path : ∃ c ∈ a.path.toList, c ≠ ' ' ∧ c ≠ '\t' ∧ c ≠ '\r' ∧ c ≠ '\n'
  offset : a.offset.AllFinite
  rotation : ∀ angles ∈ a.rotation, angles.AllFinite
  scale : Scalar.IsPositive a.scale

def Attachment.Sound : Attachment α → Prop
  | .primitive shape => shape.Sound
  | .extrude shape => shape.Sound
  | .asset shape => shape.Sound

def Modifier.Sound : Modifier α → Prop
  | .bevel width segments => Scalar.IsPositive width ∧ 1 ≤ segments
  | .subdivide cuts => 1 ≤ cuts
  | .boolean _ _ => True

structure Step.Sound (s : Step α) : Prop where
  extrude : Scalar.IsPositive s.extrude
  scale : Scalar.IsPositive s.scaleX ∧ Scalar.IsPositive s.scaleY
  translate : s.translate.AllFinite
  rotate : Scalar.isFinite s.rotate = true
  tilt : Scalar.isFinite s.tiltX = true ∧ Scalar.isFinite s.tiltY = true
  bulge : Scalar.IsPositive s.bulgeSide ∧ Scalar.IsPositive s.bulgeFront

/-- What geometry relies on in a definition. -/
structure BoneMesh.Sound (m : BoneMesh α) : Prop where
  segments : 3 ≤ m.profile.segments
  taper : Scalar.IsPositive m.taper
  bulge : ∀ p ∈ m.bulge, p.Sound
  twist : Scalar.isFinite m.twist = true
  translate : m.translate.AllFinite
  rotate : ∀ angles ∈ m.rotate, angles.AllFinite
  /-- The shapes of the part and the attachments. -/
  geometry : ∀ a ∈ m.geometry, a.Sound
  modifiers : ∀ modifier ∈ m.modifiers, modifier.Sound
  steps : ∀ s ∈ m.steps, s.Sound
  /-- A part takes the place of the segment, so nothing says how this is drawn. The twist of
  a reflected definition may be the other zero. -/
  alone : m.part.isSome = true →
    m.steps = [] ∧ m.taper = 1 ∧ Scalar.Agree m.twist 0 ∧ m.bulge = []

end Blueprint

end

/-! ### Profiles -/

namespace Profile

variable {loc : Location} {value : Json α} {p : Profile} {text : List Char}

theorem three_le_of_circleOf (h : circleOf text = .ok p) : 3 ≤ p.segments := by
  unfold circleOf at h
  split at h
  case h_1 => cases h
  case h_2 =>
    split at h
    case isTrue => cases h
    case isFalse hmany =>
      cases h
      exact Nat.le_of_not_lt hmany

theorem three_le_of_ofChars (h : ofChars text = .ok p) : 3 ≤ p.segments := by
  have hfour : 3 ≤ 4 := by decide
  unfold ofChars at h
  simp only at h
  split at h
  · cases h
    exact hfour
  · split at h
    · cases h
      exact hfour
    · split at h
      · exact three_le_of_circleOf h
      · cases h

/-- A profile has three segments or more if the one that stands for null does. -/
theorem three_le_of_ofJson {defaultSegments : Nat} (hdefault : 3 ≤ defaultSegments)
    (h : ofJson loc defaultSegments value = .ok p) : 3 ≤ p.segments := by
  cases value with
  | null =>
      cases h
      exact hdefault
  | str text => exact three_le_of_ofChars (mapError_eq_ok.mp h)
  | _ => cases h

end Profile

/-! ### Fields that are checked where they are read -/

section

variable [Scalar α] {loc : Location} {value : Json α}

theorem Field.forall_of_givenVector {name : String} {result : Option (Vec3 α)}
    (h : given loc value name vector = .ok result) : ∀ v ∈ result, v.AllFinite :=
  forall_of_given (fun _ _ _ => allFinite_of_vector) h

namespace Blueprint

theorem sound_of_bulgePoint {p : BulgePoint α} (h : bulgePoint loc value = .ok p) : p.Sound := by
  unfold bulgePoint at h
  split at h
  case h_1 =>
    obtain ⟨position, hposition, h⟩ := bind_eq_ok.mp h
    obtain ⟨scale, hscale, h⟩ := bind_eq_ok.mp h
    cases h
    exact ⟨Field.isFinite_of_number hposition, Field.isPositive_of_positiveNumber hscale⟩
  case h_2 => cases h
  case h_3 =>
    obtain ⟨_, -, h⟩ := bind_eq_ok.mp h
    obtain ⟨position, hposition, h⟩ := bind_eq_ok.mp (of_guarded_eq_ok h)
    obtain ⟨scale, hscale, h⟩ := bind_eq_ok.mp h
    cases h
    exact ⟨Field.isFinite_of_number hposition, Field.isPositive_of_positiveNumber hscale⟩

namespace Modifier

variable {m : Modifier α}

theorem sound_of_bevel (h : bevelOfJson loc value = .ok m) : m.Sound := by
  obtain ⟨_, -, h⟩ := bind_eq_ok.mp h
  obtain ⟨width, hwidth, h⟩ := bind_eq_ok.mp h
  obtain ⟨segments, -, h⟩ := bind_eq_ok.mp h
  split at h
  case isTrue => cases h
  case isFalse hsome =>
    cases h
    refine ⟨Field.isPositive_of_positiveNumber hwidth, of_getD (fun n hn => ?_) (Nat.le_refl 1)⟩
    exact Nat.one_le_iff_ne_zero.mpr fun hzero => hsome (hzero ▸ hn)

theorem sound_of_subdivide (h : subdivideOfJson loc value = .ok m) : m.Sound := by
  obtain ⟨_, -, h⟩ := bind_eq_ok.mp h
  obtain ⟨cuts, -, h⟩ := bind_eq_ok.mp h
  split at h
  case isTrue => cases h
  case isFalse hcuts =>
    cases h
    exact Nat.one_le_iff_ne_zero.mpr hcuts

theorem sound_of_ofJson (h : ofJson loc value = .ok m) : m.Sound := by
  obtain ⟨_, -, h⟩ := bind_eq_ok.mp h
  split at h
  case h_1 => exact sound_of_bevel h
  case h_2 => exact sound_of_subdivide h
  case h_3 =>
    obtain ⟨_, -, h⟩ := bind_eq_ok.mp h
    obtain ⟨_, -, h⟩ := bind_eq_ok.mp h
    obtain ⟨_, -, h⟩ := bind_eq_ok.mp h
    cases h
    trivial
  case h_4 => cases h

end Modifier

omit [Scalar α] in
/-- Nothing is written about the segment that a part takes the place of. -/
theorem BoneMesh.of_partAlone {steps : List (Step α)} (h : partAlone loc value steps = .ok ()) :
    steps = [] ∧ value.member? "taper" = none ∧ value.member? "bulge" = none ∧
      value.member? "twist" = none := by
  unfold partAlone at h
  split at h
  case isTrue => cases h
  case isFalse hsteps =>
    split at h
    case isTrue => cases h
    case isFalse hwritten =>
      simp only [not_or, Bool.not_eq_true, Json.has_eq_false_iff] at hwritten
      exact ⟨List.isEmpty_iff.mp (Bool.eq_true_of_not_eq_false hsteps), hwritten⟩

end Blueprint

end

/-- What holds of every number that is read holds of both numbers of a pair. -/
theorem Blueprint.Step.forall_of_pair {P : α → Prop} {read : Location → Json α → Except Error α}
    (hread : ∀ place member x, read place member = .ok x → P x) {loc : Location} {value : Json α}
    {xy : α × α} (h : pair read loc value = .ok xy) : P xy.1 ∧ P xy.2 := by
  unfold pair at h
  split at h
  case h_1 =>
    obtain ⟨x, hx, h⟩ := bind_eq_ok.mp h
    obtain ⟨y, hy, h⟩ := bind_eq_ok.mp h
    cases h
    exact ⟨hread _ _ _ hx, hread _ _ _ hy⟩
  case h_2 => cases h
  case h_3 =>
    obtain ⟨x, hx, h⟩ := bind_eq_ok.mp h
    cases h
    exact ⟨hread _ _ _ hx, hread _ _ _ hx⟩

/-! ### Fields with defaults -/

variable [Scalar α] [Scalar.Symmetric α] {loc : Location} {value : Json α}

theorem Vec3.allFinite_zero : (Vec3.zero : Vec3 α).AllFinite :=
  ⟨Scalar.Symmetric.isFinite_zero, Scalar.Symmetric.isFinite_zero, Scalar.Symmetric.isFinite_zero⟩

theorem Field.allFinite_of_vectorOrZero {name : String} {v : Vec3 α}
    (h : vectorOrZero loc value name = .ok v) : v.AllFinite := by
  obtain ⟨given, hgiven, h⟩ := bind_eq_ok.mp h
  cases h
  exact of_getD (forall_of_givenVector hgiven) Vec3.allFinite_zero

namespace Blueprint

theorem Primitive.sound_of_ofJson {p : Primitive α} (h : ofJson loc value = .ok p) : p.Sound := by
  obtain ⟨hdimensions, hoffset, hrotation⟩ := of_ofJson h
  exact ⟨Field.allPositive_of_positiveVector hdimensions, Field.allFinite_of_vectorOrZero hoffset,
    Field.forall_of_givenVector hrotation⟩

section

variable [Scalar.Ordered α]

omit [Scalar.Symmetric α] in
theorem Extrusion.sound_of_ofJson {e : Extrusion α} (h : ofJson loc value = .ok e) : e.Sound := by
  obtain ⟨_, -, h⟩ := bind_eq_ok.mp h
  obtain ⟨profile, hprofile, h⟩ := bind_eq_ok.mp (of_guarded_eq_ok h)
  obtain ⟨start, hstart, h⟩ := bind_eq_ok.mp h
  obtain ⟨stop, hstop, h⟩ := bind_eq_ok.mp h
  obtain ⟨_, -, h⟩ := bind_eq_ok.mp h
  obtain ⟨taper, htaper, h⟩ := bind_eq_ok.mp h
  cases h
  exact ⟨Profile.three_le_of_ofJson (by decide) hprofile, Field.allFinite_of_vector hstart,
    Field.allFinite_of_vector hstop, Field.isPositive_getD_one htaper⟩

theorem Asset.sound_of_ofJson {a : Asset α} (h : ofJson loc value = .ok a) : a.Sound := by
  obtain ⟨hpath, hoffset, hrotation, scale, hscale, hkept⟩ := of_ofJson h
  obtain ⟨c, hc, hvisible⟩ := List.all_eq_false.mp hpath
  refine ⟨⟨c, hc, ?_⟩, Field.allFinite_of_vectorOrZero hoffset,
    Field.forall_of_givenVector hrotation, hkept ▸ Field.isPositive_getD_one hscale⟩
  simpa [isBlank, and_assoc] using hvisible

theorem Attachment.Read.sound {a : Attachment α} (h : a.Read) : a.Sound := by
  cases h with
  | primitive h => exact Primitive.sound_of_ofJson h
  | extrude h => exact Extrusion.sound_of_ofJson h
  | asset h => exact Asset.sound_of_ofJson h

namespace Step

theorem sound_plain {extrude : α} (h : Scalar.IsPositive extrude) : (plain extrude).Sound :=
  ⟨h, ⟨Scalar.Ordered.isPositive_one, Scalar.Ordered.isPositive_one⟩, Vec3.allFinite_zero,
    Scalar.Symmetric.isFinite_zero,
    ⟨Scalar.Symmetric.isFinite_zero, Scalar.Symmetric.isFinite_zero⟩,
    ⟨Scalar.Ordered.isPositive_one, Scalar.Ordered.isPositive_one⟩⟩

omit [Scalar.Symmetric α] in
/-- Two factors that are one unless they are given are positive. -/
theorem isPositive_of_pair {name : String} {result : Option (α × α)}
    (h : Field.optional loc value name (pair Field.positiveNumber) = .ok result) :
    Scalar.IsPositive (result.getD (1, 1)).1 ∧ Scalar.IsPositive (result.getD (1, 1)).2 := by
  have hread := Field.forall_of_optional
    (fun _ _ _ => forall_of_pair fun _ _ _ => Field.isPositive_of_positiveNumber) h
  exact of_getD hread ⟨Scalar.Ordered.isPositive_one, Scalar.Ordered.isPositive_one⟩

theorem sound_of_ofObject {s : Step α} (h : ofObject loc value = .ok s) : s.Sound := by
  obtain ⟨_, -, h⟩ := bind_eq_ok.mp h
  obtain ⟨extrude, hextrude, h⟩ := bind_eq_ok.mp (of_guarded_eq_ok h)
  obtain ⟨scale, hscale, h⟩ := bind_eq_ok.mp h
  obtain ⟨translate, htranslate, h⟩ := bind_eq_ok.mp h
  obtain ⟨rotate, hrotate, h⟩ := bind_eq_ok.mp h
  obtain ⟨tilt, htilt, h⟩ := bind_eq_ok.mp h
  obtain ⟨bulge, hbulge, h⟩ := bind_eq_ok.mp h
  cases h
  have hrotate : Scalar.isFinite (rotate.getD 0) = true :=
    of_getD (Field.forall_of_optional (fun _ _ _ => Field.isFinite_of_number) hrotate)
      Scalar.Symmetric.isFinite_zero
  have htilt : Scalar.isFinite (tilt.getD (0, 0)).1 = true ∧
      Scalar.isFinite (tilt.getD (0, 0)).2 = true :=
    of_getD (Field.forall_of_optional
      (fun _ _ _ => forall_of_pair fun _ _ _ => Field.isFinite_of_number) htilt)
      ⟨Scalar.Symmetric.isFinite_zero, Scalar.Symmetric.isFinite_zero⟩
  exact ⟨Field.isPositive_of_positiveNumber hextrude, isPositive_of_pair hscale,
    Field.allFinite_of_vectorOrZero htranslate, hrotate, htilt, isPositive_of_pair hbulge⟩

theorem sound_of_ofJson {s : Step α} (h : ofJson loc value = .ok s) : s.Sound := by
  have hplain : plain <$> Field.positiveNumber loc value = .ok s → s.Sound := by
    intro h
    obtain ⟨extrude, hextrude, rfl⟩ := map_eq_ok.mp h
    exact sound_plain (Field.isPositive_of_positiveNumber hextrude)
  unfold ofJson at h
  split at h
  · exact hplain h
  · exact hplain h
  · exact sound_of_ofObject h

end Step

/-- A definition that can be read is sound. -/
theorem BoneMesh.sound_of_ofJson {defaultSegments : Nat} {m : BoneMesh α}
    (hdefault : 3 ≤ defaultSegments) (h : ofJson loc defaultSegments value = .ok m) :
    m.Sound := by
  have hread := read_of_ofJson h
  obtain ⟨taper, htaper, hastaper⟩ := hread.taper
  obtain ⟨twist, htwist, hastwist⟩ := hread.twist
  constructor
  case segments => exact Profile.three_le_of_ofJson hdefault hread.profile
  case taper =>
    rw [hastaper]
    exact of_getD (Field.forall_of_optional
      (fun _ _ _ => Field.isPositive_of_positiveNumber) htaper) Scalar.Ordered.isPositive_one
  case bulge =>
    intro p hp
    obtain ⟨_, _, hpoint⟩ := exists_of_mem_list hread.bulge hp
    exact sound_of_bulgePoint hpoint
  case twist =>
    rw [hastwist]
    exact of_getD (Field.forall_of_optional (fun _ _ _ => Field.isFinite_of_number) htwist)
      Scalar.Symmetric.isFinite_zero
  case translate => exact Field.allFinite_of_vectorOrZero hread.translate
  case rotate => exact Field.forall_of_givenVector hread.rotate
  case geometry => exact fun a ha => (geometry_of_ofJson h a ha).sound
  case modifiers =>
    intro modifier hmodifier
    obtain ⟨_, _, hmodifier⟩ := exists_of_mem_list hread.modifiers hmodifier
    exact Modifier.sound_of_ofJson hmodifier
  case steps =>
    intro s hs
    obtain ⟨_, _, hstep⟩ := exists_of_mem_list hread.steps hs
    exact Step.sound_of_ofJson hstep
  case alone =>
    intro hpart
    obtain ⟨hsteps, hnoTaper, hnoBulge, hnoTwist⟩ := of_partAlone (hread.alone hpart)
    have hbulge := hread.bulge
    rw [Field.optional, hnoTaper] at htaper
    rw [Field.optional, hnoTwist] at htwist
    rw [list, hnoBulge] at hbulge
    cases htaper
    cases htwist
    refine ⟨hsteps, hastaper, ?_, (Except.ok.inj hbulge).symm⟩
    rw [hastwist]
    exact Scalar.Symmetric.agree_zero

end

end Blueprint

/-! ### Reflecting -/

namespace Vec3

theorem AllFinite.reflectOffset {v : Vec3 α} (h : v.AllFinite) : v.reflectOffset.AllFinite :=
  ⟨Scalar.Symmetric.isFinite_mul_neg_one _ h.1, Scalar.Symmetric.isFinite_mul_one _ h.2.1,
    Scalar.Symmetric.isFinite_mul_one _ h.2.2⟩

theorem AllFinite.reflectAngles {v : Vec3 α} (h : v.AllFinite) : v.reflectAngles.AllFinite :=
  ⟨Scalar.Symmetric.isFinite_mul_one _ h.1, Scalar.Symmetric.isFinite_mul_neg_one _ h.2.1,
    Scalar.Symmetric.isFinite_mul_neg_one _ h.2.2⟩

theorem allFinite_map_reflectAngles {rotation : Option (Vec3 α)}
    (h : ∀ angles ∈ rotation, angles.AllFinite) :
    ∀ angles ∈ rotation.map Vec3.reflectAngles, angles.AllFinite := by
  intro reflected hreflected
  obtain ⟨angles, hangles, rfl⟩ := Option.map_eq_some_iff.mp hreflected
  exact (h angles hangles).reflectAngles

end Vec3

namespace Blueprint

theorem Attachment.Sound.reflect {a : Attachment α} (h : a.Sound) : a.reflect.Sound := by
  cases a with
  | primitive shape =>
      exact ⟨h.dimensions, h.offset.reflectOffset, Vec3.allFinite_map_reflectAngles h.rotation⟩
  | extrude shape => exact ⟨h.segments, h.start.reflectOffset, h.stop.reflectOffset, h.taper⟩
  | asset shape =>
      exact ⟨h.path, h.offset.reflectOffset, Vec3.allFinite_map_reflectAngles h.rotation, h.scale⟩

theorem Step.Sound.reflect {s : Step α} (h : s.Sound) : s.reflect.Sound :=
  ⟨h.extrude, h.scale, h.translate.reflectOffset, Scalar.Symmetric.isFinite_neg _ h.rotate,
    ⟨h.tilt.1, Scalar.Symmetric.isFinite_neg _ h.tilt.2⟩, h.bulge⟩

theorem BoneMesh.Sound.reflect {m : BoneMesh α} (h : m.Sound) : m.reflect.Sound := by
  constructor
  case segments => exact h.segments
  case taper => exact h.taper
  case bulge => exact h.bulge
  case twist => exact Scalar.Symmetric.isFinite_neg _ h.twist
  case translate => exact h.translate.reflectOffset
  case rotate => exact Vec3.allFinite_map_reflectAngles h.rotate
  case geometry =>
    rw [geometry_reflect, List.forall_mem_map]
    exact fun a ha => (h.geometry a ha).reflect
  case modifiers => exact h.modifiers
  case steps => exact List.forall_mem_map.mpr fun s hs => (h.steps s hs).reflect
  case alone =>
    intro hpart
    rw [BoneMesh.reflect, Option.isSome_map] at hpart
    obtain ⟨hsteps, htaper, htwist, hbulge⟩ := h.alone hpart
    refine ⟨?_, htaper, Scalar.Symmetric.agree_neg _ htwist, hbulge⟩
    rw [BoneMesh.reflect, hsteps, List.map_nil]

end Blueprint

/-! ### Building the field -/

omit [Scalar.Symmetric α] in
/-- Sound bulge points pass their checks and are clamped to the segment. -/
theorem BulgePoint.check_eq_ok {points : List (BulgePoint α)} (h : ∀ p ∈ points, p.Sound)
    (loc : Location) (index : Nat) : check loc index points =
      .ok (points.map fun p => { p with position := Scalar.clamp 0 1 p.position }) := by
  induction points generalizing index with
  | nil => rfl
  | cons p rest ih =>
      obtain ⟨hp, hrest⟩ := List.forall_mem_cons.mp h
      refine bind_eq_ok.mpr ⟨(), Field.finite_eq_ok.mpr hp.position, ?_⟩
      refine bind_eq_ok.mpr ⟨(), Field.positive_eq_ok.mpr hp.scale, ?_⟩
      exact bind_eq_ok.mpr ⟨_, ih hrest (index + 1), rfl⟩

namespace Blueprint.BoneMesh

omit [Scalar.Symmetric α] in
/-- The field of a sound definition has its taper, its twist and its bulge points in order. -/
theorem Sound.build_eq_ok {m : BoneMesh α} (h : m.Sound) (place : Location) :
    Deformation.build place m.taper m.bulge m.twist [] = .ok
      { taper := m.taper
        twist := m.twist
        bulge := BulgePoint.sort
          (m.bulge.map fun p => { p with position := Scalar.clamp 0 1 p.position })
        rings := [] } := by
  refine bind_eq_ok.mpr ⟨(), Field.positive_eq_ok.mpr h.taper, ?_⟩
  refine bind_eq_ok.mpr ⟨(), Field.finite_eq_ok.mpr h.twist, ?_⟩
  exact bind_eq_ok.mpr ⟨_, BulgePoint.check_eq_ok h.bulge _ 0, rfl⟩

variable [Scalar.Ordered α]

/-- Every definition that can be read is sound. What is sound stays sound when it is
reflected, and its deformation field can be built. -/
theorem read_sound (loc : Location) (value : Json α) (defaultSegments : Nat)
    (hdefault : 3 ≤ defaultSegments) :
    (∀ m, ofJson loc defaultSegments value = .ok m → m.Sound) ∧
      ∀ m : BoneMesh α, m.Sound → m.reflect.Sound ∧
        ∀ place, ∃ field, Deformation.build place m.taper m.bulge m.twist [] = .ok field :=
  ⟨fun _ h => sound_of_ofJson hdefault h, fun _ h =>
    ⟨h.reflect, fun place => ⟨_, h.build_eq_ok place⟩⟩⟩

/-- A segment whose fields are spelled in all ways there are. -/
def forearm : Json Float :=
  .obj [("profile", .str " hexagon(6) "), ("taper", .real 0.8), ("twist", .int (-30)),
    ("bulge", .arr [.arr [.real 0.5, .real 1.2], .obj [("at", .int 2), ("scale", .int 1)]]),
    ("rotate", .null),
    ("attachments", .arr [
      .obj [("primitive", .str "sphere"), ("dimensions", .arr [.int 1, .int 1, .int 2])],
      .obj [("extrude", .obj [("start", .arr [.int 0, .int 0, .int 0]),
        ("end", .arr [.int 0, .int 0, .int 1]), ("taper", .null)])],
      .obj [("asset", .str " band.glb"), ("scale", .real 0.5)]]),
    ("modifiers", .arr [.obj [("bevel", .obj [("width", .real 0.01)])],
      .obj [("subdivide", .obj [("cuts", .int 2)])]]),
    ("extrusion_steps", .arr [.int 1,
      .obj [("extrude", .real 0.5), ("scale", .arr [.int 1, .real 0.9]), ("tilt", .int 10)]])]

/-- A part in place of a segment. -/
def skull : Json Float :=
  .obj [("part", .obj [("base", .obj [("asset", .str "skull.glb")]),
    ("operations", .arr [.obj [("op", .str "difference"),
      ("target", .obj [("primitive", .str "cube"),
        ("dimensions", .arr [.int 1, .int 1, .int 1])])]])])]

theorem read_sound_samples :
    (∃ m, ofJson (.root "definitions") Profile.standardSegments forearm = .ok m ∧ m.Sound ∧
      m.reflect.Sound) ∧
    ∃ m, ofJson (.root "definitions") Profile.standardSegments skull = .ok m ∧ m.Sound ∧
      m.reflect.Sound := by
  have hdefault : 3 ≤ Profile.standardSegments := by decide
  have hforearm : (ofJson (.root "definitions") Profile.standardSegments forearm).isOk = true := by
    decide +kernel
  have hskull : (ofJson (.root "definitions") Profile.standardSegments skull).isOk = true := by
    decide +kernel
  obtain ⟨m, hm⟩ := exists_eq_ok hforearm
  obtain ⟨m', hm'⟩ := exists_eq_ok hskull
  obtain ⟨hsound, hkept⟩ := read_sound (.root "definitions") forearm _ hdefault
  obtain ⟨hsound', -⟩ := read_sound (.root "definitions") skull _ hdefault
  exact ⟨⟨m, hm, hsound m hm, (hkept m (hsound m hm)).1⟩,
    m', hm', hsound' m' hm', (hkept m' (hsound' m' hm')).1⟩

end Blueprint.BoneMesh

end Mannequin
