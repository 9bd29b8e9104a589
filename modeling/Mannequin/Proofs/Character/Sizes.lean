import Mannequin.Proofs.Character.References
import Mannequin.Proofs.Fields

/-!
# How large the geometry of a character is

Everything is placed with a scale, and most scales are products with the length of a bone.
The radii of segments and outlines are checked after they have been multiplied. The
dimensions of primitives and the heights of segments are checked before, and the distance
between the ends of an outline is only compared with a bound, so over floating point
numbers they may still overflow, or vanish. They fit a bone if they do not.
-/

namespace Mannequin

variable {α : Type} [Scalar α]

/-! ### Sizes in the world -/

/-- The pieces of a part. -/
def Part.pieces (p : Part α) : List (Piece α) := p.base :: p.operations.map PartOperation.target

/-- What is checked of the size of a piece: all of an asset, and the radii of an outline. -/
def Piece.Checked (p : Piece α) : Prop :=
  match p.form with
  | .profile _ => Scalar.IsPositive p.world.scale.x ∧ Scalar.IsPositive p.world.scale.y
  | .primitive _ => True
  | .asset _ => p.world.scale.AllPositive

namespace BoneMesh

/-- The pieces of a mesh: those of its part, and those that are attached. -/
def pieces (m : BoneMesh α) : List (Piece α) := m.part.elim [] Part.pieces ++ m.attachments

/-- What is checked of the sizes of a mesh. -/
structure Checked (m : BoneMesh α) : Prop where
  length : Scalar.IsPositive m.frame.length
  radii : Scalar.IsPositive m.segment.scale.x ∧ Scalar.IsPositive m.segment.scale.y
  pieces : ∀ piece ∈ m.pieces, piece.Checked

/-- Every scale of a mesh is finite and above zero, and so is the length of its bone. -/
structure Sized (m : BoneMesh α) : Prop where
  length : Scalar.IsPositive m.frame.length
  segment : m.segment.scale.AllPositive
  pieces : ∀ piece ∈ m.pieces, piece.world.scale.AllPositive

variable {m : BoneMesh α}

theorem Checked.settle (h : m.Checked) (bridges : List Bridge) :
    (Bridge.settle bridges m).Checked :=
  ⟨h.length, h.radii, h.pieces⟩

theorem Sized.settle (h : m.Sized) (bridges : List Bridge) : (Bridge.settle bridges m).Sized :=
  ⟨h.length, h.segment, h.pieces⟩

theorem Sized.of_settle {bridges : List Bridge} (h : (Bridge.settle bridges m).Sized) : m.Sized :=
  ⟨h.length, h.segment, h.pieces⟩

end BoneMesh

/-- The scale of a bool shape is finite and above zero, and so is the length of the bone that
it is anchored to. -/
structure BoolShape.Sized (s : BoolShape α) (skeleton : Skeleton α) : Prop where
  scale : s.piece.world.scale.AllPositive
  anchor : ∀ bone ∈ s.anchor, ∃ frame ∈ skeleton.frame? bone, Scalar.IsPositive frame.length

/-- Everything in a character is sized. -/
structure Character.Sized (c : Character α) (skeleton : Skeleton α) : Prop where
  meshes : ∀ mesh ∈ c.meshes, mesh.Sized
  boolShapes : ∀ name shape, c.boolShapes.get? name = some shape → shape.Sized skeleton

instance (m : BoneMesh α) : Decidable m.Sized :=
  decidable_of_iff (Scalar.IsPositive m.frame.length ∧ m.segment.scale.AllPositive ∧
      ∀ piece ∈ m.pieces, piece.world.scale.AllPositive)
    ⟨fun h => ⟨h.1, h.2.1, h.2.2⟩, fun h => ⟨h.length, h.segment, h.pieces⟩⟩

instance (s : BoolShape α) (skeleton : Skeleton α) : Decidable (s.Sized skeleton) :=
  decidable_of_iff (s.piece.world.scale.AllPositive ∧
      ∀ bone ∈ s.anchor, ∃ frame ∈ skeleton.frame? bone, Scalar.IsPositive frame.length)
    ⟨fun h => ⟨h.1, h.2⟩, fun h => ⟨h.scale, h.anchor⟩⟩

instance (c : Character α) (skeleton : Skeleton α) : Decidable (c.Sized skeleton) :=
  decidable_of_iff ((∀ mesh ∈ c.meshes, mesh.Sized) ∧
      ∀ entry ∈ c.boolShapes.entries, entry.2.Sized skeleton)
    ⟨fun h => ⟨h.1, fun name shape hshape => h.2 (name, shape) (NameMap.mem_entries_iff.mpr hshape)⟩,
      fun h => ⟨h.meshes, fun entry hentry =>
        h.boolShapes entry.1 entry.2 (NameMap.mem_entries_iff.mp hentry)⟩⟩

/-! ### Sizes in definitions -/

namespace Blueprint

/-- The attachment that has the geometry of a shape. -/
def Shape.asAttachment : Shape α → Attachment α
  | .primitive shape => .primitive shape
  | .asset shape => .asset shape

/-- The shapes of a part. -/
def Part.shapes (p : Part α) : List (Shape α) := p.base :: p.operations.map PartOperation.target

/-- What a definition places besides the segment. -/
def BoneMesh.geometry (m : BoneMesh α) : List (Attachment α) :=
  m.part.elim [] (fun p => p.shapes.map Shape.asAttachment) ++ m.attachments

/-- What is checked of the numbers that an attachment is read from. -/
def Attachment.Checked : Attachment α → Prop
  | .primitive shape => shape.dimensions.AllPositive
  | .extrude _ => True
  | .asset shape => Scalar.IsPositive shape.scale

/-- On a bone, the dimensions of an attachment are finite and above zero, and the distance
between its ends is finite. -/
def Attachment.Fits (frame : BoneFrame α) : Attachment α → Prop
  | .primitive shape => (shape.dimensions.scale frame.length).AllPositive
  | .extrude shape =>
    Scalar.isFinite (frame.point shape.stop - frame.point shape.start).length = true
  | .asset _ => True

/-- How high steps lead above the start of a segment, in bone lengths. -/
def Step.height (steps : List (Step α)) : α :=
  if steps.isEmpty then 1 else steps.foldl (fun height s => height + s.extrude + s.translate.z) 0

/-- On a bone, the height of the segment is finite and above zero, and everything else fits. -/
structure BoneMesh.Fits (m : BoneMesh α) (frame : BoneFrame α) : Prop where
  segment : Scalar.IsPositive (frame.length * Step.height m.steps)
  geometry : ∀ a ∈ m.geometry, a.Fits frame

/-! ### Reading -/

variable {loc : Location} {value : Json α}

/-- What the fields of a primitive are read from. -/
theorem Primitive.of_ofJson {p : Primitive α} (h : ofJson loc value = .ok p) :
    Field.positiveVector (.key loc "dimensions") (value.member "dimensions") = .ok p.dimensions ∧
      Field.vectorOrZero loc value "offset" = .ok p.offset ∧
      Field.given loc value "rotation" Field.vector = .ok p.rotation := by
  obtain ⟨_, -, h⟩ := bind_eq_ok.mp h
  obtain ⟨_, -, h⟩ := bind_eq_ok.mp (of_guarded_eq_ok h)
  obtain ⟨dimensions, hdimensions, h⟩ := bind_eq_ok.mp h
  obtain ⟨offset, hoffset, h⟩ := bind_eq_ok.mp h
  obtain ⟨rotation, hrotation, h⟩ := bind_eq_ok.mp h
  obtain ⟨_, -, h⟩ := bind_eq_ok.mp h
  cases h
  exact ⟨hdimensions, hoffset, hrotation⟩

/-- What the fields of an asset are read from. Its path is not blank. -/
theorem Asset.of_ofJson {a : Asset α} (h : ofJson loc value = .ok a) :
    a.path.toList.all isBlank = false ∧ Field.vectorOrZero loc value "offset" = .ok a.offset ∧
      Field.given loc value "rotation" Field.vector = .ok a.rotation ∧
      ∃ scale, Field.given loc value "scale" Field.positiveNumber = .ok scale ∧
        a.scale = scale.getD 1 := by
  obtain ⟨_, -, h⟩ := bind_eq_ok.mp h
  obtain ⟨path, -, h⟩ := bind_eq_ok.mp h
  split at h
  case isTrue => cases h
  case isFalse hpath =>
    obtain ⟨offset, hoffset, h⟩ := bind_eq_ok.mp h
    obtain ⟨rotation, hrotation, h⟩ := bind_eq_ok.mp h
    obtain ⟨scale, hscale, h⟩ := bind_eq_ok.mp h
    cases h
    exact ⟨Bool.eq_false_of_not_eq_true hpath, hoffset, hrotation, scale, hscale, rfl⟩

/-- An attachment that has been read. -/
inductive Attachment.Read : Attachment α → Prop where
  | primitive {loc : Location} {value : Json α} {shape : Primitive α}
      (h : Primitive.ofJson loc value = .ok shape) : Read (.primitive shape)
  | extrude {loc : Location} {value : Json α} {shape : Extrusion α}
      (h : Extrusion.ofJson loc value = .ok shape) : Read (.extrude shape)
  | asset {loc : Location} {value : Json α} {shape : Asset α}
      (h : Asset.ofJson loc value = .ok shape) : Read (.asset shape)

theorem Attachment.read_of_ofJson {a : Attachment α} (h : ofJson loc value = .ok a) : a.Read := by
  obtain ⟨_, -, h⟩ := bind_eq_ok.mp h
  split at h
  case h_1 =>
    obtain ⟨shape, hshape, rfl⟩ := map_eq_ok.mp h
    exact .primitive hshape
  case h_2 =>
    split at h
    case isTrue => cases h
    case isFalse =>
      obtain ⟨_, -, h⟩ := bind_eq_ok.mp h
      obtain ⟨shape, hshape, rfl⟩ := map_eq_ok.mp h
      exact .extrude hshape
  case h_3 =>
    obtain ⟨shape, hshape, rfl⟩ := map_eq_ok.mp h
    exact .asset hshape
  case h_4 => cases h

theorem Shape.read_of_ofJson {s : Shape α} (h : ofJson loc value = .ok s) :
    s.asAttachment.Read := by
  obtain ⟨_, -, h⟩ := bind_eq_ok.mp h
  split at h
  case h_1 =>
    obtain ⟨shape, hshape, rfl⟩ := map_eq_ok.mp h
    exact .primitive hshape
  case h_2 =>
    obtain ⟨shape, hshape, rfl⟩ := map_eq_ok.mp h
    exact .asset hshape
  case h_3 => cases h

theorem PartOperation.read_of_ofJson {o : PartOperation α} (h : ofJson loc value = .ok o) :
    o.target.asAttachment.Read := by
  obtain ⟨_, -, h⟩ := bind_eq_ok.mp h
  split at h
  case h_1 => cases h
  case h_2 =>
    obtain ⟨_, -, h⟩ := bind_eq_ok.mp h
    obtain ⟨target, htarget, h⟩ := bind_eq_ok.mp h
    cases h
    exact Shape.read_of_ofJson htarget

theorem Part.read_of_ofJson {p : Part α} (h : ofJson loc value = .ok p) :
    ∀ s ∈ p.shapes, s.asAttachment.Read := by
  obtain ⟨_, -, h⟩ := bind_eq_ok.mp h
  split at h
  case h_1 => cases h
  case h_2 =>
    obtain ⟨base, hbase, h⟩ := bind_eq_ok.mp h
    obtain ⟨operations, hoperations, h⟩ := bind_eq_ok.mp h
    cases h
    rw [shapes, List.forall_mem_cons, List.forall_mem_map]
    refine ⟨Shape.read_of_ofJson hbase, fun o ho => ?_⟩
    obtain ⟨_, _, hread⟩ := exists_of_mem_list hoperations ho
    exact PartOperation.read_of_ofJson hread

/-- All geometry of a definition has been read. -/
theorem BoneMesh.geometry_of_ofJson {defaultSegments : Nat} {m : BoneMesh α}
    (h : ofJson loc defaultSegments value = .ok m) : ∀ a ∈ m.geometry, a.Read := by
  have hwritten := written_of_ofJson h
  rw [geometry, List.forall_mem_append]
  constructor
  · obtain ⟨_, hgiven⟩ := hwritten.part
    rcases Field.of_given_eq_ok hgiven with ⟨-, hnone⟩ | ⟨_, p, -, hread, hsome⟩
    · rw [hnone]
      intro a ha
      cases ha
    · rw [hsome, Option.elim_some, List.forall_mem_map]
      exact Part.read_of_ofJson hread
  · obtain ⟨_, hlist⟩ := hwritten.attachments
    intro a ha
    obtain ⟨_, _, hread⟩ := exists_of_mem_list hlist ha
    exact Attachment.read_of_ofJson hread

theorem Attachment.Read.checked [Scalar.Ordered α] {a : Attachment α} (h : a.Read) :
    a.Checked := by
  cases h with
  | primitive h => exact Field.allPositive_of_positiveVector (Primitive.of_ofJson h).1
  | extrude h => trivial
  | asset h =>
      obtain ⟨-, -, -, scale, hscale, heq⟩ := Asset.of_ofJson h
      change Scalar.IsPositive _
      rw [heq]
      exact Field.isPositive_getD_one hscale

theorem BoolShape.allPositive_of_ofJson {s : BoolShape α} (h : ofJson loc value = .ok s) :
    s.dimensions.AllPositive := by
  obtain ⟨_, -, h⟩ := bind_eq_ok.mp h
  obtain ⟨_, -, h⟩ := bind_eq_ok.mp (of_guarded_eq_ok h)
  obtain ⟨dimensions, hdimensions, h⟩ := bind_eq_ok.mp h
  obtain ⟨_, -, h⟩ := bind_eq_ok.mp h
  obtain ⟨_, -, h⟩ := bind_eq_ok.mp h
  obtain ⟨_, -, h⟩ := bind_eq_ok.mp h
  cases h
  exact Field.allPositive_of_positiveVector hdimensions

/-! ### Reflecting -/

theorem Attachment.Checked.reflect {a : Attachment α} (h : a.Checked) : a.reflect.Checked := by
  cases a <;> exact h

theorem Shape.asAttachment_reflect (s : Shape α) :
    s.reflect.asAttachment = s.asAttachment.reflect := by
  cases s <;> rfl

theorem Part.shapes_reflect (p : Part α) : p.reflect.shapes = p.shapes.map Shape.reflect := by
  rw [shapes, shapes, reflect, List.map_map, List.map_cons, List.map_map]
  rfl

theorem BoneMesh.geometry_reflect (m : BoneMesh α) :
    m.reflect.geometry = m.geometry.map Attachment.reflect := by
  rw [geometry, geometry, reflect, List.map_append]
  congr 1
  cases m.part with
  | none => rfl
  | some p =>
      rw [Option.map_some, Option.elim_some, Option.elim_some, Part.shapes_reflect, List.map_map,
        List.map_map]
      exact List.map_congr_left fun s _ => s.asAttachment_reflect

/-! ### Placing -/

variable {frame : BoneFrame α} {epsilon : α}

theorem Shape.place_asAttachment (s : Shape α) (loc : Location) :
    s.asAttachment.place loc frame epsilon = .ok (s.place frame) := by
  cases s <;> rfl

/-- The scale of an outline holds two checked radii and the distance between its ends. -/
theorem Extrusion.scale_of_place {e : Extrusion α} {piece : Piece α}
    (h : e.place loc frame epsilon = .ok piece) : piece.form = .profile e.profile ∧
      Scalar.IsPositive piece.world.scale.x ∧ Scalar.IsPositive piece.world.scale.y ∧
      piece.world.scale.z = (frame.point e.stop - frame.point e.start).length ∧
      epsilon ≤ piece.world.scale.z := by
  obtain ⟨span, hspan, h⟩ := bind_eq_ok.mp h
  obtain ⟨radius, hradius, h⟩ := bind_eq_ok.mp h
  obtain ⟨_, -, h⟩ := bind_eq_ok.mp h
  cases h
  obtain ⟨-, hx, hy⟩ := Length.isPositive_of_measure hradius
  have hends := mapError_eq_ok.mp hspan
  refine ⟨rfl, hx, hy, ?_, BoneFrame.le_length_of_ofEnds hends⟩
  rw [BoneFrame.ofEnds_eq_ok hends]

/-- A piece is sized if it fits its bone. -/
theorem Attachment.sized_iff_of_place [Scalar.Ordered α] {a : Attachment α} {piece : Piece α}
    (hepsilon : Scalar.IsPositive epsilon) (ha : a.Checked)
    (h : a.place loc frame epsilon = .ok piece) :
    piece.Checked ∧ (piece.world.scale.AllPositive ↔ a.Fits frame) := by
  cases a with
  | primitive shape =>
      cases h
      exact ⟨trivial, Iff.rfl⟩
  | extrude shape =>
      obtain ⟨hform, hx, hy, hz, hle⟩ := Extrusion.scale_of_place h
      refine ⟨?_, ?_⟩
      · rw [Piece.Checked, hform]
        exact ⟨hx, hy⟩
      · -- The bound keeps the distance above zero, but nothing keeps it finite.
        rw [Attachment.Fits, ← hz]
        exact ⟨fun hall => hall.2.2.1, fun hfinite => ⟨hx, hy, hepsilon.of_le hle hfinite⟩⟩
  | asset shape =>
      cases h
      exact ⟨⟨ha, ha, ha⟩, fun _ => trivial, fun _ => ⟨ha, ha, ha⟩⟩

theorem Step.height_of_climb {index : Nat} {ring : Ring α} {height : α} {steps : List (Step α)}
    {drawing : Drawing α} (h : climb loc index ring height steps = .ok drawing) :
    drawing.height = steps.foldl (fun height s => height + s.extrude + s.translate.z) height := by
  induction steps generalizing index ring height drawing with
  | nil =>
      cases h
      rfl
  | cons s rest ih =>
      simp only [climb] at h
      split at h
      case isTrue =>
        obtain ⟨above, habove, h⟩ := bind_eq_ok.mp h
        cases h
        have hheight := ih habove
        exact hheight
      case isFalse => cases h

theorem Step.height_of_draw {steps : List (Step α)} {drawing : Drawing α}
    (h : draw loc steps = .ok drawing) : drawing.height = Step.height steps := by
  unfold draw at h
  unfold Step.height
  split at h
  case isTrue hnone =>
    cases h
    rw [if_pos hnone]
  case isFalse hsome =>
    obtain ⟨above, habove, h⟩ := bind_eq_ok.mp h
    cases h
    have hheight := height_of_climb habove
    rw [if_neg hsome]
    exact hheight

/-- Steps that go on lead above the height that they start from. -/
theorem Step.lt_height_of_climb {index : Nat} {ring : Ring α} {height : α} {s : Step α}
    {rest : List (Step α)} {drawing : Drawing α} (htrans : ∀ a b c : α, a < b → b < c → a < c)
    (h : climb loc index ring height (s :: rest) = .ok drawing) : height < drawing.height := by
  induction rest generalizing s index ring height drawing with
  | nil =>
      simp only [climb] at h
      split at h
      case isTrue hlt =>
        obtain ⟨_, habove, h⟩ := bind_eq_ok.mp h
        cases habove
        cases h
        exact hlt
      case isFalse => cases h
  | cons s' rest ih =>
      rw [climb] at h
      split at h
      case isTrue hlt =>
        obtain ⟨_, habove, h⟩ := bind_eq_ok.mp h
        cases h
        have hrest := ih habove
        exact htrans _ _ _ hlt hrest
      case isFalse => cases h

namespace BoneMesh

variable {m : BoneMesh α} {bone : String} {parent : Option String} {settings : Settings α}
  {mesh : Mannequin.BoneMesh α}

/-- Every piece of a mesh is placed from the geometry of its definition, in the same order. -/
theorem forall₂_pieces (h : m.Placed bone parent frame settings mesh) :
    List.Forall₂ (fun a piece => ∃ place, a.place place frame settings.degenerateEpsilon =
      .ok piece) m.geometry mesh.pieces := by
  refine List.rel_append ?_ (forall₂_placeAttachments h.attachments)
  rw [h.part]
  cases m.part with
  | none => exact .nil
  | some p =>
      have hpieces : (p.place frame).pieces = p.shapes.map fun s => s.place frame := by
        rw [Mannequin.Part.pieces, Part.shapes, Part.place, List.map_map, List.map_cons,
          List.map_map]
        rfl
      -- Shapes of a part are placed without a location, so any will do.
      rw [Option.map_some, Option.elim_some, Option.elim_some, hpieces,
        List.forall₂_map_left_iff, List.forall₂_map_right_iff, List.forall₂_same]
      exact fun s _ => ⟨.root "part", s.place_asAttachment _⟩

/-- The scale of a segment holds two checked radii and the height of the segment. -/
theorem scale_of_place (h : m.place bone parent frame settings = .ok mesh) :
    Scalar.IsPositive frame.length ∧ Scalar.IsPositive mesh.segment.scale.x ∧
      Scalar.IsPositive mesh.segment.scale.y ∧
      mesh.segment.scale.z = frame.length * Step.height m.steps := by
  obtain ⟨radius, hradius, h⟩ := bind_eq_ok.mp h
  obtain ⟨drawing, hdrawing, h⟩ := bind_eq_ok.mp h
  obtain ⟨_, -, h⟩ := bind_eq_ok.mp h
  obtain ⟨_, -, h⟩ := bind_eq_ok.mp h
  cases h
  obtain ⟨hlength, hx, hy⟩ := Length.isPositive_of_measure hradius
  exact ⟨hlength, hx, hy, by rw [← Step.height_of_draw hdrawing]; rfl⟩

/-- A mesh is sized if its definition fits its bone. -/
theorem sized_iff_of_place [Scalar.Ordered α]
    (hepsilon : Scalar.IsPositive settings.degenerateEpsilon) (hm : ∀ a ∈ m.geometry, a.Checked)
    (h : m.place bone parent frame settings = .ok mesh) :
    mesh.Checked ∧ (mesh.Sized ↔ m.Fits frame) := by
  obtain ⟨hlength, hx, hy, hz⟩ := scale_of_place h
  have hplaced := placed h
  -- Item by item: what has been checked of an item and what is left to fit.
  have hpieces := ((List.forall₂_and_left _ _).mpr ⟨hm, forall₂_pieces hplaced⟩).imp
    fun a piece ⟨ha, _, hpiece⟩ => Attachment.sized_iff_of_place hepsilon ha hpiece
  have hchecked : ∀ piece ∈ mesh.pieces, piece.Checked :=
    forall_mem_of_forall₂ (fun a piece hpiece => hpiece.1) hpieces
  have hsized : (∀ a ∈ m.geometry, a.Fits frame) ↔
      ∀ piece ∈ mesh.pieces, piece.world.scale.AllPositive :=
    forall_mem_iff_of_forall₂ (fun a piece hpiece => hpiece.2.symm) hpieces
  have hframe : Scalar.IsPositive mesh.frame.length := by rwa [hplaced.frame]
  refine ⟨⟨hframe, ⟨hx, hy⟩, hchecked⟩, fun h => ⟨?_, hsized.mpr h.pieces⟩, fun h =>
    ⟨hframe, ⟨hx, hy, ?_⟩, hsized.mp h.geometry⟩⟩
  · rw [← hz]
    exact h.segment.2.2
  · rw [hz]
    exact h.segment

end BoneMesh

namespace BoolShape

variable {s : BoolShape α} {skeleton : Skeleton α}

theorem sized_place (hs : s.dimensions.AllPositive) (name : String) (skeleton : Skeleton α) :
    (s.place name none).Sized skeleton :=
  ⟨hs, nofun⟩

/-- A bool shape is sized if it fits the bone that it is anchored to. -/
theorem sized_place_iff (hframe : skeleton.frame? frame.name = some frame)
    (hlength : Scalar.isFinite frame.length = true → Scalar.IsPositive frame.length)
    {name : String} : (s.place name (some frame)).Sized skeleton ↔
      Scalar.isFinite frame.length = true ∧ (s.dimensions.scale frame.length).AllPositive := by
  constructor
  · intro h
    obtain ⟨_, hfound, hpositive⟩ := h.anchor frame.name rfl
    rw [hframe] at hfound
    cases hfound
    exact ⟨hpositive.1, h.scale⟩
  · rintro ⟨hfinite, hscale⟩
    refine ⟨hscale, ?_⟩
    rintro _ ⟨⟩
    exact ⟨frame, hframe, hlength hfinite⟩

end BoolShape

end Blueprint

namespace Character

variable {context : Context α} {bone : String} {definition : Json α} {mesh : BoneMesh α}

omit [Scalar α] in
theorem geometry_withoutBridges (m : Blueprint.BoneMesh α) :
    (withoutBridges m).geometry = m.geometry := by
  unfold withoutBridges
  split <;> rfl

/-- A definition as it is used for a bone: reflected if it comes from the other side. -/
def onSide (table : Json α) (bone : String) (m : Blueprint.BoneMesh α) : Blueprint.BoneMesh α :=
  if CrossesSides bone (Alias.sourceKey table bone) then m.reflect else m

/-- Everything that a recipe asks for fits the bones of a skeleton. -/
structure Fits (skeleton : Skeleton α) (settings : Settings α) (table : Json α)
    (definitions shapes : NameMap (Json α)) : Prop where
  meshes : ∀ bone definition blueprint frame, definitions.get? bone = some definition →
    Blueprint.BoneMesh.ofJson (BoneMesh.location bone) settings.defaultSegments definition =
      .ok blueprint →
    skeleton.frame? bone = some frame → (onSide table bone blueprint).Fits frame
  boolShapes : ∀ name definition blueprint frame, shapes.get? name = some definition →
    Blueprint.BoolShape.ofJson (.key (.root "bool_shapes") name) definition = .ok blueprint →
    blueprint.bone.bind skeleton.frame? = some frame →
    Scalar.isFinite frame.length = true ∧ (blueprint.dimensions.scale frame.length).AllPositive

theorem fits_withoutBridges {m : Blueprint.BoneMesh α} {frame : BoneFrame α} :
    (withoutBridges m).Fits frame ↔ m.Fits frame := by
  unfold withoutBridges
  split
  · exact ⟨fun h => ⟨h.segment, h.geometry⟩, fun h => ⟨h.segment, h.geometry⟩⟩
  · rfl

variable [Scalar.Ordered α]

/-- What is used of a definition has been checked, reflected or not. -/
theorem checked_onSide {loc : Location} {defaultSegments : Nat} {table : Json α}
    {m : Blueprint.BoneMesh α}
    (h : Blueprint.BoneMesh.ofJson loc defaultSegments definition = .ok m) :
    ∀ a ∈ (onSide table bone m).geometry, a.Checked := by
  have hchecked : ∀ a ∈ m.geometry, a.Checked := fun a ha =>
    (Blueprint.BoneMesh.geometry_of_ofJson h a ha).checked
  unfold onSide
  split
  · rw [Blueprint.BoneMesh.geometry_reflect, List.forall_mem_map]
    exact fun a ha => (hchecked a ha).reflect
  · exact hchecked

/-- A mesh is placed on its bone as its definition says for the side of that bone. -/
theorem MadeFrom.exists_place (h : MadeFrom context bone definition mesh) :
    ∃ frame parent blueprint, context.skeleton.frame? bone = some frame ∧
      Blueprint.BoneMesh.ofJson (BoneMesh.location bone) context.settings.defaultSegments
        definition = .ok blueprint ∧
      (∀ a ∈ (withoutBridges (onSide context.table bone blueprint)).geometry, a.Checked) ∧
      (withoutBridges (onSide context.table bone blueprint)).place bone parent frame
        context.settings = .ok mesh := by
  obtain ⟨joint, read, hjoint, hread, hplace⟩ := h
  obtain ⟨blueprint, hblueprint, rfl⟩ := readMesh_eq_ok hread
  refine ⟨joint.frame, joint.bone.parent, blueprint, ?_, hblueprint, ?_, hplace⟩
  · rw [Skeleton.frame?, hjoint, Option.map_some]
  · rw [geometry_withoutBridges]
    exact checked_onSide hblueprint

/-- A mesh that is made is sized if its definition fits the bone. -/
theorem MadeFrom.sized_iff (hepsilon : Scalar.IsPositive context.settings.degenerateEpsilon)
    (h : MadeFrom context bone definition mesh) :
    ∃ frame blueprint, context.skeleton.frame? bone = some frame ∧
      Blueprint.BoneMesh.ofJson (BoneMesh.location bone) context.settings.defaultSegments
        definition = .ok blueprint ∧
      mesh.Checked ∧ (mesh.Sized ↔ (onSide context.table bone blueprint).Fits frame) := by
  obtain ⟨frame, _, blueprint, hframe, hblueprint, hchecked, hplace⟩ := h.exists_place
  obtain ⟨hmesh, hsized⟩ := Blueprint.BoneMesh.sized_iff_of_place hepsilon hchecked hplace
  exact ⟨frame, blueprint, hframe, hblueprint, hmesh, hsized.trans fits_withoutBridges⟩

/-- A bool shape that is not anchored is sized, and any other if it fits its bone. -/
theorem sized_iff_of_resolveBoolShape {skeleton : Skeleton α} {name : String}
    {shape : BoolShape α} (hframed : skeleton.FramedBy Scalar.IsPositive)
    (h : resolveBoolShape skeleton name definition = .ok shape) :
    ∃ blueprint, Blueprint.BoolShape.ofJson (.key (.root "bool_shapes") name) definition =
        .ok blueprint ∧
      (shape.anchor = none → shape.Sized skeleton) ∧
      (shape.Sized skeleton ↔ ∀ frame, blueprint.bone.bind skeleton.frame? = some frame →
        Scalar.isFinite frame.length = true ∧
          (blueprint.dimensions.scale frame.length).AllPositive) := by
  obtain ⟨blueprint, hblueprint, h⟩ := bind_eq_ok.mp h
  refine ⟨blueprint, hblueprint, ?_⟩
  split at h
  case h_1 hbone =>
    cases h
    have hsized := Blueprint.BoolShape.sized_place
      (Blueprint.BoolShape.allPositive_of_ofJson hblueprint) name skeleton
    simp [hbone, hsized]
  case h_2 bone hbone =>
    split at h
    case h_2 => cases h
    case h_1 frame hframe =>
      cases h
      obtain ⟨hname, epsilon, hepsilon, hle⟩ := hframed.frame?_eq_some hframe
      subst hname
      refine ⟨nofun, ?_⟩
      rw [Blueprint.BoolShape.sized_place_iff hframe (hepsilon.of_le hle), hbone, Option.bind_some,
        hframe]
      simp

/-- What is checked of the sizes of a resolved character. -/
structure Checked (c : Character α) (skeleton : Skeleton α) : Prop where
  meshes : ∀ mesh ∈ c.meshes, mesh.Checked
  boolShapes : ∀ name shape, c.boolShapes.get? name = some shape → shape.anchor = none →
    shape.Sized skeleton

/-- The meshes of a character are sized exactly if the definitions fit that they are made
from. -/
theorem Resolution.sized_iff {definitions : NameMap (Json α)} {placed : List (BoneMesh α)}
    {character : Character α} (h : Resolution context definitions placed character)
    (hepsilon : Scalar.IsPositive context.settings.degenerateEpsilon) :
    (∀ mesh ∈ character.meshes, mesh.Sized) ↔
      ∀ bone definition blueprint frame, definitions.get? bone = some definition →
        Blueprint.BoneMesh.ofJson (BoneMesh.location bone) context.settings.defaultSegments
          definition = .ok blueprint →
        context.skeleton.frame? bone = some frame →
        (onSide context.table bone blueprint).Fits frame := by
  rw [h.meshes, List.forall_mem_map]
  constructor
  · intro hsized bone definition blueprint frame hdefinition hblueprint hframe
    obtain ⟨mesh, hmesh, hmade⟩ := h.complete bone definition hdefinition
      (Skeleton.contains_of_frame? hframe)
    obtain ⟨_, _, hframe', hblueprint', -, hiff⟩ := hmade.sized_iff hepsilon
    rw [hframe] at hframe'
    rw [hblueprint] at hblueprint'
    cases hframe'
    cases hblueprint'
    exact hiff.mp (hsized mesh hmesh).of_settle
  · intro hfits mesh hmesh
    obtain ⟨definition, hdefinition, hmade⟩ := h.made mesh hmesh
    obtain ⟨frame, blueprint, hframe, hblueprint, -, hiff⟩ := hmade.sized_iff hepsilon
    exact (hiff.mpr (hfits _ _ _ _ hdefinition hblueprint hframe)).settle _

/-- The bool shapes of a character are sized exactly if the definitions fit that they are
resolved from. -/
theorem boolShapes_sized_iff {skeleton : Skeleton α} {shapes : NameMap (Json α)}
    {boolShapes : NameMap (BoolShape α)} (hframed : skeleton.FramedBy Scalar.IsPositive)
    (h : shapes.traverse (resolveBoolShape skeleton) = .ok boolShapes) :
    (∀ name shape, boolShapes.get? name = some shape → shape.Sized skeleton) ↔
      ∀ name definition blueprint frame, shapes.get? name = some definition →
        Blueprint.BoolShape.ofJson (.key (.root "bool_shapes") name) definition =
          .ok blueprint →
        blueprint.bone.bind skeleton.frame? = some frame →
        Scalar.isFinite frame.length = true ∧
          (blueprint.dimensions.scale frame.length).AllPositive := by
  constructor
  · intro hsized name definition blueprint frame hdefinition hblueprint hframe
    obtain ⟨shape, hresolve, hshape⟩ := NameMap.get?_traverse h hdefinition
    obtain ⟨_, hblueprint', -, hiff⟩ := sized_iff_of_resolveBoolShape hframed hresolve
    rw [hblueprint] at hblueprint'
    cases hblueprint'
    exact hiff.mp (hsized name shape hshape) frame hframe
  · intro hfits name shape hshape
    obtain ⟨definition, hdefinition, hresolve⟩ := NameMap.of_get?_traverse h hshape
    obtain ⟨blueprint, hblueprint, -, hiff⟩ := sized_iff_of_resolveBoolShape hframed hresolve
    exact hiff.mpr fun frame => hfits name definition blueprint frame hdefinition hblueprint

section

variable {skeleton : Skeleton α} {settings : Settings α} {recipe : Json α}
  {journal told : Journal} {definitions shapes : NameMap (Json α)} {placed : List (BoneMesh α)}
  {character : Character α}

theorem Course.checked
    (h : Course skeleton settings recipe journal context definitions shapes placed told)
    (hcharacter : Resolution context definitions placed character)
    (hepsilon : Scalar.IsPositive settings.degenerateEpsilon)
    (hframed : skeleton.FramedBy Scalar.IsPositive) : character.Checked skeleton := by
  rw [← h.underSettings] at hepsilon
  constructor
  · rw [hcharacter.meshes, List.forall_mem_map]
    intro mesh hmesh
    obtain ⟨_, -, hmade⟩ := hcharacter.made mesh hmesh
    obtain ⟨_, _, -, -, hchecked, -⟩ := hmade.sized_iff hepsilon
    exact hchecked.settle _
  · intro name shape hshape
    rw [hcharacter.boolShapes] at hshape
    obtain ⟨_, -, hresolve⟩ := NameMap.of_get?_traverse h.boolShapes hshape
    obtain ⟨_, -, hfree, -⟩ := sized_iff_of_resolveBoolShape hframed hresolve
    exact hfree

theorem Course.sized_iff
    (h : Course skeleton settings recipe journal context definitions shapes placed told)
    (hcharacter : Resolution context definitions placed character)
    (hepsilon : Scalar.IsPositive settings.degenerateEpsilon)
    (hframed : skeleton.FramedBy Scalar.IsPositive) :
    character.Sized skeleton ↔
      Fits skeleton settings (recipe.member "bone_meshes") definitions shapes := by
  obtain rfl := h.onSkeleton
  obtain rfl := h.underSettings
  have hmeshes := hcharacter.sized_iff hepsilon
  have hshapes := boolShapes_sized_iff hframed h.boolShapes
  rw [← hcharacter.boolShapes] at hshapes
  rw [← h.table]
  exact ⟨fun hsized => ⟨hmeshes.mp hsized.meshes, hshapes.mp hsized.boolShapes⟩,
    fun hfits => ⟨hmeshes.mpr hfits.meshes, hshapes.mpr hfits.boolShapes⟩⟩

end

/-- The radii and the assets of a resolved character are sized, and so are its bool shapes
without an anchor. Everything is sized exactly if everything else fits the skeleton. -/
theorem sized_iff_fits {settings : Settings α} {recipe : Json α} {journal journal' : Journal}
    {character : Character α} (hepsilon : Scalar.IsPositive settings.degenerateEpsilon)
    (h : Returns (resolve settings recipe) journal character journal') :
    ∃ skeleton told definitions shapes,
      Returns (Skeleton.ofRecipe (recipe.member "skeleton_preset") (recipe.member "skeleton")
        settings.degenerateEpsilon) journal skeleton told ∧
      Alias.resolve (recipe.member "bone_meshes") = .ok definitions ∧
      Alias.resolve (recipe.member "bool_shapes") = .ok shapes ∧
      character.Checked skeleton ∧
      (character.Sized skeleton ↔
        Fits skeleton settings (recipe.member "bone_meshes") definitions shapes) := by
  obtain ⟨skeleton, resolved, told, _, warnings, hskeleton, hresolved, rfl⟩ :=
    exists_skeleton_of_returns_resolve h
  have hframed : skeleton.FramedBy Scalar.IsPositive :=
    Skeleton.framedBy_ofRecipe hepsilon hskeleton
  obtain ⟨_, definitions, shapes, _, _, hcourse, rfl⟩ := exists_course hresolved
  have hresolution := hcourse.resolution warnings
  exact ⟨skeleton, told, definitions, shapes, hskeleton, hcourse.table ▸ hcourse.resolves,
    hcourse.resolvesShapes, hcourse.checked hresolution hepsilon hframed,
    hcourse.sized_iff hresolution hepsilon hframed⟩

/-- A lamp on a pole that is drawn in two steps, a hook on its other side, and a hole with
an anchor. -/
def lamp : Json Float :=
  let point (x y z : Int) : Json Float := .arr [.int x, .int y, .int z]
  let cube : List (String × Json Float) :=
    [("primitive", .str "cube"), ("dimensions", point 1 1 2)]
  .obj [
    ("skeleton", .arr [
      .obj [("bone", .str "pole"), ("head", point 0 0 0), ("tail", point 0 0 4)],
      .obj [("bone", .str "arm_l"), ("head", point 0 0 4), ("tail", point 2 0 4)],
      .obj [("bone", .str "arm_r"), ("mirror", .str "arm_l")]]),
    ("bone_meshes", .obj [
      ("pole", .obj [("extrusion_steps", .arr [.int 1, .int 2]),
        ("attachments", .arr [.obj cube, .obj [("asset", .str "sign.obj")]])]),
      ("arm_l", .obj [("part", .obj [("base", .obj cube)]),
        ("attachments", .arr [.obj [("extrude",
          .obj [("start", point 0 0 0), ("end", point 1 0 0)])]])]),
      ("arm_r", .obj [("mirror", .str "arm_l")])]),
    ("bool_shapes", .obj [
      ("hole", .obj (cube ++ [("position", point 0 0 1), ("bone", .str "pole")]))])]

theorem sized_iff_fits_lamp : ∃ character journal skeleton told definitions shapes,
    Scalar.IsPositive (Settings.standard (α := Float)).degenerateEpsilon ∧
      Returns (resolve Settings.standard lamp) Journal.empty character journal ∧
      Returns (Skeleton.ofRecipe (lamp.member "skeleton_preset") (lamp.member "skeleton")
        Settings.standard.degenerateEpsilon) Journal.empty skeleton told ∧
      character.meshes.map BoneMesh.bone = ["arm_l", "arm_r", "pole"] ∧
      character.Sized skeleton ∧
      Fits skeleton Settings.standard (lamp.member "bone_meshes") definitions shapes := by
  have hepsilon : Scalar.IsPositive (Settings.standard (α := Float)).degenerateEpsilon := by
    decide +kernel
  have hseen : (seen (Skeleton.ofRecipe (lamp.member "skeleton_preset") (lamp.member "skeleton")
      Settings.standard.degenerateEpsilon) Journal.empty fun skeleton _ =>
        seen (resolve Settings.standard lamp) Journal.empty fun character _ =>
          (character.meshes.map BoneMesh.bone, decide (character.Sized skeleton))) =
      some (some (["arm_l", "arm_r", "pole"], true)) := by
    decide +kernel
  obtain ⟨skeleton, told, hskeleton, hlook⟩ := exists_returns_of_seen hseen
  obtain ⟨character, journal, hreturns, hlook⟩ := exists_returns_of_seen hlook
  obtain ⟨hbones, hsized⟩ := Prod.mk.inj hlook
  obtain ⟨_, _, definitions, shapes, hskeleton', -, -, -, hiff⟩ := sized_iff_fits hepsilon hreturns
  obtain ⟨rfl, -⟩ := hskeleton.unique hskeleton'
  exact ⟨character, journal, skeleton, told, definitions, shapes, hepsilon, hreturns, hskeleton,
    hbones, of_decide_eq_true hsized, hiff.mp (of_decide_eq_true hsized)⟩

/-- A cube that is attached to a bone of length one hundred, of a width that the length
carries beyond the largest number. -/
def hugeCube : Json Float :=
  .obj [
    ("skeleton", .arr [.obj [("bone", .str "b"), ("head", .arr [.int 0, .int 0, .int 0]),
      ("tail", .arr [.int 0, .int 0, .int 100])]]),
    ("bone_meshes", .obj [("b", .obj [("attachments", .arr [.obj [("primitive", .str "cube"),
      ("dimensions", .arr [.real 1e308, .int 1, .int 1])]])])])]

/-- The cube is accepted, and its width is infinite. -/
theorem exists_infinite_scale : Scalar.IsPositive
      (Settings.standard (α := Float)).degenerateEpsilon ∧
    ∃ character journal, Returns (resolve Settings.standard hugeCube) Journal.empty character
      journal ∧
    ∃ mesh ∈ character.meshes, ∃ piece ∈ mesh.attachments,
      Scalar.isFinite piece.world.scale.x = false := by
  have hseen : seen (resolve Settings.standard hugeCube) Journal.empty (fun character _ =>
      decide (∃ mesh ∈ character.meshes, ∃ piece ∈ mesh.attachments,
        Scalar.isFinite piece.world.scale.x = false)) = some true := by
    decide +kernel
  obtain ⟨character, journal, hreturns, hlook⟩ := exists_returns_of_seen hseen
  exact ⟨by decide +kernel, character, journal, hreturns, of_decide_eq_true hlook⟩

end Character

/-! ### Exact sizes -/

section

variable {α : Type} [Exact α]

theorem Vec3.AllPositive.scale {v : Vec3 α} {s : α} (hv : v.AllPositive)
    (hs : Scalar.IsPositive s) : (v.scale s).AllPositive :=
  ⟨hv.1.mul hs, hv.2.1.mul hs, hv.2.2.mul hs⟩

namespace Blueprint

variable {loc : Location} {frame : BoneFrame α}

theorem Step.isPositive_height {steps : List (Step α)} {drawing : Drawing α}
    (h : draw loc steps = .ok drawing) : Scalar.IsPositive (Step.height steps) := by
  rw [← height_of_draw h]
  cases steps with
  | nil =>
      cases h
      exact Scalar.Ordered.isPositive_one
  | cons s rest =>
      obtain ⟨_, habove, h⟩ := bind_eq_ok.mp h
      cases h
      have hlt := lt_height_of_climb (fun _ _ _ => lt_trans) habove
      refine Scalar.isPositive_iff.mpr ?_
      rw [← Exact.decimal_zero]
      exact hlt

/-- Over exact numbers what has been checked fits. -/
theorem Attachment.Checked.fits {a : Attachment α} (h : a.Checked)
    (hframe : Scalar.IsPositive frame.length) : a.Fits frame := by
  cases a with
  | primitive shape => exact Vec3.AllPositive.scale h hframe
  | extrude shape => rfl
  | asset shape => trivial

theorem BoneMesh.fits_of_place {m : BoneMesh α} {bone : String} {parent : Option String}
    {settings : Settings α} {mesh : Mannequin.BoneMesh α} (hm : ∀ a ∈ m.geometry, a.Checked)
    (h : m.place bone parent frame settings = .ok mesh) : m.Fits frame := by
  have hlength := (scale_of_place h).1
  obtain ⟨_, -, h⟩ := bind_eq_ok.mp h
  obtain ⟨drawing, hdrawing, -⟩ := bind_eq_ok.mp h
  exact ⟨hlength.mul (Step.isPositive_height hdrawing), fun a ha => (hm a ha).fits hlength⟩

end Blueprint

namespace Character

/-- Over exact numbers every recipe that is resolved fits its skeleton. -/
theorem Course.fits {skeleton : Skeleton α} {settings : Settings α} {recipe : Json α}
    {journal told : Journal} {context : Context α} {definitions shapes : NameMap (Json α)}
    {placed : List (BoneMesh α)} {character : Character α}
    (h : Course skeleton settings recipe journal context definitions shapes placed told)
    (hcharacter : Resolution context definitions placed character)
    (hframed : skeleton.FramedBy Scalar.IsPositive) :
    Fits skeleton settings (recipe.member "bone_meshes") definitions shapes := by
  obtain rfl := h.onSkeleton
  obtain rfl := h.underSettings
  rw [← h.table]
  constructor
  · intro bone definition blueprint frame hdefinition hblueprint hframe
    obtain ⟨_, -, hmade⟩ := hcharacter.complete bone definition hdefinition
      (Skeleton.contains_of_frame? hframe)
    obtain ⟨_, _, _, hframe', hblueprint', hchecked, hplace⟩ := hmade.exists_place
    rw [hframe] at hframe'
    rw [hblueprint] at hblueprint'
    cases hframe'
    cases hblueprint'
    exact fits_withoutBridges.mp (Blueprint.BoneMesh.fits_of_place hchecked hplace)
  · intro name definition blueprint frame hdefinition hblueprint hframe
    obtain ⟨bone, -, hfound⟩ := Option.bind_eq_some_iff.mp hframe
    obtain ⟨-, epsilon, hepsilon, hle⟩ := hframed.frame?_eq_some hfound
    have hlength : Scalar.IsPositive frame.length := hepsilon.of_le hle rfl
    exact ⟨rfl, (Blueprint.BoolShape.allPositive_of_ofJson hblueprint).scale hlength⟩

/-- Over exact numbers everything in a resolved character is sized. -/
theorem sized_of_exact {settings : Settings α} {recipe : Json α} {journal journal' : Journal}
    {character : Character α} (hepsilon : Scalar.IsPositive settings.degenerateEpsilon)
    (h : Returns (resolve settings recipe) journal character journal') :
    ∃ skeleton told, Returns (Skeleton.ofRecipe (recipe.member "skeleton_preset")
        (recipe.member "skeleton") settings.degenerateEpsilon) journal skeleton told ∧
      character.Sized skeleton := by
  obtain ⟨skeleton, resolved, told, _, warnings, hskeleton, hresolved, rfl⟩ :=
    exists_skeleton_of_returns_resolve h
  have hframed := Skeleton.framedBy_ofRecipe hepsilon hskeleton
  obtain ⟨_, _, _, _, _, hcourse, rfl⟩ := exists_course hresolved
  have hresolution := hcourse.resolution warnings
  exact ⟨skeleton, told, hskeleton, (hcourse.sized_iff hresolution hepsilon hframed).mpr
    (hcourse.fits hresolution hframed)⟩

end Character

end

end Mannequin
