import Mannequin.Proofs.Character.References
import Mannequin.Proofs.Fields

/-!
# What meshes are made up of

A definition lists attachments, modifiers and the operations of a part, each item of one
kind. The mesh that is made from it has a piece or a modifier of the same kind for every
item, in the same order: reflecting and placing a definition, and linking its mesh, change
numbers only.
-/

namespace Mannequin

variable {α : Type}

/-! ### Kinds -/

/-- What a piece is, without its numbers. -/
inductive PieceKind where
  | primitive (kind : PrimitiveKind)
  | extrusion
  | asset (path : String)
  deriving DecidableEq

/-- What a modifier does, without its numbers. -/
inductive ModifierKind where
  | bevel
  | subdivide
  | boolean (target : String)
  deriving DecidableEq

def Form.kind : Form → PieceKind
  | .profile _ => .extrusion
  | .primitive kind => .primitive kind
  | .asset path => .asset path

namespace Blueprint

def Attachment.kind : Attachment α → PieceKind
  | .primitive shape => .primitive shape.kind
  | .extrude _ => .extrusion
  | .asset shape => .asset shape.path

def Shape.kind : Shape α → PieceKind
  | .primitive shape => .primitive shape.kind
  | .asset shape => .asset shape.path

def Modifier.kind : Modifier α → ModifierKind
  | .bevel _ _ => .bevel
  | .subdivide _ => .subdivide
  | .boolean _ target => .boolean target

end Blueprint

namespace Json

/-- The kind of piece that a value describes. -/
def pieceKind? (value : Json α) : Option PieceKind :=
  match value.member? "primitive", value.member? "extrude", value.member? "asset" with
  | some (.str word), none, none => (PrimitiveKind.ofName? word).map .primitive
  | none, some _, none => some .extrusion
  | none, none, some (.str path) => some (.asset path)
  | _, _, _ => none

/-- The kind of modifier that a value describes. -/
def modifierKind? (value : Json α) : Option ModifierKind :=
  match value.members.entries with
  | [("bevel", _)] => some .bevel
  | [("subdivide", _)] => some .subdivide
  | [("bool", body)] =>
    match body.member "target" with
    | .str target => some (.boolean target)
    | _ => none
  | _ => none

/-- The boolean operation that a value describes, a union unless it says otherwise. -/
def operation? (value : Json α) : Option BoolOp :=
  match value.member? "op" with
  | none => some .union
  | some (.str word) => BoolOp.ofWord? word
  | some _ => none

end Json

/-! ### Reading -/

variable {loc : Location} {value : Json α}

theorem PrimitiveKind.of_ofJson_eq_ok {kind : PrimitiveKind} (h : ofJson loc value = .ok kind) :
    ∃ word, value = .str word ∧ ofName? word = some kind := by
  obtain ⟨word, hword, h⟩ := bind_eq_ok.mp h
  split at h
  · rename_i hkind
    cases h
    exact ⟨word, Field.string_eq_ok.mp hword, hkind⟩
  · cases h

theorem BoolOp.of_ofJson_eq_ok {op : BoolOp} (h : ofJson loc value = .ok op) :
    ∃ word, value = .str word ∧ ofWord? word = some op := by
  obtain ⟨word, hword, h⟩ := bind_eq_ok.mp h
  split at h
  · rename_i hop
    cases h
    exact ⟨word, Field.string_eq_ok.mp hword, hop⟩
  · cases h

variable [Scalar α]

namespace Blueprint

theorem Primitive.pieceKind?_of_ofJson {p : Primitive α} (h : ofJson loc value = .ok p) :
    value.pieceKind? = some (.primitive p.kind) := by
  obtain ⟨_, hknown, h⟩ := bind_eq_ok.mp h
  have hextrude := Field.member?_eq_none_of_knownMembers "extrude" hknown (by decide)
  have hasset := Field.member?_eq_none_of_knownMembers "asset" hknown (by decide)
  obtain ⟨kind, hkind, h⟩ := bind_eq_ok.mp (of_guarded_eq_ok h)
  obtain ⟨_, -, h⟩ := bind_eq_ok.mp h
  obtain ⟨_, -, h⟩ := bind_eq_ok.mp h
  obtain ⟨_, -, h⟩ := bind_eq_ok.mp h
  obtain ⟨_, -, h⟩ := bind_eq_ok.mp h
  cases h
  obtain ⟨word, hword, hname⟩ := PrimitiveKind.of_ofJson_eq_ok hkind
  rw [Json.pieceKind?, Json.member?_of_member_str hword, hextrude, hasset]
  simp only [hname, Option.map_some]

theorem Asset.pieceKind?_of_ofJson {a : Asset α} (h : ofJson loc value = .ok a) :
    value.pieceKind? = some (.asset a.path) := by
  obtain ⟨_, hknown, h⟩ := bind_eq_ok.mp h
  have hprimitive := Field.member?_eq_none_of_knownMembers "primitive" hknown (by decide)
  have hextrude := Field.member?_eq_none_of_knownMembers "extrude" hknown (by decide)
  obtain ⟨path, hpath, h⟩ := bind_eq_ok.mp h
  obtain ⟨_, -, h⟩ := bind_eq_ok.mp (of_guarded_eq_ok h)
  obtain ⟨_, -, h⟩ := bind_eq_ok.mp h
  obtain ⟨_, -, h⟩ := bind_eq_ok.mp h
  cases h
  have hmember := Json.member?_of_member_str (Field.string_eq_ok.mp hpath)
  rw [Json.pieceKind?, hprimitive, hextrude, hmember]

theorem Attachment.pieceKind?_of_ofJson {a : Attachment α} (h : ofJson loc value = .ok a) :
    value.pieceKind? = some a.kind := by
  obtain ⟨_, -, h⟩ := bind_eq_ok.mp h
  split at h
  case h_1 =>
    obtain ⟨shape, hshape, rfl⟩ := map_eq_ok.mp h
    exact Primitive.pieceKind?_of_ofJson hshape
  case h_2 body hprimitive hextrude hasset =>
    split at h
    case isTrue => cases h
    case isFalse =>
      obtain ⟨_, -, h⟩ := bind_eq_ok.mp h
      obtain ⟨shape, -, rfl⟩ := map_eq_ok.mp h
      rw [Json.pieceKind?, Json.has_eq_false_iff.mp hprimitive, hextrude,
        Json.has_eq_false_iff.mp hasset]
      rfl
  case h_3 =>
    obtain ⟨shape, hshape, rfl⟩ := map_eq_ok.mp h
    exact Asset.pieceKind?_of_ofJson hshape
  case h_4 => cases h

theorem Shape.pieceKind?_of_ofJson {s : Shape α} (h : ofJson loc value = .ok s) :
    value.pieceKind? = some s.kind := by
  obtain ⟨_, -, h⟩ := bind_eq_ok.mp h
  split at h
  case h_1 =>
    obtain ⟨shape, hshape, rfl⟩ := map_eq_ok.mp h
    exact Primitive.pieceKind?_of_ofJson hshape
  case h_2 =>
    obtain ⟨shape, hshape, rfl⟩ := map_eq_ok.mp h
    exact Asset.pieceKind?_of_ofJson hshape
  case h_3 => cases h

theorem Modifier.modifierKind?_of_ofJson {m : Modifier α} (h : ofJson loc value = .ok m) :
    value.modifierKind? = some m.kind := by
  obtain ⟨_, -, h⟩ := bind_eq_ok.mp h
  split at h
  case h_1 body hentries =>
    obtain ⟨_, -, h⟩ := bind_eq_ok.mp h
    obtain ⟨_, -, h⟩ := bind_eq_ok.mp h
    obtain ⟨_, -, h⟩ := bind_eq_ok.mp h
    cases of_guarded_eq_ok h
    rw [Json.modifierKind?, hentries]
    rfl
  case h_2 body hentries =>
    obtain ⟨_, -, h⟩ := bind_eq_ok.mp h
    obtain ⟨_, -, h⟩ := bind_eq_ok.mp h
    cases of_guarded_eq_ok h
    rw [Json.modifierKind?, hentries]
    rfl
  case h_3 body hentries =>
    obtain ⟨_, -, h⟩ := bind_eq_ok.mp h
    obtain ⟨_, -, h⟩ := bind_eq_ok.mp h
    obtain ⟨target, htarget, h⟩ := bind_eq_ok.mp h
    cases h
    rw [Json.modifierKind?, hentries]
    simp only [Field.string_eq_ok.mp htarget]
    rfl
  case h_4 => cases h

theorem PartOperation.kinds_of_ofJson {o : PartOperation α} (h : ofJson loc value = .ok o) :
    (value.operation?, (value.member "target").pieceKind?) = (some o.op, some o.target.kind) := by
  obtain ⟨_, -, h⟩ := bind_eq_ok.mp h
  split at h
  case h_1 => cases h
  case h_2 shape hshape =>
    obtain ⟨op, hop, h⟩ := bind_eq_ok.mp h
    obtain ⟨target, htarget, h⟩ := bind_eq_ok.mp h
    cases h
    have hword : value.operation? = some (op.getD .union) := by
      rw [Json.operation?]
      unfold Field.optional at hop
      split at hop
      case h_1 member hmember =>
        obtain ⟨found, hfound, rfl⟩ := map_eq_ok.mp hop
        obtain ⟨word, rfl, hword⟩ := BoolOp.of_ofJson_eq_ok hfound
        rw [hmember]
        exact hword
      case h_2 hnone =>
        cases hop
        rw [hnone]
        rfl
    rw [hword, Json.member, hshape, Option.getD_some, Shape.pieceKind?_of_ofJson htarget]

end Blueprint

/-! ### Making -/

/-- The kinds of the base and of the operations of a part. -/
def Part.kinds (p : Part α) : PieceKind × List (BoolOp × PieceKind) :=
  (p.base.form.kind, p.operations.map fun o => (o.op, o.target.form.kind))

namespace Blueprint

/-- The kinds of the base and of the operations of a part. -/
def Part.kinds (p : Part α) : PieceKind × List (BoolOp × PieceKind) :=
  (p.base.kind, p.operations.map fun o => (o.op, o.target.kind))

theorem Attachment.kind_reflect (a : Attachment α) : a.reflect.kind = a.kind := by
  cases a <;> rfl

theorem Shape.kind_reflect (s : Shape α) : s.reflect.kind = s.kind := by
  cases s <;> rfl

theorem Shape.kind_place (s : Shape α) (frame : BoneFrame α) :
    (s.place frame).form.kind = s.kind := by
  cases s <;> rfl

theorem Part.kinds_reflect (p : Part α) : p.reflect.kinds = p.kinds := by
  rw [kinds, kinds, reflect, List.map_map, Shape.kind_reflect]
  congr 2
  funext o
  exact congrArg (Prod.mk o.op) o.target.kind_reflect

theorem Part.kinds_place (p : Part α) (frame : BoneFrame α) : (p.place frame).kinds = p.kinds := by
  rw [kinds, Mannequin.Part.kinds, place, List.map_map, Shape.kind_place]
  congr 2
  funext o
  exact congrArg (Prod.mk o.op) (o.target.kind_place frame)

theorem Attachment.kind_place {a : Attachment α} {loc : Location} {frame : BoneFrame α}
    {epsilon : α} {piece : Piece α} (h : a.place loc frame epsilon = .ok piece) :
    piece.form.kind = a.kind := by
  cases a with
  | primitive shape =>
      cases h
      rfl
  | asset shape =>
      cases h
      rfl
  | extrude shape =>
      obtain ⟨_, -, h⟩ := bind_eq_ok.mp h
      obtain ⟨_, -, h⟩ := bind_eq_ok.mp h
      obtain ⟨_, -, h⟩ := bind_eq_ok.mp h
      cases h
      rfl

theorem kinds_placeAttachments {loc : Location} {frame : BoneFrame α} {epsilon : α}
    {index : Nat} {attachments : List (Attachment α)} {pieces : List (Piece α)}
    (h : placeAttachments loc frame epsilon index attachments = .ok pieces) :
    pieces.map (fun piece => piece.form.kind) = attachments.map Attachment.kind :=
  (map_eq_map_of_forall₂ (fun _ _ ⟨_, hpiece⟩ => (Attachment.kind_place hpiece).symm)
    (forall₂_placeAttachments h)).symm

end Blueprint

/-! ### Meshes -/

/-- A part has the base and the operations that are written, of the same kinds and in the
same order. -/
structure Part.MadeUpAs (part : Part α) (written : Json α) : Prop where
  base : (written.member "base").pieceKind? = some part.base.form.kind
  operations : (written.listed "operations").map
      (fun item => (item.operation?, (item.member "target").pieceKind?)) =
    part.operations.map fun o => (some o.op, some o.target.form.kind)

/-- A mesh has the attachments, the modifiers and the part that are written, of the same
kinds and in the same order. -/
structure BoneMesh.MadeUpAs (mesh : BoneMesh α) (written : Json α) : Prop where
  attachments : (written.listed "attachments").map Json.pieceKind? =
    mesh.attachments.map fun piece => some piece.form.kind
  modifiers : (written.listed "modifiers").map Json.modifierKind? =
    mesh.modifiers.map fun modifier => some modifier.kind
  part : (written.given? "part" = none ∧ mesh.part = none) ∨
    ∃ body part, written.given? "part" = some body ∧ mesh.part = some part ∧ part.MadeUpAs body

omit [Scalar α] in
theorem BoneMesh.MadeUpAs.settle {mesh : BoneMesh α} (h : mesh.MadeUpAs value)
    (bridges : List Bridge) : (Bridge.settle bridges mesh).MadeUpAs value :=
  ⟨h.attachments, h.modifiers, h.part⟩

/-- A part of the kinds of what is read from a value is made up as the value says. -/
theorem Part.madeUpAs_of_kinds {part : Part α} {p : Blueprint.Part α}
    (h : Blueprint.Part.ofJson loc value = .ok p) (hkinds : part.kinds = p.kinds) :
    part.MadeUpAs value := by
  obtain ⟨hbase, hoperations⟩ := Prod.mk.inj hkinds
  obtain ⟨_, -, h⟩ := bind_eq_ok.mp h
  split at h
  case h_1 => cases h
  case h_2 shape hshape =>
    obtain ⟨base, hread, h⟩ := bind_eq_ok.mp h
    obtain ⟨operations, hlist, h⟩ := bind_eq_ok.mp h
    cases h
    constructor
    · rw [hbase, Json.member, hshape, Option.getD_some]
      exact Blueprint.Shape.pieceKind?_of_ofJson hread
    · have hkept := congrArg (List.map fun kinds => (some kinds.1, some kinds.2)) hoperations
      rw [List.map_map, List.map_map] at hkept
      refine Eq.trans ?_ hkept.symm
      exact Blueprint.map_listed_eq (fun _ _ _ h => Blueprint.PartOperation.kinds_of_ofJson h) hlist

namespace Character

variable {context : Context α} {bone : String} {definition : Json α} {mesh : BoneMesh α}

omit [Scalar α] in
theorem attachments_withoutBridges (m : Blueprint.BoneMesh α) :
    (withoutBridges m).attachments = m.attachments := by
  unfold withoutBridges
  split <;> rfl

/-- What is read from a definition keeps its kinds, reflected or not, until it is placed. -/
theorem MadeFrom.kinds (h : MadeFrom context bone definition mesh) :
    ∃ blueprint, Blueprint.BoneMesh.ofJson (BoneMesh.location bone)
        context.settings.defaultSegments definition = .ok blueprint ∧
      mesh.attachments.map (fun piece => piece.form.kind) =
        blueprint.attachments.map Blueprint.Attachment.kind ∧
      mesh.modifiers = blueprint.modifiers ∧
      mesh.part.map Part.kinds = blueprint.part.map Blueprint.Part.kinds := by
  obtain ⟨joint, read, -, hread, hplace⟩ := h
  obtain ⟨blueprint, hblueprint, rfl⟩ := readMesh_eq_ok hread
  have hplaced := Blueprint.BoneMesh.placed hplace
  refine ⟨blueprint, hblueprint, ?_, ?_, ?_⟩
  · rw [Blueprint.kinds_placeAttachments hplaced.attachments, attachments_withoutBridges]
    split
    · rw [Blueprint.BoneMesh.reflect, List.map_map]
      exact List.map_congr_left fun a _ => a.kind_reflect
    · rfl
  · rw [hplaced.modifiers, modifiers_withoutBridges]
    split <;> rfl
  · have hplace : Part.kinds ∘ (fun p : Blueprint.Part α => p.place joint.frame) =
        Blueprint.Part.kinds := funext fun p => p.kinds_place joint.frame
    rw [hplaced.part, part_withoutBridges, Option.map_map, hplace]
    split
    · rw [Blueprint.BoneMesh.reflect, Option.map_map]
      exact congrArg (Option.map · _) (funext fun p => p.kinds_reflect)
    · rfl

theorem MadeFrom.madeUpAs (h : MadeFrom context bone definition mesh) :
    mesh.MadeUpAs definition := by
  obtain ⟨blueprint, hblueprint, hattachments, hmodifiers, hpart⟩ := h.kinds
  have hwritten := Blueprint.BoneMesh.written_of_ofJson hblueprint
  constructor
  · obtain ⟨loc, hlist⟩ := hwritten.attachments
    have hkept := congrArg (List.map some) hattachments
    rw [List.map_map, List.map_map] at hkept
    refine Eq.trans ?_ hkept.symm
    exact Blueprint.map_listed_eq
      (fun _ _ _ h => Blueprint.Attachment.pieceKind?_of_ofJson h) hlist
  · obtain ⟨loc, hlist⟩ := hwritten.modifiers
    rw [hmodifiers]
    exact Blueprint.map_listed_eq
      (fun _ _ _ h => Blueprint.Modifier.modifierKind?_of_ofJson h) hlist
  · obtain ⟨loc, hgiven⟩ := hwritten.part
    rcases Field.of_given_eq_ok hgiven with ⟨hnone, hnot⟩ | ⟨body, p, hbody, hread, hsome⟩
    · rw [hnot, Option.map_none, Option.map_eq_none_iff] at hpart
      exact .inl ⟨hnone, hpart⟩
    · rw [hsome, Option.map_some, Option.map_eq_some_iff] at hpart
      obtain ⟨part, hmade, hkinds⟩ := hpart
      exact .inr ⟨body, part, hbody, hmade, Part.madeUpAs_of_kinds hread hkinds⟩

end Character

end Mannequin
