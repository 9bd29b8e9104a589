import Mannequin.Proofs.Build.Creating
import Mannequin.Proofs.Deformation.Neutral

/-!
# Deformations that are left out

A build does not ask the kernel for a deformation by a field that passes for the identity.
All fields of a resolved character have been accepted, and an accepted field of this kind
changes nothing at any height, so what is left out is never missed.
-/

namespace Mannequin

variable {α : Type} [Scalar α]

/-! ### The fields of a character -/

/-- All fields of a character have been accepted. -/
def Character.FieldsBuilt (c : Character α) : Prop :=
  ∀ p ∈ c.creations, ∀ field ∈ p.field, field.IsBuilt

/-- An extrusion has an accepted field, and no other attachment has one. -/
theorem Blueprint.Attachment.isBuilt_of_place {a : Attachment α} {loc : Location}
    {frame : BoneFrame α} {epsilon : α} {piece : Piece α}
    (h : a.place loc frame epsilon = .ok piece) : ∀ field ∈ piece.field, field.IsBuilt := by
  cases a with
  | primitive shape => cases h; exact nofun
  | asset shape => cases h; exact nofun
  | extrude shape =>
      obtain ⟨span, -, h⟩ := bind_eq_ok.mp h
      obtain ⟨radius, -, h⟩ := bind_eq_ok.mp h
      obtain ⟨field, hfield, h⟩ := bind_eq_ok.mp h
      cases h
      intro field' hmem
      cases hmem
      exact ⟨_, _, _, _, _, hfield⟩

/-- Everything that is placed on a bone has accepted fields. -/
theorem Blueprint.BoneMesh.isBuilt_of_place {m : BoneMesh α} {bone : String}
    {parent : Option String} {frame : BoneFrame α} {settings : Settings α}
    {mesh : Mannequin.BoneMesh α} (h : m.place bone parent frame settings = .ok mesh) :
    mesh.field.IsBuilt ∧ ∀ p ∈ mesh.pieces, ∀ field ∈ p.field, field.IsBuilt := by
  constructor
  · obtain ⟨radius, -, h⟩ := bind_eq_ok.mp h
    obtain ⟨drawing, -, h⟩ := bind_eq_ok.mp h
    obtain ⟨field, hfield, h⟩ := bind_eq_ok.mp h
    obtain ⟨attachments, -, h⟩ := bind_eq_ok.mp h
    cases h
    exact ⟨_, _, _, _, _, hfield⟩
  · exact forall_mem_of_forall₂
      (fun a p ⟨_, hplace⟩ => Attachment.isBuilt_of_place hplace) (forall₂_pieces (placed h))

namespace Character

theorem field_eq_none_of_resolveBoolShape {skeleton : Skeleton α} {name : String}
    {definition : Json α} {shape : BoolShape α}
    (h : resolveBoolShape skeleton name definition = .ok shape) : shape.piece.field = none := by
  obtain ⟨blueprint, -, h⟩ := bind_eq_ok.mp h
  split at h
  · cases h
    rfl
  · split at h
    · cases h
      rfl
    · cases h

/-- All fields of a character that a recipe is resolved to have been accepted. -/
theorem fieldsBuilt_of_returns_resolve {settings : Settings α} {recipe : Json α}
    {journal journal' : Journal} {c : Character α}
    (h : Returns (resolve settings recipe) journal c journal') : c.FieldsBuilt := by
  obtain ⟨skeleton, resolved, _, _, warnings, hresolved, rfl⟩ := of_returns_resolve h
  obtain ⟨context, definitions, shapes, placed, told, hcourse, rfl⟩ := exists_course hresolved
  have hplaced : ∀ mesh ∈ placed, mesh.field.IsBuilt ∧
      ∀ p ∈ mesh.pieces, ∀ field ∈ p.field, field.IsBuilt := by
    intro mesh hmesh
    obtain ⟨_, -, hmade⟩ := (hcourse.resolution warnings).made mesh hmesh
    obtain ⟨_, _, -, -, hplace⟩ := hmade
    exact Blueprint.BoneMesh.isBuilt_of_place hplace
  intro p hp field hfield
  obtain ⟨mesh, hmesh, hcreated⟩ := List.mem_flatMap.mp hp
  -- Bridges change nothing but the caps of a mesh.
  obtain ⟨before, hbefore, rfl⟩ := List.mem_map.mp hmesh
  obtain ⟨hsegment, hpieces⟩ := hplaced before hbefore
  rcases BoneMesh.of_mem_creations hcreated with rfl | hpiece | ⟨name, shape, hshape, rfl⟩
  · cases hfield
    exact hsegment
  · exact hpieces p hpiece field hfield
  · obtain ⟨_, -, hresolve⟩ := NameMap.of_get?_traverse hcourse.boolShapes hshape
    rw [field_eq_none_of_resolveBoolShape hresolve] at hfield
    cases hfield

end Character

namespace Build

/-- An accepted field that passes for the identity changes nothing at any finite height. The
pieces that a build creates are those of the character in their order, all of them if it
succeeds, and each piece with a field is deformed with it next, or the field changes nothing
at any finite height. The fields of every resolved character have been accepted. -/
theorem undeformed_neutral (α : Type) [Scalar α] [Scalar.Cancelling α] :
    (∀ field : Deformation α, field.IsBuilt → field.IsIdentity →
      ∀ t, Scalar.isFinite t = true → (field.evaluate t).IsNeutral) ∧
    (∀ (kernel : Kernel α) (settings : Settings α) (c : Character α) (result : Except Error Built)
        (session : Session α), c.FieldsBuilt →
      Building.start (character kernel settings c) = (result, session) →
      (∀ built, result = .ok built →
        session.exchanges.countP Exchange.creates = c.creations.length) ∧
      ∀ i form world made,
        session.exchanges[i]? = some ⟨.mesh (.create form world), .ok (some made)⟩ →
        ∃ p, c.creations[(session.exchanges.take i).countP Exchange.creates]? = some p ∧
          p.form = form ∧ p.world.matrix = world ∧ ∀ field ∈ p.field,
            (∃ reply, session.exchanges[i + 1]? = some ⟨.mesh (.deform made field), reply⟩) ∨
            ∀ t, Scalar.isFinite t = true → (field.evaluate t).IsNeutral) ∧
    ∀ (settings : Settings α) (recipe : Json α) (journal journal' : Journal) (c : Character α),
      Returns (Character.resolve settings recipe) journal c journal' → c.FieldsBuilt := by
  have hneutral : ∀ field : Deformation α, field.IsBuilt → field.IsIdentity →
      ∀ t, Scalar.isFinite t = true → (field.evaluate t).IsNeutral :=
    fun field hbuilt h t ht => Deformation.isNeutral_evaluate hbuilt h ht
  refine ⟨hneutral, ?_, fun _ _ _ _ _ h => Character.fieldsBuilt_of_returns_resolve h⟩
  intro kernel settings c result session hfields hrun
  have hcreating : Creating (character kernel settings c) c.creations :=
    creating_character settings c
  obtain ⟨own, created, hown, hcreates, hreached⟩ := hcreating Session.empty
  change outcome (character kernel settings c) Session.empty = (result, session) at hrun
  rw [hrun] at hown hreached
  obtain rfl : session.exchanges = own := hown
  constructor
  · rintro built rfl
    obtain rfl : created = c.creations := hreached
    exact hcreates.countP_creates
  · intro i form world made hi
    obtain ⟨p, hp, hform, hworld, hfield⟩ := hcreates.exists_piece hi
    obtain ⟨rest, hrest⟩ := hreached.isPrefix
    have hp' : c.creations[(session.exchanges.take i).countP Exchange.creates]? = some p := by
      rw [← hrest, List.getElem?_append_left (List.getElem?_eq_some_iff.mp hp).1, hp]
    refine ⟨p, hp', hform, hworld, fun field hmem => (hfield field hmem).imp_right ?_⟩
    exact hneutral field (hfields p (List.mem_of_getElem? hp') field hmem)

/-- A field with points and rings that changes nothing. -/
def straight : Deformation Float :=
  ⟨1, 0, [⟨0, 1⟩, ⟨0.5, 1⟩], [Ring.identity 0, Ring.identity 0.5]⟩

/-- A field that tapers. -/
def tapered : Deformation Float := ⟨0.5, 0, [], []⟩

/-- Two limbs, one of them straight and one tapered. -/
def antlers : Character Float :=
  { (limbs : Character Float) with
    meshes := [{ limb "left" with field := straight }, { limb "right" with field := tapered }]
    bridges := [] }

theorem fieldsBuilt_antlers : antlers.FieldsBuilt := by
  have hstraight : Deformation.build (.root "left") 1 [⟨0.5, 1⟩, ⟨-2, 1⟩] 0
      [Ring.identity 0, Ring.identity 0.5] = .ok straight := by
    decide +kernel
  have htapered : Deformation.build (.root "right") 0.5 [] 0 [] = .ok tapered := by
    decide +kernel
  have hfields : antlers.creations.filterMap Piece.field = [straight, tapered] := rfl
  intro p hp field hfield
  have hmem : field ∈ antlers.creations.filterMap Piece.field :=
    List.mem_filterMap.mpr ⟨p, hp, hfield⟩
  rw [hfields, List.mem_pair] at hmem
  rcases hmem with rfl | rfl
  · exact ⟨_, _, _, _, _, hstraight⟩
  · exact ⟨_, _, _, _, _, htapered⟩

/-- The straight limb is opened right after it has been created. Its field changes nothing. -/
theorem undeformed_neutral_antlers : ∃ built session,
    Building.start (character (Simulated.kernel ⟨false, none⟩) Settings.standard antlers) =
      (.ok built, session) ∧
    session.exchanges.countP Exchange.creates = 6 ∧
    session.calls.map Call.name =
      ["create", "caps", "create", "join", "create", "boolean", "bind", "create", "deform",
        "caps", "create", "join", "create", "boolean", "bind", "join"] ∧
    ∀ t, Scalar.isFinite t = true → (straight.evaluate t).IsNeutral := by
  obtain ⟨run, hrun⟩ : ∃ run, Building.start
      (character (Simulated.kernel ⟨false, none⟩) Settings.standard antlers) = run := ⟨_, rfl⟩
  have hok : run.1.toOption.isSome = true := by
    rw [← hrun]
    decide +kernel
  have hnames : run.2.calls.map Call.name =
      ["create", "caps", "create", "join", "create", "boolean", "bind", "create", "deform",
        "caps", "create", "join", "create", "boolean", "bind", "join"] := by
    rw [← hrun]
    decide +kernel
  have hfirst : run.2.exchanges[0]?.map (fun e => (e.creates, e.reply.toOption)) =
      some (true, some (some 1)) := by
    rw [← hrun]
    decide +kernel
  obtain ⟨e | built, session⟩ := run
  · cases hok
  obtain ⟨exchange, hexchange, heq⟩ := Option.map_eq_some_iff.mp hfirst
  obtain ⟨form, world, rfl⟩ := Exchange.exists_eq_of_creates heq
  obtain ⟨-, hbuild, -⟩ := undeformed_neutral Float
  obtain ⟨hcount, hpieces⟩ := hbuild _ _ _ _ _ fieldsBuilt_antlers hrun
  obtain ⟨p, hp, -, -, hfield⟩ := hpieces 0 form world 1 hexchange
  have hstraight : p.field = some straight := by
    cases hp
    rfl
  refine ⟨built, session, hrun, hcount built rfl, hnames, ?_⟩
  rcases hfield straight hstraight with ⟨reply, hdeform⟩ | hneutral
  · -- The second call opens the end of the limb.
    have hsecond : (session.calls.map Call.name)[1]? = some "deform" := by
      rw [Session.calls, List.getElem?_map, List.getElem?_map, hdeform]
      rfl
    rw [hnames] at hsecond
    exact absurd hsecond (by decide)
  · exact hneutral

end Build

end Mannequin
