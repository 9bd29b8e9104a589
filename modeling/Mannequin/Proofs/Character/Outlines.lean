import Mannequin.Proofs.Alias.Sources
import Mannequin.Proofs.Blueprint.Sound
import Mannequin.Proofs.Character.Makeup

/-!
# Outlines that are left open

A definition may leave the profile of its segment open, and so may an extrusion that it
attaches. Both become circles. The settings say how many segments the circle of a bone mesh
has, whichever name the definition is used under and on whichever side; the circle of an
extrusion has the standard number, whatever the settings say. So a character follows its
settings exactly if they keep to the standard or its extrusions leave nothing open.
-/

namespace Mannequin

variable {α β γ : Type}

theorem exists_getElem?_of_forall₂ {R : β → γ → Prop} {l : List β} {l' : List γ}
    (h : List.Forall₂ R l l') {i : Nat} {b : β} (hb : l[i]? = some b) :
    ∃ c, l'[i]? = some c ∧ R b c := by
  induction h generalizing i with
  | nil => cases hb
  | cons hfirst _ ih =>
      cases i with
      | zero =>
          cases hb
          exact ⟨_, rfl, hfirst⟩
      | succ i => exact ih hb

/-! ### Outlines -/

/-- The outline of what is extruded. -/
def Form.outline? : Form → Option Profile
  | .profile outline => some outline
  | .primitive _ => none
  | .asset _ => none

theorem Form.outline?_eq_some {form : Form} {outline : Profile} :
    form.outline? = some outline ↔ form = .profile outline := by
  cases form <;> simp [outline?]

/-- The outlines of a mesh: that of its segment, and those of its pieces. -/
def BoneMesh.outlines (m : BoneMesh α) : List Profile :=
  m.profile :: m.pieces.filterMap fun p => p.form.outline?

/-- All outlines of a character. -/
def Character.outlines (c : Character α) : List Profile :=
  c.meshes.flatMap BoneMesh.outlines ++
    c.boolShapes.entries.filterMap fun entry => entry.2.piece.form.outline?

/-- The outline of an attachment that is extruded. -/
def Blueprint.Attachment.outline? : Attachment α → Option Profile
  | .primitive _ => none
  | .extrude shape => some shape.profile
  | .asset _ => none

/-- Among the attachments of a definition, the one at a place is an extrusion whose profile
is left out or null. -/
def Json.LeavesOpen (definition : Json α) (i : Nat) : Prop :=
  ∃ item body, (definition.listed "attachments")[i]? = some item ∧
    item.member? "extrude" = some body ∧ body.given? "profile" = none

/-- What the definitions of a character leave open becomes a circle: one of `own` segments
for a bone mesh, and one of `attached` segments for an extrusion that is attached to it. -/
def Character.FillsIn (c : Character α) (table : Json α) (own attached : Nat) : Prop :=
  ∀ mesh ∈ c.meshes, ∃ definition,
    table.member? (Alias.sourceKey table mesh.bone) = some definition ∧
    (definition.given? "profile" = none → mesh.profile = ⟨.circle, own⟩) ∧
    ∀ i, definition.LeavesOpen i →
      (mesh.attachments[i]?).map Piece.form = some (.profile ⟨.circle, attached⟩)

/-- No extrusion that is attached to a mesh of a character leaves its profile open. -/
def Character.LeavesNothingOpen (c : Character α) (table : Json α) : Prop :=
  ∀ mesh ∈ c.meshes, ∀ definition,
    table.member? (Alias.sourceKey table mesh.bone) = some definition →
    ∀ i, ¬ definition.LeavesOpen i

/-! ### Reading -/

theorem Json.member_eq_null {value : Json α} {name : String} (h : value.given? name = none) :
    value.member name = .null := by
  rw [given?] at h
  rw [member]
  cases hmember : value.member? name with
  | none => rfl
  | some found =>
      rw [hmember, Option.filter_eq_none_iff] at h
      cases found with
      | null => rfl
      | _ => exact absurd rfl (h _ rfl)

/-- A profile that is left open is a circle of the number of segments that it is read with. -/
theorem Profile.ofJson_of_leftOpen {loc : Location} {value : Json α} {segments : Nat}
    (h : value.given? "profile" = none) :
    ofJson loc segments (value.member "profile") = .ok ⟨.circle, segments⟩ := by
  rw [Json.member_eq_null h]
  rfl

variable [Scalar α]

namespace Blueprint

variable {loc : Location} {value : Json α}

/-- The profile of an extrusion is read with the standard number of segments. -/
theorem Extrusion.profile_of_ofJson {e : Extrusion α} (h : ofJson loc value = .ok e) :
    Profile.ofJson (.key loc "profile") Profile.standardSegments (value.member "profile") =
      .ok e.profile := by
  obtain ⟨_, -, h⟩ := bind_eq_ok.mp h
  obtain ⟨profile, hprofile, h⟩ := bind_eq_ok.mp (of_guarded_eq_ok h)
  obtain ⟨_, -, h⟩ := bind_eq_ok.mp h
  obtain ⟨_, -, h⟩ := bind_eq_ok.mp h
  obtain ⟨_, -, h⟩ := bind_eq_ok.mp h
  obtain ⟨_, -, h⟩ := bind_eq_ok.mp h
  cases h
  exact hprofile

/-- An attachment that is extruded has the outline that its body is read as. -/
theorem Attachment.exists_extrusion_of_ofJson {a : Attachment α} {body : Json α}
    (h : ofJson loc value = .ok a) (hbody : value.member? "extrude" = some body) :
    ∃ e place, a.outline? = some e.profile ∧ Extrusion.ofJson place body = .ok e := by
  obtain ⟨_, -, h⟩ := bind_eq_ok.mp h
  split at h
  case h_1 _ hnone _ => cases hnone.symm.trans hbody
  case h_2 found _ hfound _ =>
    cases hfound.symm.trans hbody
    split at h
    case isTrue => cases h
    case isFalse =>
      obtain ⟨_, -, h⟩ := bind_eq_ok.mp h
      obtain ⟨e, he, rfl⟩ := map_eq_ok.mp h
      exact ⟨e, _, rfl, he⟩
  case h_3 _ hnone _ => cases hnone.symm.trans hbody
  case h_4 => cases h

theorem Attachment.outline?_of_leftOpen {a : Attachment α} {body : Json α}
    (h : ofJson loc value = .ok a) (hbody : value.member? "extrude" = some body)
    (hopen : body.given? "profile" = none) :
    a.outline? = some ⟨.circle, Profile.standardSegments⟩ := by
  obtain ⟨e, _, houtline, he⟩ := exists_extrusion_of_ofJson h hbody
  have hprofile := Extrusion.profile_of_ofJson he
  rw [Profile.ofJson_of_leftOpen hopen] at hprofile
  rw [houtline, ← Except.ok.inj hprofile]

theorem Attachment.Read.three_le {a : Attachment α} (h : a.Read) :
    ∀ outline ∈ a.outline?, 3 ≤ outline.segments := by
  cases h with
  | primitive => exact nofun
  | asset => exact nofun
  | extrude h =>
      rintro _ ⟨⟩
      exact Profile.three_le_of_ofJson (by decide) (Extrusion.profile_of_ofJson h)

/-! ### Reflecting and placing -/

theorem Attachment.outline?_reflect (a : Attachment α) : a.reflect.outline? = a.outline? := by
  cases a <;> rfl

theorem Attachment.outline?_place {a : Attachment α} {frame : BoneFrame α} {epsilon : α}
    {piece : Piece α} (h : a.place loc frame epsilon = .ok piece) :
    piece.form.outline? = a.outline? := by
  cases a with
  | primitive shape =>
      cases h
      rfl
  | asset shape =>
      cases h
      rfl
  | extrude shape =>
      obtain ⟨_, -, h⟩ := bind_eq_ok.mp h
      obtain ⟨_, -, h⟩ := bind_eq_ok.mp h
      obtain ⟨_, -, h⟩ := bind_eq_ok.mp h
      cases h
      rfl

/-- Pieces have the outlines of what they are placed from. -/
theorem outlines_of_placed {frame : BoneFrame α} {epsilon : α} {attachments : List (Attachment α)}
    {pieces : List (Piece α)}
    (h : List.Forall₂ (fun a piece => ∃ place, a.place place frame epsilon = .ok piece)
      attachments pieces) :
    pieces.map (fun piece => piece.form.outline?) = attachments.map Attachment.outline? :=
  (map_eq_map_of_forall₂ (fun _ _ ⟨_, hpiece⟩ => (Attachment.outline?_place hpiece).symm) h).symm

theorem BoneMesh.profile_of_place {m : BoneMesh α} {bone : String} {parent : Option String}
    {frame : BoneFrame α} {settings : Settings α} {mesh : Mannequin.BoneMesh α}
    (h : m.place bone parent frame settings = .ok mesh) : mesh.profile = m.profile := by
  obtain ⟨_, -, h⟩ := bind_eq_ok.mp h
  obtain ⟨_, -, h⟩ := bind_eq_ok.mp h
  obtain ⟨_, -, h⟩ := bind_eq_ok.mp h
  obtain ⟨_, -, h⟩ := bind_eq_ok.mp h
  cases h
  rfl

theorem BoneMesh.outlines_reflect (m : BoneMesh α) :
    m.reflect.profile = m.profile ∧
      m.reflect.attachments.map Attachment.outline? = m.attachments.map Attachment.outline? ∧
      m.reflect.geometry.map Attachment.outline? = m.geometry.map Attachment.outline? := by
  have hsame : Attachment.outline? ∘ Attachment.reflect = Attachment.outline? (α := α) :=
    funext fun a => a.outline?_reflect
  refine ⟨rfl, ?_, ?_⟩
  · rw [reflect, List.map_map, hsame]
  · rw [geometry_reflect, List.map_map, hsame]

end Blueprint

namespace Character

variable {context : Context α} {bone : String} {definition : Json α} {mesh : BoneMesh α}

omit [Scalar α] in
theorem profile_withoutBridges (m : Blueprint.BoneMesh α) :
    (withoutBridges m).profile = m.profile := by
  unfold withoutBridges
  split <;> rfl

/-- A mesh has the outlines that its definition is read with: neither the side on which the
definition is used nor its bridges make a difference. -/
theorem MadeFrom.outlines (h : MadeFrom context bone definition mesh) :
    ∃ blueprint, Blueprint.BoneMesh.ofJson (BoneMesh.location bone)
        context.settings.defaultSegments definition = .ok blueprint ∧
      mesh.profile = blueprint.profile ∧
      mesh.attachments.map (fun piece => piece.form.outline?) =
        blueprint.attachments.map Blueprint.Attachment.outline? ∧
      mesh.pieces.map (fun piece => piece.form.outline?) =
        blueprint.geometry.map Blueprint.Attachment.outline? := by
  obtain ⟨joint, read, -, hread, hplace⟩ := h
  obtain ⟨blueprint, hblueprint, rfl⟩ := readMesh_eq_ok hread
  obtain ⟨hprofile, hattachments, hgeometry⟩ := blueprint.outlines_reflect
  have hplaced := Blueprint.BoneMesh.placed hplace
  refine ⟨blueprint, hblueprint, ?_, ?_, ?_⟩
  · rw [Blueprint.BoneMesh.profile_of_place hplace, profile_withoutBridges]
    split
    · exact hprofile
    · rfl
  · rw [Blueprint.outlines_of_placed (Blueprint.forall₂_placeAttachments hplaced.attachments),
      attachments_withoutBridges]
    split
    · exact hattachments
    · rfl
  · rw [Blueprint.outlines_of_placed (Blueprint.BoneMesh.forall₂_pieces hplaced),
      geometry_withoutBridges]
    split
    · exact hgeometry
    · rfl

theorem MadeFrom.three_le (hsettings : 3 ≤ context.settings.defaultSegments)
    (h : MadeFrom context bone definition mesh) :
    ∀ outline ∈ mesh.outlines, 3 ≤ outline.segments := by
  obtain ⟨blueprint, hblueprint, hprofile, -, hpieces⟩ := h.outlines
  rw [BoneMesh.outlines, List.forall_mem_cons]
  constructor
  · rw [hprofile]
    exact Profile.three_le_of_ofJson hsettings
      (Blueprint.BoneMesh.read_of_ofJson hblueprint).profile
  · intro outline houtline
    obtain ⟨piece, hpiece, hsome⟩ := List.mem_filterMap.mp houtline
    have hmem : some outline ∈ blueprint.geometry.map Blueprint.Attachment.outline? := by
      rw [← hpieces, ← hsome]
      exact List.mem_map_of_mem hpiece
    obtain ⟨a, ha, heq⟩ := List.mem_map.mp hmem
    exact (Blueprint.BoneMesh.geometry_of_ofJson hblueprint a ha).three_le outline heq

/-- What a definition leaves open is filled in when it is read. -/
theorem MadeFrom.fillsIn (h : MadeFrom context bone definition mesh) :
    (definition.given? "profile" = none →
      mesh.profile = ⟨.circle, context.settings.defaultSegments⟩) ∧
    ∀ i, definition.LeavesOpen i →
      (mesh.attachments[i]?).map Piece.form =
        some (.profile ⟨.circle, Profile.standardSegments⟩) := by
  obtain ⟨blueprint, hblueprint, hprofile, hattachments, -⟩ := h.outlines
  have hread := Blueprint.BoneMesh.read_of_ofJson hblueprint
  constructor
  · intro hopen
    have hown := hread.profile
    rw [Profile.ofJson_of_leftOpen hopen] at hown
    rw [hprofile, ← Except.ok.inj hown]
  · rintro i ⟨item, body, hitem, hbody, hopen⟩
    obtain ⟨a, ha, _, hofJson⟩ :=
      exists_getElem?_of_forall₂ (Blueprint.forall₂_of_list hread.attachments) hitem
    have hform := congrArg (fun outlines => outlines[i]?) hattachments
    simp only [List.getElem?_map, ha, Option.map_some,
      Blueprint.Attachment.outline?_of_leftOpen hofJson hbody hopen] at hform
    obtain ⟨piece, hpiece, houtline⟩ := Option.map_eq_some_iff.mp hform
    rw [hpiece, Option.map_some, Form.outline?_eq_some.mp houtline]

theorem outline?_of_resolveBoolShape {skeleton : Skeleton α} {name : String}
    {shape : BoolShape α} (h : resolveBoolShape skeleton name definition = .ok shape) :
    shape.piece.form.outline? = none := by
  obtain ⟨_, -, h⟩ := bind_eq_ok.mp h
  split at h
  case h_1 =>
    cases h
    rfl
  case h_2 =>
    split at h
    case h_1 =>
      cases h
      rfl
    case h_2 => cases h

omit [Scalar α] in
/-- Which ends a mesh is left with makes no difference to its outlines. -/
theorem outlines_settle (bridges : List Bridge) (m : BoneMesh α) :
    (Bridge.settle bridges m).outlines = m.outlines := rfl

/-! ### Resolved characters -/

variable {settings : Settings α} {recipe : Json α} {journal journal' : Journal}
  {character : Character α}

/-- However a recipe is resolved, it is resolved on some skeleton; only the warnings may
differ. -/
theorem exists_course_of_returns
    (h : Returns (resolve settings recipe) journal character journal' ∨
      ∃ skeleton, Returns (resolveOn skeleton settings recipe) journal character journal') :
    ∃ skeleton told context definitions shapes placed told',
      Course skeleton settings recipe told context definitions shapes placed told' ∧
      character.meshes = placed.map (Bridge.settle (Bridge.all placed)) ∧
      character.boolShapes = context.boolShapes := by
  rcases h with h | ⟨skeleton, h⟩
  · obtain ⟨skeleton, _, _, _, _, hresolved, rfl⟩ := of_returns_resolve h
    obtain ⟨context, definitions, shapes, placed, told', hcourse, rfl⟩ := exists_course hresolved
    exact ⟨skeleton, _, context, definitions, shapes, placed, told', hcourse, rfl, rfl⟩
  · obtain ⟨context, definitions, shapes, placed, told', hcourse, rfl⟩ := exists_course h
    exact ⟨skeleton, _, context, definitions, shapes, placed, told', hcourse, rfl, rfl⟩

section

variable {skeleton : Skeleton α} {definitions shapes : NameMap (Json α)}
  {placed : List (BoneMesh α)} {told : Journal}

theorem Course.three_le
    (h : Course skeleton settings recipe journal context definitions shapes placed told)
    (hsettings : 3 ≤ settings.defaultSegments)
    (hmeshes : character.meshes = placed.map (Bridge.settle (Bridge.all placed)))
    (hshapes : character.boolShapes = context.boolShapes) :
    ∀ outline ∈ character.outlines, 3 ≤ outline.segments := by
  rw [← h.underSettings] at hsettings
  rw [outlines, List.forall_mem_append, List.forall_mem_flatMap, hmeshes, List.forall_mem_map]
  constructor
  · intro mesh hmesh
    obtain ⟨definition, -, hmade⟩ := (h.resolution []).made mesh hmesh
    rw [outlines_settle]
    exact hmade.three_le hsettings
  · intro outline houtline
    obtain ⟨⟨name, shape⟩, hentry, hsome⟩ := List.mem_filterMap.mp houtline
    rw [hshapes] at hentry
    obtain ⟨_, -, hresolve⟩ :=
      NameMap.of_get?_traverse h.boolShapes (NameMap.mem_entries_iff.mp hentry)
    cases (outline?_of_resolveBoolShape hresolve).symm.trans hsome

theorem Course.fillsIn
    (h : Course skeleton settings recipe journal context definitions shapes placed told)
    (hmeshes : character.meshes = placed.map (Bridge.settle (Bridge.all placed))) :
    character.FillsIn (recipe.member "bone_meshes") settings.defaultSegments
      Profile.standardSegments := by
  rw [FillsIn, hmeshes, List.forall_mem_map, ← h.underSettings, ← h.table]
  intro mesh hmesh
  obtain ⟨definition, hdefinition, hmade⟩ := (h.resolution []).made mesh hmesh
  exact ⟨definition, (Alias.member?_sourceKey h.resolves hdefinition).1, hmade.fillsIn⟩

end

omit [Scalar α] in
/-- A character that fills in two numbers for its extrusions leaves nothing open there. -/
theorem FillsIn.follows_iff {table : Json α} {own attached : Nat}
    (h : character.FillsIn table own attached) (segments : Nat) :
    character.FillsIn table own segments ↔
      segments = attached ∨ character.LeavesNothingOpen table := by
  constructor
  · intro hfollows
    refine or_iff_not_imp_left.mpr fun hne mesh hmesh definition hdefinition i hopen => ?_
    obtain ⟨_, hdefinition', -, hattached⟩ := h mesh hmesh
    obtain ⟨_, hdefinition'', -, hsegments⟩ := hfollows mesh hmesh
    cases hdefinition.symm.trans hdefinition'
    cases hdefinition.symm.trans hdefinition''
    have hsame := (hsegments i hopen).symm.trans (hattached i hopen)
    simp only [Option.some.injEq, Form.profile.injEq, Profile.mk.injEq, true_and] at hsame
    exact hne hsame
  · rintro (rfl | hnothing)
    · exact h
    · intro mesh hmesh
      obtain ⟨definition, hdefinition, hown, -⟩ := h mesh hmesh
      exact ⟨definition, hdefinition, hown, fun i hopen =>
        absurd hopen (hnothing mesh hmesh definition hdefinition i)⟩

/-- Every outline of a resolved character has three segments or more. What is left open
becomes a circle, of the number of segments in the settings for a bone mesh and of the
standard number for an extrusion. So extrusions follow the settings exactly if these keep to
the standard or nothing is left open. -/
theorem outlines_filled_in (hsettings : 3 ≤ settings.defaultSegments)
    (h : Returns (resolve settings recipe) journal character journal' ∨
      ∃ skeleton, Returns (resolveOn skeleton settings recipe) journal character journal') :
    (∀ outline ∈ character.outlines, 3 ≤ outline.segments) ∧
      character.FillsIn (recipe.member "bone_meshes") settings.defaultSegments
        Profile.standardSegments ∧
      (character.FillsIn (recipe.member "bone_meshes") settings.defaultSegments
          settings.defaultSegments ↔
        settings.defaultSegments = Profile.standardSegments ∨
          character.LeavesNothingOpen (recipe.member "bone_meshes")) := by
  obtain ⟨_, _, _, _, _, _, _, hcourse, hmeshes, hshapes⟩ := exists_course_of_returns h
  have hfills := hcourse.fillsIn hmeshes
  exact ⟨hcourse.three_le hsettings hmeshes hshapes, hfills, hfills.follows_iff _⟩

/-- Settings that ask for circles of six segments. -/
def sixSided : Settings Float :=
  { Settings.standard with defaultSegments := 6 }

/-- A leg with a spur, and its mirror. All profiles are left open. -/
def spurred : Json Float :=
  let point (x y z : Int) : Json Float := .arr [.int x, .int y, .int z]
  .obj [
    ("skeleton", .arr [
      .obj [("bone", .str "leg_l"), ("head", point 1 0 4), ("tail", point 1 0 0)],
      .obj [("bone", .str "leg_r"), ("mirror", .str "leg_l")]]),
    ("bone_meshes", .obj [
      ("leg_l", .obj [("attachments", .arr [.obj [("extrude",
        .obj [("start", point 0 0 0), ("end", point 0 1 0), ("profile", .null)])]])]),
      ("leg_r", .obj [("mirror", .str "leg_l")])])]

theorem outlines_filled_in_spurred : ∃ character journal,
    3 ≤ sixSided.defaultSegments ∧
      Returns (resolve sixSided spurred) Journal.empty character journal ∧
      character.outlines = [⟨.circle, 6⟩, ⟨.circle, 12⟩, ⟨.circle, 6⟩, ⟨.circle, 12⟩] ∧
      (∀ outline ∈ character.outlines, 3 ≤ outline.segments) ∧
      character.FillsIn (spurred.member "bone_meshes") 6 12 := by
  have hseen : seen (resolve sixSided spurred) Journal.empty (fun character _ =>
      character.outlines) =
      some [⟨.circle, 6⟩, ⟨.circle, 12⟩, ⟨.circle, 6⟩, ⟨.circle, 12⟩] := by
    decide +kernel
  obtain ⟨character, journal, hreturns, houtlines⟩ := exists_returns_of_seen hseen
  have hsettings : 3 ≤ sixSided.defaultSegments := by decide
  obtain ⟨hthree, hfills, -⟩ := outlines_filled_in hsettings (.inl hreturns)
  exact ⟨character, journal, hsettings, hreturns, houtlines, hthree, hfills⟩

/-- The spurs do not get the six segments of the settings. -/
theorem exists_outline_apart_from_settings : 3 ≤ sixSided.defaultSegments ∧
    ∃ character journal, Returns (resolve sixSided spurred) Journal.empty character journal ∧
      ¬ character.FillsIn (spurred.member "bone_meshes") sixSided.defaultSegments
        sixSided.defaultSegments := by
  have hseen : seen (resolve sixSided spurred) Journal.empty (fun character _ =>
      character.meshes.map fun mesh => (mesh.bone, mesh.attachments.map Piece.form)) =
      some [("leg_l", [.profile ⟨.circle, 12⟩]), ("leg_r", [.profile ⟨.circle, 12⟩])] := by
    decide +kernel
  obtain ⟨character, journal, hreturns, hlook⟩ := exists_returns_of_seen hseen
  refine ⟨by decide, character, journal, hreturns, fun hfollows => ?_⟩
  obtain ⟨mesh, hmesh, heq⟩ := List.mem_map.mp (hlook ▸ List.mem_cons_self :
    ("leg_l", [Form.profile ⟨.circle, 12⟩]) ∈ character.meshes.map fun mesh =>
      (mesh.bone, mesh.attachments.map Piece.form))
  obtain ⟨hbone, hforms⟩ := Prod.mk.inj heq
  obtain ⟨definition, hdefinition, -, hsegments⟩ := hfollows mesh hmesh
  have hkey : Alias.sourceKey (spurred.member "bone_meshes") mesh.bone = "leg_l" := by
    rw [hbone]
    decide +kernel
  have hopen : definition.LeavesOpen 0 := by
    rw [hkey] at hdefinition
    cases hdefinition
    exact ⟨_, _, rfl, rfl, rfl⟩
  have hsix := hsegments 0 hopen
  rw [← List.getElem?_map, hforms] at hsix
  cases hsix

end Character

end Mannequin
