import Mannequin.Blueprint.BoolShape
import Mannequin.Proofs.Located

/-!
# Refused definitions

A definition is refused for its shape or for a number that is out of range, never for
anything else, and the path of the refusal can be walked in the definition from the place
where this stands. So whoever follows the path finds what has to be mended, or the object
in which a member is missing.
-/

namespace Mannequin

variable {α β : Type}

/-! ### Words -/

theorem PrimitiveKind.locates_ofJson : Locates (ofJson (α := α)) := by
  intro loc value
  refine (Field.locates_string loc value).bind fun word _ => ?_
  cases ofName? word with
  | some kind => exact .ok kind
  | none => exact .refused (.inl rfl)

theorem BoolOp.locates_ofJson : Locates (ofJson (α := α)) := by
  intro loc value
  refine (Field.locates_string loc value).bind fun word _ => ?_
  cases ofWord? word with
  | some op => exact .ok op
  | none => exact .refused (.inl rfl)

theorem ConnectMode.locates_ofJson : Locates (ofJson (α := α)) := by
  intro loc value
  refine (Field.locates_string loc value).bind fun word _ => ?_
  cases ofName? word with
  | some mode => exact .ok mode
  | none => exact .refused (.inl rfl)

namespace Blueprint

theorem locates_slotIndex : Locates (slotIndex (α := α)) := fun _ _ =>
  Field.located_given Field.locates_count

/-- The list is a member of the value, and its items stand in it. -/
theorem located_list {loc : Location} {value : Json α} {name : String} {fault : BlueprintFault}
    {read : Location → Json α → Except Error β} (hfault : fault.kind = .shape)
    (h : Locates read) : Located loc value (list loc value name fault read) := by
  unfold list
  split
  case h_1 => exact .ok []
  case h_2 items hitems => exact .of_part (.member name) hitems (Field.located_items h [] items)
  case h_3 other _ hother => exact .of_part (.member name) hother (.refused (.inl hfault))

variable [Scalar α]

/-! ### Attachments and parts -/

theorem Primitive.locates_ofJson : Locates (ofJson (α := α)) := by
  intro loc value
  refine Field.located_known ?_
  rintro members rfl
  refine .guarded (fun _ => .refused (.inl rfl)) ?_
  refine (Located.of_member "primitive" (PrimitiveKind.locates_ofJson _ _)).bind fun _ _ => ?_
  refine (Located.of_member "dimensions" (Field.locates_positiveVector _ _)).bind fun _ _ => ?_
  refine Field.located_vectorOrZero.bind fun _ _ => ?_
  refine (Field.located_given Field.locates_vector).bind fun _ _ => ?_
  exact (locates_slotIndex loc _).bind fun _ _ => .ok _

theorem Extrusion.locates_ofJson : Locates (ofJson (α := α)) := by
  intro loc value
  refine Field.located_known ?_
  rintro members rfl
  refine .guarded (fun _ => .refused (.inl rfl)) ?_
  refine (Located.of_member "profile" (Profile.locates_ofJson _ _ _)).bind fun _ _ => ?_
  refine (Located.of_member "start" (Field.locates_vector _ _)).bind fun _ _ => ?_
  refine (Located.of_member "end" (Field.locates_vector _ _)).bind fun _ _ => ?_
  refine (Field.located_given Length.locates_ofJson).bind fun _ _ => ?_
  exact (Field.located_given Field.locates_positiveNumber).bind fun _ _ => .ok _

theorem Asset.locates_ofJson : Locates (ofJson (α := α)) := by
  intro loc value
  refine Field.located_known ?_
  rintro members rfl
  refine (Located.of_member "asset" (Field.locates_string _ _)).bind fun _ _ => ?_
  refine .guarded (fun _ => .of_member "asset" (.refused (.inl rfl))) ?_
  refine Field.located_vectorOrZero.bind fun _ _ => ?_
  refine (Field.located_given Field.locates_vector).bind fun _ _ => ?_
  exact (Field.located_given Field.locates_positiveNumber).bind fun _ _ => .ok _

theorem Attachment.locates_ofJson : Locates (ofJson (α := α)) := by
  intro loc value
  refine Field.located_object.bind fun _ _ => ?_
  split
  case h_1 => exact (Primitive.locates_ofJson loc value).map primitive
  case h_2 body _ hbody _ =>
    split
    case isTrue => exact .refused (.inl rfl)
    case isFalse =>
      refine .of_part (.member "extrude") hbody ?_
      exact Field.located_object.bind fun _ _ => (Extrusion.locates_ofJson _ body).map extrude
  case h_3 => exact (Asset.locates_ofJson loc value).map asset
  case h_4 => exact .refused (.inl rfl)

theorem Shape.locates_ofJson : Locates (ofJson (α := α)) := by
  intro loc value
  refine Field.located_object.bind fun _ _ => ?_
  split
  case h_1 => exact (Primitive.locates_ofJson loc value).map primitive
  case h_2 => exact (Asset.locates_ofJson loc value).map asset
  case h_3 => exact .refused (.inl rfl)

theorem PartOperation.locates_ofJson : Locates (ofJson (α := α)) := by
  intro loc value
  refine (Field.located_knownMembers _).bind fun _ _ => ?_
  split
  case h_1 => exact .refused (.inl rfl)
  case h_2 target htarget =>
    refine (Field.located_optional BoolOp.locates_ofJson).bind fun _ _ => ?_
    exact (Located.of_part (.member "target") htarget
      (Shape.locates_ofJson _ target)).bind fun _ _ => .ok _

theorem Part.locates_ofJson : Locates (ofJson (α := α)) := by
  intro loc value
  refine (Field.located_knownMembers _).bind fun _ _ => ?_
  split
  case h_1 => exact .refused (.inl rfl)
  case h_2 base hbase =>
    refine (Located.of_part (.member "base") hbase
      (Shape.locates_ofJson _ base)).bind fun _ _ => ?_
    exact (located_list rfl PartOperation.locates_ofJson).bind fun _ _ => .ok _

/-! ### Modifiers -/

namespace Modifier

theorem locates_bevelOfJson : Locates (bevelOfJson (α := α)) := by
  intro loc body
  refine Field.located_known ?_
  rintro members rfl
  refine (Located.of_member "width" (Field.locates_positiveNumber _ _)).bind fun _ _ => ?_
  refine (Field.located_optional Field.locates_count).bind fun _ _ => ?_
  exact .guarded (fun _ => .of_member "segments" (.refused (.inr rfl))) (.ok _)

omit [Scalar α] in
theorem locates_subdivideOfJson : Locates (subdivideOfJson (α := α)) := by
  intro loc body
  refine Field.located_known ?_
  rintro members rfl
  refine (Located.of_member "cuts" (Field.locates_count _ _)).bind fun _ _ => ?_
  exact .guarded (fun _ => .of_member "cuts" (.refused (.inr rfl))) (.ok _)

omit [Scalar α] in
theorem locates_booleanOfJson : Locates (booleanOfJson (α := α)) := by
  intro loc body
  refine Field.located_known ?_
  rintro members rfl
  refine (Field.located_optional BoolOp.locates_ofJson).bind fun _ _ => ?_
  exact (Located.of_member "target" (Field.locates_string _ _)).bind fun _ _ => .ok _

omit [Scalar α] in
/-- The only member of a modifier is the body that is read. -/
theorem member?_of_entries {value body : Json α} {name : String}
    (h : value.members.entries = [(name, body)]) : value.member? name = some body := by
  rw [Json.member?, NameMap.get?, h, List.lookup_cons_self]

theorem locates_ofJson : Locates (ofJson (α := α)) := by
  intro loc value
  refine Field.located_object.bind fun _ _ => ?_
  split
  case h_1 body hentries =>
    exact .of_part (.member "bevel") (member?_of_entries hentries) (locates_bevelOfJson _ body)
  case h_2 body hentries =>
    exact .of_part (.member "subdivide") (member?_of_entries hentries)
      (locates_subdivideOfJson _ body)
  case h_3 body hentries =>
    exact .of_part (.member "bool") (member?_of_entries hentries) (locates_booleanOfJson _ body)
  case h_4 => exact .refused (.inl rfl)

end Modifier

/-! ### Steps -/

namespace Step

omit [Scalar α] in
theorem locates_pair {read : Location → Json α → Except Error α} (h : Locates read) :
    Locates (pair read) := by
  intro loc value
  unfold pair
  split
  case h_1 x y =>
    refine (Located.of_part (.item 0) rfl (h _ x)).bind fun _ _ => ?_
    exact (Located.of_part (.item 1) rfl (h _ y)).bind fun _ _ => .ok _
  case h_2 => exact .refused (.inl rfl)
  case h_3 => exact (h loc value).bind fun _ _ => .ok _

theorem locates_ofObject : Locates (ofObject (α := α)) := by
  intro loc value
  have hpositive := locates_pair (α := α) Field.locates_positiveNumber
  have hnumber := locates_pair (α := α) Field.locates_number
  refine Field.located_known ?_
  rintro members rfl
  refine .guarded (fun _ => .refused (.inl rfl)) ?_
  refine (Located.of_member "extrude" (Field.locates_positiveNumber _ _)).bind fun _ _ => ?_
  refine (Field.located_optional hpositive).bind fun _ _ => ?_
  refine Field.located_vectorOrZero.bind fun _ _ => ?_
  refine (Field.located_optional Field.locates_number).bind fun _ _ => ?_
  refine (Field.located_optional hnumber).bind fun _ _ => ?_
  exact (Field.located_optional hpositive).bind fun _ _ => .ok _

theorem locates_ofJson : Locates (ofJson (α := α)) := by
  intro loc value
  cases value with
  | int n => exact (Field.locates_positiveNumber loc _).map plain
  | real x => exact (Field.locates_positiveNumber loc _).map plain
  | _ => exact locates_ofObject loc _

end Step

/-! ### Definitions -/

theorem locates_bulgePoint : Locates (bulgePoint (α := α)) := by
  intro loc value
  unfold bulgePoint
  split
  case h_1 position scale =>
    refine (Located.of_part (.item 0) rfl (Field.locates_number _ position)).bind fun _ _ => ?_
    exact (Located.of_part (.item 1) rfl
      (Field.locates_positiveNumber _ scale)).bind fun _ _ => .ok _
  case h_2 => exact .refused (.inl rfl)
  case h_3 =>
    refine Field.located_known ?_
    rintro members rfl
    refine .guarded (fun _ => .refused (.inl rfl)) ?_
    refine (Located.of_member "at" (Field.locates_number _ _)).bind fun _ _ => ?_
    exact (Located.of_member "scale" (Field.locates_positiveNumber _ _)).bind fun _ _ => .ok _

omit [Scalar α] in
theorem BoneMesh.located_partAlone {loc : Location} {value : Json α} (steps : List (Step α)) :
    Located loc value (partAlone loc value steps) := by
  unfold partAlone
  split
  · exact .refused (.inl rfl)
  · split
    · exact .refused (.inl rfl)
    · exact .ok ()

theorem BoneMesh.locates_ofJson (defaultSegments : Nat) :
    Locates fun loc (value : Json α) => ofJson loc defaultSegments value := by
  intro loc value
  refine Field.located_known ?_
  rintro members rfl
  refine (Located.of_member "profile" (Profile.locates_ofJson _ _ _)).bind fun _ _ => ?_
  refine (Field.located_given Length.locates_ofJson).bind fun _ _ => ?_
  refine (Field.located_optional Field.locates_flag).bind fun _ _ => ?_
  refine (Field.located_optional Field.locates_flag).bind fun _ _ => ?_
  refine (Field.located_optional Field.locates_positiveNumber).bind fun _ _ => ?_
  refine (Field.located_optional Field.locates_number).bind fun _ _ => ?_
  refine (located_list rfl locates_bulgePoint).bind fun _ _ => ?_
  refine Field.located_vectorOrZero.bind fun _ _ => ?_
  refine (Field.located_given Field.locates_vector).bind fun _ _ => ?_
  refine (located_list rfl Attachment.locates_ofJson).bind fun _ _ => ?_
  refine (located_list rfl Modifier.locates_ofJson).bind fun _ _ => ?_
  refine (locates_slotIndex loc _).bind fun _ _ => ?_
  refine (located_list rfl Step.locates_ofJson).bind fun steps _ => ?_
  refine (Field.located_optional ConnectMode.locates_ofJson).bind fun _ _ => ?_
  refine (Field.located_optional ConnectMode.locates_ofJson).bind fun _ _ => ?_
  refine (Field.located_given Part.locates_ofJson).bind fun _ _ => ?_
  exact .guarded (fun _ => located_partAlone steps) (.ok _)

theorem BoolShape.locates_ofJson : Locates (ofJson (α := α)) := by
  intro loc value
  refine Field.located_known ?_
  rintro members rfl
  refine .guarded (fun _ => .refused (.inl rfl)) ?_
  refine (Located.of_member "primitive" (PrimitiveKind.locates_ofJson _ _)).bind fun _ _ => ?_
  refine (Located.of_member "dimensions" (Field.locates_positiveVector _ _)).bind fun _ _ => ?_
  refine (Located.of_member "position" (Field.locates_vector _ _)).bind fun _ _ => ?_
  refine (Field.located_given Field.locates_vector).bind fun _ _ => ?_
  exact (Field.located_given Field.locates_string).bind fun _ _ => .ok _

/-- The path of a definition that is refused leads into the definition: from its own path on,
over steps that can be walked, of which only the last may lead to a member that an object
does not have. -/
theorem refused_within {loc : Location} (hloc : loc.render ≠ "") {value : Json α} {e : Error}
    (h : (∃ defaultSegments, BoneMesh.ofJson loc defaultSegments value = .error e) ∨
      BoolShape.ofJson loc value = .error e) :
    (e.kind = .shape ∨ e.kind = .range) ∧
      ∃ hops, value.Walk hops ∧ e.path = loc.render ++ String.join (hops.map Hop.render) := by
  have hblames : e.Blames loc value := by
    rcases h with ⟨defaultSegments, h⟩ | h
    · exact BoneMesh.locates_ofJson defaultSegments loc value e h
    · exact BoolShape.locates_ofJson loc value e h
  obtain ⟨hkind, hops, hwalk, hpath⟩ := hblames
  exact ⟨hkind, hops, hwalk, hpath.trans (Location.render_descend hloc hops)⟩

/-- A hand whose thumb is cut off with a flat cube. -/
def mitten : Json Float :=
  .obj [("part", .obj [("base", .obj [("asset", .str "mitten.glb")]),
    ("operations", .arr [.obj [("target", .obj [("asset", .str "cuff.glb")])],
      .obj [("op", .str "difference"), ("target", .obj [("primitive", .str "cube"),
        ("dimensions", .arr [.int 1, .int 1, .int 0])])]])])]

/-- A shape that does not say which primitive it is. -/
def nameless : Json Float :=
  .obj [("dimensions", .arr [.int 1, .int 1, .int 1]),
    ("position", .arr [.int 0, .int 0, .int 0])]

theorem refused_within_samples :
    (∃ e, BoneMesh.ofJson (.root "hand") Profile.standardSegments mitten = .error e ∧
      e.kind = .range ∧ e.path = "hand.part.operations[1].target.dimensions[2]" ∧
      ∃ hops, mitten.Walk hops ∧ e.path = "hand" ++ String.join (hops.map Hop.render)) ∧
    ∃ e, BoolShape.ofJson (.root "slot") nameless = .error e ∧
      e.kind = .shape ∧ e.path = "slot.primitive" ∧
      ∃ hops, nameless.Walk hops ∧ e.path = "slot" ++ String.join (hops.map Hop.render) := by
  have hmitten : BoneMesh.ofJson (.root "hand") Profile.standardSegments mitten =
      .error ⟨.range, "expected a positive number, got 0",
        "hand.part.operations[1].target.dimensions[2]"⟩ := by
    decide +kernel
  have hnameless : BoolShape.ofJson (.root "slot") nameless =
      .error ⟨.shape, "expected a string, got null", "slot.primitive"⟩ := by
    decide +kernel
  have hhand : (Location.root "hand").render ≠ "" := by decide
  have hslot : (Location.root "slot").render ≠ "" := by decide
  exact ⟨⟨_, hmitten, rfl, rfl, (refused_within hhand (.inl ⟨_, hmitten⟩)).2⟩,
    _, hnameless, rfl, rfl, (refused_within hslot (.inr hnameless)).2⟩

end Blueprint

end Mannequin
