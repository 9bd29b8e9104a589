import Mannequin.Blueprint.BoneMesh
import Mannequin.Proofs.Concur

/-!
# Reading does not depend on the place

Every reader takes the location of what it reads, for its messages. The value that
it finds is the same wherever it stands, so a definition means the same under every
key.
-/

namespace Mannequin

variable {α β : Type} [Scalar α]

namespace Field

omit [Scalar α] in
theorem everywhere_string : Everywhere (string (α := α)) := by
  intro loc loc' value
  cases value <;> rfl

theorem everywhere_number : Everywhere (number (α := α)) := by
  intro loc loc' value
  rw [number, number]
  cases value.number? with
  | none => exact .refused _ _ _ _
  | some x =>
      have hfinite : Alike (finite loc x) (finite loc' x) := by
        rw [finite, finite]
        split <;> rfl
      exact hfinite.bind fun _ => .refl _

theorem everywhere_vector : Everywhere (vector (α := α)) := by
  intro loc loc' value
  unfold vector
  split
  · refine (everywhere_number _ _ _).bind fun x => ?_
    refine (everywhere_number _ _ _).bind fun y => ?_
    exact (everywhere_number _ _ _).bind fun z => .refl _
  · exact .refused _ _ _ _

omit [Scalar α] in
theorem placeless_string : Placeless (string (α := α)) := everywhere_string.placeless

theorem placeless_number : Placeless (number (α := α)) := everywhere_number.placeless

theorem placeless_vector : Placeless (vector (α := α)) := everywhere_vector.placeless

theorem placeless_positiveNumber : Placeless (positiveNumber (α := α)) := by
  intro loc loc' value
  refine .bind_eq (placeless_number _ _ value) fun x => ?_
  exact .bind_eq (.unit _ _) fun _ => .pure rfl

omit [Scalar α] in
theorem placeless_count : Placeless (count (α := α)) := by
  intro loc loc' value
  cases value with
  | int n =>
      simp only [count]
      split
      · exact .refused _ _
      · split
        · exact .pure rfl
        · exact .refused _ _
  | _ => exact .refused _ _

omit [Scalar α] in
theorem placeless_flag : Placeless (flag (α := α)) := by
  intro loc loc' value
  cases value with
  | bool b => exact .pure rfl
  | _ => exact .refused _ _

theorem placeless_positiveVector : Placeless (positiveVector (α := α)) := by
  intro loc loc' value
  refine .bind_eq (placeless_vector _ _ value) fun v => ?_
  refine .bind_eq (.unit _ _) fun _ => ?_
  refine .bind_eq (.unit _ _) fun _ => ?_
  exact .bind_eq (.unit _ _) fun _ => .pure rfl

variable {read : Location → Json α → Except Error β}

omit [Scalar α] in
theorem alike_knownMembers (loc loc' : Location) (known : List String) (value : Json α) :
    Alike (knownMembers loc known value) (knownMembers loc' known value) := by
  have hobject : Alike (object loc value) (object loc' value) := by
    cases value <;> rfl
  refine hobject.bind fun _ => ?_
  cases value.members.names.find? fun name => !known.contains name with
  | none => rfl
  | some name => exact .refused _ _ _ _

omit [Scalar α] in
theorem alike_optional (h : Everywhere read) (loc loc' : Location) (value : Json α)
    (name : String) : Alike (optional loc value name read) (optional loc' value name read) := by
  rw [optional, optional]
  cases value.member? name with
  | none => rfl
  | some member => exact (h _ _ member).map some

omit [Scalar α] in
theorem alike_given (h : Everywhere read) (loc loc' : Location) (value : Json α)
    (name : String) : Alike (given loc value name read) (given loc' value name read) := by
  rw [given, given]
  cases value.given? name with
  | none => rfl
  | some member => exact (h _ _ member).map some

omit [Scalar α] in
theorem concur_optional (h : Placeless read) (loc loc' : Location) (value : Json α)
    (name : String) : Concur Eq (optional loc value name read) (optional loc' value name read) := by
  rw [optional, optional]
  cases value.member? name with
  | none => exact .pure rfl
  | some member => exact .map_eq some (h _ _ member)

omit [Scalar α] in
theorem concur_given (h : Placeless read) (loc loc' : Location) (value : Json α)
    (name : String) : Concur Eq (given loc value name read) (given loc' value name read) := by
  rw [given, given]
  cases value.given? name with
  | none => exact .pure rfl
  | some member => exact .map_eq some (h _ _ member)

omit [Scalar α] in
theorem concur_items (h : Placeless read) (loc loc' : Location) (index : Nat)
    (values : List (Json α)) :
    Concur Eq (items loc read index values) (items loc' read index values) := by
  induction values generalizing index with
  | nil => exact .pure rfl
  | cons value rest ih =>
      refine .bind_eq (h _ _ value) fun item => ?_
      exact .bind_eq (ih (index + 1)) fun others => .pure rfl

theorem concur_vectorOrZero (loc loc' : Location) (value : Json α) (name : String) :
    Concur Eq (vectorOrZero loc value name) (vectorOrZero loc' value name) :=
  .bind_eq (concur_given placeless_vector loc loc' value name) fun _ => .pure rfl

end Field

omit [Scalar α] in
theorem PrimitiveKind.placeless_ofJson : Placeless (ofJson (α := α)) := by
  intro loc loc' value
  refine .bind_eq (Field.placeless_string _ _ value) fun word => ?_
  cases ofName? word with
  | some kind => exact .pure rfl
  | none => exact .refused _ _

omit [Scalar α] in
theorem BoolOp.placeless_ofJson : Placeless (ofJson (α := α)) := by
  intro loc loc' value
  refine .bind_eq (Field.placeless_string _ _ value) fun word => ?_
  cases ofWord? word with
  | some op => exact .pure rfl
  | none => exact .refused _ _

omit [Scalar α] in
theorem ConnectMode.placeless_ofJson : Placeless (ofJson (α := α)) := by
  intro loc loc' value
  refine .bind_eq (Field.placeless_string _ _ value) fun word => ?_
  cases ofName? word with
  | some mode => exact .pure rfl
  | none => exact .refused _ _

omit [Scalar α] in
theorem Profile.placeless_ofJson (defaultSegments : Nat) :
    Placeless fun loc (value : Json α) => ofJson loc defaultSegments value := by
  intro loc loc' value
  cases value with
  | null => exact .pure rfl
  | str text =>
      change Concur Eq (ofString loc text) (ofString loc' text)
      exact .mapError (.refl _)
  | _ => exact .refused _ _

theorem Length.placeless_ofJson : Placeless (ofJson (α := α)) := by
  intro loc loc' value
  unfold ofJson
  split
  · exact .refused _ _
  · exact .map_eq relative (Field.placeless_number _ _ _)
  · exact .map_eq relative (Field.placeless_number _ _ _)
  · refine .bind_eq (Field.placeless_number _ _ _) fun first => ?_
    exact .bind_eq (Field.placeless_number _ _ _) fun second => .pure rfl
  · exact .refused _ _
  · split
    · exact .map_eq absolute (Field.placeless_number _ _ _)
    · exact .refused _ _
  · exact .refused _ _

namespace Blueprint

omit [Scalar α] in
theorem placeless_slotIndex : Placeless (slotIndex (α := α)) := fun loc loc' value =>
  Field.concur_given Field.placeless_count loc loc' value "material_index"

theorem Primitive.placeless_ofJson : Placeless (ofJson (α := α)) := by
  intro loc loc' value
  refine .bind_eq (.unit _ _) fun _ => .guarded ?_
  refine .bind_eq (PrimitiveKind.placeless_ofJson _ _ _) fun kind => ?_
  refine .bind_eq (Field.placeless_positiveVector _ _ _) fun dimensions => ?_
  refine .bind_eq (Field.concur_vectorOrZero loc loc' value _) fun offset => ?_
  refine .bind_eq (Field.concur_given Field.placeless_vector loc loc' value _) fun rotation => ?_
  exact .bind_eq (placeless_slotIndex loc loc' value) fun material => .pure rfl

theorem Extrusion.placeless_ofJson : Placeless (ofJson (α := α)) := by
  intro loc loc' value
  refine .bind_eq (.unit _ _) fun _ => .guarded ?_
  refine .bind_eq (Profile.placeless_ofJson _ _ _ _) fun profile => ?_
  refine .bind_eq (Field.placeless_vector _ _ _) fun start => ?_
  refine .bind_eq (Field.placeless_vector _ _ _) fun stop => ?_
  refine .bind_eq (Field.concur_given Length.placeless_ofJson loc loc' value _) fun radius => ?_
  exact .bind_eq (Field.concur_given Field.placeless_positiveNumber loc loc' value _) fun taper =>
    .pure rfl

theorem Asset.placeless_ofJson : Placeless (ofJson (α := α)) := by
  intro loc loc' value
  refine .bind_eq (.unit _ _) fun _ => ?_
  refine .bind_eq (Field.placeless_string _ _ _) fun path => .guarded ?_
  refine .bind_eq (Field.concur_vectorOrZero loc loc' value _) fun offset => ?_
  refine .bind_eq (Field.concur_given Field.placeless_vector loc loc' value _) fun rotation => ?_
  exact .bind_eq (Field.concur_given Field.placeless_positiveNumber loc loc' value _) fun scale =>
    .pure rfl

theorem Attachment.placeless_ofJson : Placeless (ofJson (α := α)) := by
  intro loc loc' value
  refine .bind_eq (.unit _ _) fun _ => ?_
  split
  · exact .map_eq primitive (Primitive.placeless_ofJson loc loc' value)
  · split
    · exact .refused _ _
    · refine .bind_eq (.unit _ _) fun _ => ?_
      exact .map_eq extrude (Extrusion.placeless_ofJson _ _ _)
  · exact .map_eq asset (Asset.placeless_ofJson loc loc' value)
  · exact .refused _ _

omit [Scalar α] in
theorem concur_list {read : Location → Json α → Except Error β} (h : Placeless read)
    (loc loc' : Location) (value : Json α) (name : String) (fault : BlueprintFault) :
    Concur Eq (list loc value name fault read) (list loc' value name fault read) := by
  rw [list, list]
  split
  · exact .pure rfl
  · exact Field.concur_items h _ _ 0 _
  · exact .refused _ _

theorem Shape.placeless_ofJson : Placeless (ofJson (α := α)) := by
  intro loc loc' value
  refine .bind_eq (.unit _ _) fun _ => ?_
  split
  · exact .map_eq primitive (Primitive.placeless_ofJson loc loc' value)
  · exact .map_eq asset (Asset.placeless_ofJson loc loc' value)
  · exact .refused _ _

theorem PartOperation.placeless_ofJson : Placeless (ofJson (α := α)) := by
  intro loc loc' value
  refine .bind_eq (.unit _ _) fun _ => ?_
  split
  · exact .refused _ _
  · refine .bind_eq (Field.concur_optional BoolOp.placeless_ofJson loc loc' value _) fun op => ?_
    exact .bind_eq (Shape.placeless_ofJson _ _ _) fun target => .pure rfl

theorem Part.placeless_ofJson : Placeless (ofJson (α := α)) := by
  intro loc loc' value
  refine .bind_eq (.unit _ _) fun _ => ?_
  split
  · exact .refused _ _
  · refine .bind_eq (Shape.placeless_ofJson _ _ _) fun base => ?_
    exact .bind_eq (concur_list PartOperation.placeless_ofJson loc loc' value _ _)
      fun operations => .pure rfl

namespace Modifier

theorem placeless_bevelOfJson : Placeless (bevelOfJson (α := α)) := by
  intro loc loc' body
  refine .bind_eq (.unit _ _) fun _ => ?_
  refine .bind_eq (Field.placeless_positiveNumber _ _ _) fun width => ?_
  refine .bind_eq (Field.concur_optional Field.placeless_count loc loc' body _) fun segments => ?_
  exact .guarded (.pure rfl)

omit [Scalar α] in
theorem placeless_subdivideOfJson : Placeless (subdivideOfJson (α := α)) := by
  intro loc loc' body
  refine .bind_eq (.unit _ _) fun _ => ?_
  refine .bind_eq (Field.placeless_count _ _ _) fun cuts => ?_
  exact .guarded (.pure rfl)

omit [Scalar α] in
theorem placeless_booleanOfJson : Placeless (booleanOfJson (α := α)) := by
  intro loc loc' body
  refine .bind_eq (.unit _ _) fun _ => ?_
  refine .bind_eq (Field.concur_optional BoolOp.placeless_ofJson loc loc' body _) fun op => ?_
  exact .bind_eq (Field.placeless_string _ _ _) fun target => .pure rfl

theorem placeless_ofJson : Placeless (ofJson (α := α)) := by
  intro loc loc' value
  refine .bind_eq (.unit _ _) fun _ => ?_
  split
  · exact placeless_bevelOfJson _ _ _
  · exact placeless_subdivideOfJson _ _ _
  · exact placeless_booleanOfJson _ _ _
  · exact .refused _ _

end Modifier

namespace Step

omit [Scalar α] in
theorem placeless_pair {read : Location → Json α → Except Error α} (h : Placeless read) :
    Placeless (pair read) := by
  intro loc loc' value
  unfold pair
  split
  · refine .bind_eq (h _ _ _) fun x => ?_
    exact .bind_eq (h _ _ _) fun y => .pure rfl
  · exact .refused _ _
  · exact .bind_eq (h loc loc' value) fun x => .pure rfl

theorem placeless_ofObject : Placeless (ofObject (α := α)) := by
  intro loc loc' value
  have hpositive := placeless_pair (α := α) Field.placeless_positiveNumber
  refine .bind_eq (.unit _ _) fun _ => .guarded ?_
  refine .bind_eq (Field.placeless_positiveNumber _ _ _) fun extrude => ?_
  refine .bind_eq (Field.concur_optional hpositive loc loc' value _) fun scale => ?_
  refine .bind_eq (Field.concur_vectorOrZero loc loc' value _) fun translate => ?_
  refine .bind_eq (Field.concur_optional Field.placeless_number loc loc' value _) fun rotate => ?_
  refine .bind_eq (Field.concur_optional (placeless_pair Field.placeless_number) loc loc' value _)
    fun tilt => ?_
  exact .bind_eq (Field.concur_optional hpositive loc loc' value _) fun bulge => .pure rfl

theorem placeless_ofJson : Placeless (ofJson (α := α)) := by
  intro loc loc' value
  cases value with
  | int n => exact .map_eq plain (Field.placeless_positiveNumber loc loc' _)
  | real x => exact .map_eq plain (Field.placeless_positiveNumber loc loc' _)
  | _ => exact placeless_ofObject loc loc' _

end Step

theorem placeless_bulgePoint : Placeless (bulgePoint (α := α)) := by
  intro loc loc' value
  unfold bulgePoint
  split
  · refine .bind_eq (Field.placeless_number _ _ _) fun position => ?_
    exact .bind_eq (Field.placeless_positiveNumber _ _ _) fun scale => .pure rfl
  · exact .refused _ _
  · refine .bind_eq (.unit _ _) fun _ => .guarded ?_
    refine .bind_eq (Field.placeless_number _ _ _) fun position => ?_
    exact .bind_eq (Field.placeless_positiveNumber _ _ _) fun scale => .pure rfl

/-- A definition reads the same under every key. -/
theorem BoneMesh.placeless_ofJson (defaultSegments : Nat) :
    Placeless fun loc (value : Json α) => ofJson loc defaultSegments value := by
  intro loc loc' value
  have hflag := Field.concur_optional (α := α) Field.placeless_flag loc loc' value
  have hmode := Field.concur_optional (α := α) ConnectMode.placeless_ofJson loc loc' value
  refine .bind_eq (.unit _ _) fun _ => ?_
  refine .bind_eq (Profile.placeless_ofJson _ _ _ _) fun profile => ?_
  refine .bind_eq (Field.concur_given Length.placeless_ofJson loc loc' value _) fun radius => ?_
  refine .bind_eq (hflag _) fun capStart => ?_
  refine .bind_eq (hflag _) fun capEnd => ?_
  refine .bind_eq (Field.concur_optional Field.placeless_positiveNumber loc loc' value _)
    fun taper => ?_
  refine .bind_eq (Field.concur_optional Field.placeless_number loc loc' value _) fun twist => ?_
  refine .bind_eq (concur_list placeless_bulgePoint loc loc' value _ _) fun bulge => ?_
  refine .bind_eq (Field.concur_vectorOrZero loc loc' value _) fun translate => ?_
  refine .bind_eq (Field.concur_given Field.placeless_vector loc loc' value _) fun rotate => ?_
  refine .bind_eq (concur_list Attachment.placeless_ofJson loc loc' value _ _)
    fun attachments => ?_
  refine .bind_eq (concur_list Modifier.placeless_ofJson loc loc' value _ _) fun modifiers => ?_
  refine .bind_eq (placeless_slotIndex loc loc' value) fun material => ?_
  refine .bind_eq (concur_list Step.placeless_ofJson loc loc' value _ _) fun steps => ?_
  refine .bind_eq (hmode _) fun connectStart => ?_
  refine .bind_eq (hmode _) fun connectEnd => ?_
  refine .bind_eq (Field.concur_given Part.placeless_ofJson loc loc' value _) fun part => ?_
  exact .guarded (.pure rfl)

end Blueprint

end Mannequin
