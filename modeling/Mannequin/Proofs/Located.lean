import Mannequin.Length
import Mannequin.Profile
import Mannequin.Proofs.Fields

/-!
# Where refusals point

A reader that refuses a value names a place, and a reader of a large value leaves its parts
to other readers, each at the place of its part. So the path of a refusal leads from the
value down to what is wrong with it, over members and items that are there. Only its last
step may name a member that is not there, because an object should have had it.

Readers are put together from few constructs, and each of them keeps this. What a reader
needs besides is that a part which it passes on does stand where it says.
-/

namespace Mannequin

variable {α β γ : Type}

/-! ### Walks into a value -/

/-- A step from a value to a part of it. -/
inductive Hop where
  | member (name : String)
  | item (index : Nat)
  deriving DecidableEq, Repr

namespace Hop

/-- A step as paths write it. -/
def render : Hop → String
  | member name => "." ++ name
  | item index => "[" ++ toString index ++ "]"

/-- The place that a step leads to. -/
def below (loc : Location) : Hop → Location
  | member name => .key loc name
  | item index => .item loc index

theorem render_below {loc : Location} (h : loc.render ≠ "") (hop : Hop) :
    (hop.below loc).render = loc.render ++ hop.render := by
  cases hop with
  | member name =>
      rw [below, Location.render_key, Location.joinKey, if_neg h, String.append_assoc]
      rfl
  | item index =>
      rw [below, Location.render_item, Location.joinIndex, render, String.append_assoc,
        String.append_assoc, String.append_assoc]

end Hop

namespace Location

/-- The place that a walk leads to. -/
def descend (loc : Location) (hops : List Hop) : Location := hops.foldl Hop.below loc

/-- Below a path that is not empty every step is written out. -/
theorem render_descend {loc : Location} (h : loc.render ≠ "") (hops : List Hop) :
    (loc.descend hops).render = loc.render ++ String.join (hops.map Hop.render) := by
  induction hops generalizing loc with
  | nil => exact (String.append_empty).symm
  | cons hop rest ih =>
      have hbelow := Hop.render_below h hop
      have hfurther : (hop.below loc).render ≠ "" := by
        rw [hbelow, ne_eq, String.append_eq_empty_iff]
        exact fun hempty => h hempty.1
      rw [List.map_cons, String.join_cons, ← String.append_assoc, ← hbelow, ← ih hfurther]
      rfl

end Location

namespace Json

/-- The part of a value that a step leads to. -/
def part? (value : Json α) : Hop → Option (Json α)
  | .member name => value.member? name
  | .item index =>
    match value with
    | .arr items => items[index]?
    | _ => none

/-- Steps that can be walked from a value. The last one may lead to a member that the
object it starts from does not have. -/
inductive Walk : Json α → List Hop → Prop where
  | stay (value : Json α) : Walk value []
  | absent {members : List (String × Json α)} {name : String}
      (h : (obj members).member? name = none) : Walk (obj members) [.member name]
  | step {value part : Json α} {hop : Hop} {hops : List Hop} (h : value.part? hop = some part)
      (hrest : Walk part hops) : Walk value (hop :: hops)

end Json

/-! ### Refusals that are located -/

/-- A refusal of a value at a place: the shape of the value is wrong or a number in it is
out of range, and the path is where a walk into the value leads. -/
structure Error.Blames (e : Error) (loc : Location) (value : Json α) : Prop where
  kind : e.kind = .shape ∨ e.kind = .range
  place : ∃ hops, value.Walk hops ∧ e.path = (loc.descend hops).render

/-- If it fails, it blames a value at a place. -/
def Located (loc : Location) (value : Json α) (work : Except Error β) : Prop :=
  ∀ e, work = .error e → e.Blames loc value

/-- A reader blames what it reads. -/
def Locates (read : Location → Json α → Except Error β) : Prop :=
  ∀ loc value, Located loc value (read loc value)

namespace Located

variable {loc : Location} {value part : Json α} {work : Except Error β}
  {next : β → Except Error γ} {name : String}

theorem ok (b : β) : Located loc value (.ok b : Except Error β) := fun _ h => nomatch h

theorem refused {φ : Type} [Cause φ] {fault : φ}
    (h : Cause.kind fault = .shape ∨ Cause.kind fault = .range) :
    Located loc value (refuse fault loc.render : Except Error β) := by
  rintro e ⟨⟩
  exact ⟨h, [], .stay value, rfl⟩

theorem bind (h : Located loc value work)
    (hnext : ∀ b, work = .ok b → Located loc value (next b)) :
    Located loc value (work >>= next) := by
  cases work with
  | error e =>
      rintro _ ⟨⟩
      exact h e rfl
  | ok b => exact hnext b rfl

theorem map (f : β → γ) (h : Located loc value work) : Located loc value (f <$> work) := by
  rw [map_eq_pure_bind]
  exact h.bind fun b _ => .ok (f b)

/-- A check that is made on a condition, before what follows. -/
theorem guarded {p : Prop} [Decidable p] {check : Except Error Unit}
    {next : Unit → Except Error γ} (hcheck : p → Located loc value check)
    (hnext : Located loc value (next ())) :
    Located loc value (if p then check >>= next else next ()) := by
  split
  case isTrue hp => exact (hcheck hp).bind fun _ _ => hnext
  case isFalse => exact hnext

/-- What blames a part of a value where it stands blames the value. -/
theorem of_part (hop : Hop) (hpart : value.part? hop = some part)
    (h : Located (hop.below loc) part work) : Located loc value work := by
  intro e he
  obtain ⟨hkind, hops, hwalk, hpath⟩ := h e he
  exact ⟨hkind, hop :: hops, .step hpart hwalk, hpath⟩

/-- A member that an object does not have is read as null, and null has no parts: only the
member itself can be blamed. -/
theorem of_absent {members : List (String × Json α)}
    (hnone : (Json.obj members).member? name = none)
    (h : Located (.key loc name) (.null : Json α) work) :
    Located loc (.obj members) work := by
  intro e he
  obtain ⟨hkind, hops, hwalk, hpath⟩ := h e he
  cases hwalk with
  | stay => exact ⟨hkind, [.member name], .absent hnone, hpath⟩
  | @step _ _ hop _ hpart _ => cases hop <;> cases hpart

/-- A member of an object, whether it is there or not. -/
theorem of_member {members : List (String × Json α)} (name : String)
    (h : Located (.key loc name) ((Json.obj members).member name) work) :
    Located loc (.obj members) work := by
  rw [Json.member] at h
  cases hmember : (Json.obj members).member? name with
  | none =>
      rw [hmember] at h
      exact of_absent hmember h
  | some found =>
      rw [hmember] at h
      exact of_part (.member name) hmember h

end Located

/-! ### Fields -/

namespace Field

variable {loc : Location} {value : Json α} {name : String}
  {read : Location → Json α → Except Error β}

theorem object_eq_ok : object loc value = .ok () ↔ ∃ members, value = .obj members := by
  cases value with
  | obj members => exact iff_of_true rfl ⟨members, rfl⟩
  | _ => exact iff_of_false nofun nofun

theorem located_object : Located loc value (object loc value) := by
  cases value with
  | obj members => exact .ok ()
  | _ => exact .refused (.inl rfl)

theorem located_knownMembers (known : List String) :
    Located loc value (knownMembers loc known value) := by
  refine located_object.bind fun _ _ => ?_
  split
  · exact .refused (.inl rfl)
  · exact .ok ()

/-- After the check of its members a value is an object, and what follows may rely on it. -/
theorem located_known {known : List String} {next : Unit → Except Error β}
    (hnext : ∀ members, value = .obj members → Located loc value (next ())) :
    Located loc value (knownMembers loc known value >>= next) := by
  refine (located_knownMembers known).bind fun _ hknown => ?_
  obtain ⟨members, hvalue⟩ := object_eq_ok.mp (knownMembers_eq_ok.mp hknown).1
  exact hnext members hvalue

theorem located_optional (h : Locates read) : Located loc value (optional loc value name read) := by
  unfold optional
  split
  case h_1 part hpart => exact (Located.of_part (.member name) hpart (h _ part)).map some
  case h_2 => exact .ok none

theorem located_given (h : Locates read) : Located loc value (given loc value name read) := by
  unfold given
  split
  case h_1 part hpart =>
    have hmember : value.member? name = some part := (Option.filter_eq_some_iff.mp hpart).1
    exact (Located.of_part (.member name) hmember (h _ part)).map some
  case h_2 => exact .ok none

/-- Items that are still to be read stand behind those that have been read. -/
theorem located_items (h : Locates read) (done todo : List (Json α)) :
    Located loc (.arr (done ++ todo)) (items loc read done.length todo) := by
  induction todo generalizing done with
  | nil => exact .ok []
  | cons item rest ih =>
      have hitem : (Json.arr (done ++ item :: rest)).part? (.item done.length) = some item := by
        change (done ++ item :: rest)[done.length]? = some item
        rw [List.getElem?_append_right (Nat.le_refl _), Nat.sub_self, List.getElem?_cons_zero]
      refine (Located.of_part _ hitem (h _ item)).bind fun first _ => ?_
      refine Located.bind ?_ fun others _ => .ok _
      have hrest := ih (done ++ [item])
      rwa [List.append_assoc, List.length_append] at hrest

theorem locates_flag : Locates (flag (α := α)) := by
  intro loc value
  cases value with
  | bool b => exact .ok b
  | _ => exact .refused (.inl rfl)

theorem locates_string : Locates (string (α := α)) := by
  intro loc value
  cases value with
  | str text => exact .ok text
  | _ => exact .refused (.inl rfl)

theorem locates_count : Locates (count (α := α)) := by
  intro loc value
  cases value with
  | int n =>
      rw [count]
      split
      · exact .refused (.inr rfl)
      · split
        · exact .ok n.toNat
        · exact .refused (.inr rfl)
  | _ => exact .refused (.inl rfl)

variable [Scalar α]

theorem located_finite (loc : Location) (value : Json α) (x : α) :
    Located loc value (finite loc x) := by
  unfold finite
  split
  · exact .ok ()
  · exact .refused (.inr rfl)

theorem located_positive (loc : Location) (value : Json α) (x : α) :
    Located loc value (positive loc x) := by
  refine (located_finite loc value x).bind fun _ _ => ?_
  split
  · exact .refused (.inr rfl)
  · exact .ok ()

theorem locates_number : Locates (number (α := α)) := by
  intro loc value
  unfold number
  split
  · exact (located_finite _ _ _).bind fun _ _ => .ok _
  · exact .refused (.inl rfl)

theorem locates_positiveNumber : Locates (positiveNumber (α := α)) := by
  intro loc value
  refine (locates_number loc value).bind fun x _ => ?_
  exact (located_positive loc value x).bind fun _ _ => .ok x

theorem locates_vector : Locates (vector (α := α)) := by
  intro loc value
  unfold vector
  split
  case h_1 x y z =>
    refine (Located.of_part (.item 0) rfl (locates_number _ x)).bind fun _ _ => ?_
    refine (Located.of_part (.item 1) rfl (locates_number _ y)).bind fun _ _ => ?_
    exact (Located.of_part (.item 2) rfl (locates_number _ z)).bind fun _ _ => .ok _
  case h_2 => exact .refused (.inl rfl)

/-- A vector is read from a list of three items. -/
theorem exists_items_of_vector {v : Vec3 α} (h : vector loc value = .ok v) :
    ∃ x y z, value = .arr [x, y, z] := by
  unfold vector at h
  split at h
  case h_1 x y z => exact ⟨x, y, z, rfl⟩
  case h_2 => cases h

theorem locates_positiveVector : Locates (positiveVector (α := α)) := by
  intro loc value
  refine (locates_vector loc value).bind fun v hv => ?_
  obtain ⟨x, y, z, rfl⟩ := exists_items_of_vector hv
  refine (Located.of_part (.item 0) rfl (located_positive _ x v.x)).bind fun _ _ => ?_
  refine (Located.of_part (.item 1) rfl (located_positive _ y v.y)).bind fun _ _ => ?_
  exact (Located.of_part (.item 2) rfl (located_positive _ z v.z)).bind fun _ _ => .ok v

theorem located_vectorOrZero : Located loc value (vectorOrZero loc value name) :=
  (located_given locates_vector).bind fun _ _ => .ok _

end Field

/-! ### Lengths and profiles -/

theorem Length.locates_ofJson [Scalar α] : Locates (ofJson (α := α)) := by
  intro loc value
  unfold ofJson
  split
  case h_1 => exact .refused (.inl rfl)
  case h_2 => exact (Field.locates_number _ _).map relative
  case h_3 => exact (Field.locates_number _ _).map relative
  case h_4 first second =>
    refine (Located.of_part (.item 0) rfl (Field.locates_number _ first)).bind fun _ _ => ?_
    exact (Located.of_part (.item 1) rfl (Field.locates_number _ second)).bind fun _ _ => .ok _
  case h_5 => exact .refused (.inl rfl)
  case h_6 =>
    split
    · exact (Located.of_member "absolute" (Field.locates_number _ _)).map absolute
    · exact .refused (.inl rfl)
  case h_7 => exact .refused (.inl rfl)

theorem ProfileFault.kind_eq (fault : ProfileFault) :
    Cause.kind fault = .shape ∨ Cause.kind fault = .range := by
  cases fault with
  | tooFew => exact .inr rfl
  | _ => exact .inl rfl

theorem Profile.locates_ofJson (defaultSegments : Nat) :
    Locates fun loc (value : Json α) => ofJson loc defaultSegments value := by
  intro loc value
  cases value with
  | null => exact .ok _
  | str text =>
      intro e he
      obtain ⟨fault, -, rfl⟩ := mapError_eq_error.mp he
      exact ⟨fault.kind_eq, [], .stay _, rfl⟩
  | _ => exact .refused (.inl rfl)

end Mannequin
