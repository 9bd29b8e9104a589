import Mathlib.Data.List.Forall2
import Mannequin.Blueprint.BoneMesh
import Mannequin.Proofs.NameMap
import Mannequin.Proofs.Returns
import Mannequin.Proofs.Scalar.Ordered

/-!
# What checked fields say

A field that is read tells what has been written: an object whose members are all known
has no others, and a list is read item by item, in its order. Numbers that are
read are finite, and those that are checked for it are positive.
-/

namespace Mannequin

variable {α β γ : Type}

/-- What holds of an item exactly if it holds of its partner holds of all items exactly if it
holds of all partners. -/
theorem forall_mem_iff_of_forall₂ {P : β → Prop} {Q : γ → Prop} {R : β → γ → Prop}
    (hiff : ∀ b c, R b c → (P b ↔ Q c)) {l : List β} {l' : List γ} (h : List.Forall₂ R l l') :
    (∀ b ∈ l, P b) ↔ ∀ c ∈ l', Q c := by
  induction h with
  | nil => simp
  | cons hfirst _ ih => rw [List.forall_mem_cons, List.forall_mem_cons, hiff _ _ hfirst, ih]

theorem forall_mem_of_forall₂ {Q : γ → Prop} {R : β → γ → Prop} (hR : ∀ b c, R b c → Q c)
    {l : List β} {l' : List γ} (h : List.Forall₂ R l l') : ∀ c ∈ l', Q c := by
  induction h with
  | nil => simp
  | cons hfirst _ ih => exact List.forall_mem_cons.mpr ⟨hR _ _ hfirst, ih⟩

theorem map_eq_map_of_forall₂ {δ : Type} {f : β → δ} {g : γ → δ} {R : β → γ → Prop}
    (heq : ∀ b c, R b c → f b = g c) {l : List β} {l' : List γ} (h : List.Forall₂ R l l') :
    l.map f = l'.map g := by
  rw [← List.forall₂_eq_eq_eq, List.forall₂_map_left_iff, List.forall₂_map_right_iff]
  exact h.imp heq

theorem of_getD {P : β → Prop} {o : Option β} (h : ∀ b ∈ o, P b) {d : β} (hd : P d) :
    P (o.getD d) := by
  cases o with
  | none => exact hd
  | some b => exact h b rfl

/-- All components are finite and above zero. -/
def Vec3.AllPositive [Scalar α] (v : Vec3 α) : Prop :=
  Scalar.IsPositive v.x ∧ Scalar.IsPositive v.y ∧ Scalar.IsPositive v.z

instance [Scalar α] (v : Vec3 α) : Decidable v.AllPositive := inferInstanceAs (Decidable (_ ∧ _))

/-- All components are finite. -/
def Vec3.AllFinite [Scalar α] (v : Vec3 α) : Prop :=
  Scalar.isFinite v.x = true ∧ Scalar.isFinite v.y = true ∧ Scalar.isFinite v.z = true

instance [Scalar α] (v : Vec3 α) : Decidable v.AllFinite := inferInstanceAs (Decidable (_ ∧ _))

namespace Json

variable {value member : Json α} {name : String}

theorem has_eq_false_iff : value.has name = false ↔ value.member? name = none := by
  rw [has, Option.isSome_eq_false_iff, Option.isNone_iff_eq_none]

/-- A string is not what stands for a member that is left out. -/
theorem member?_of_member_str {text : String} (h : value.member name = .str text) :
    value.member? name = some (.str text) := by
  rw [member] at h
  cases hmember : value.member? name with
  | none =>
      rw [hmember] at h
      cases h
  | some found =>
      rw [hmember] at h
      exact congrArg some h

/-- The items of the list that is written under a name. -/
def listed (value : Json α) (name : String) : List (Json α) :=
  match value.member? name with
  | some (.arr items) => items
  | _ => []

end Json

namespace Field

variable {loc : Location} {value : Json α} {name : String}
  {read : Location → Json α → Except Error β}

theorem string_eq_ok {text : String} : string loc value = .ok text ↔ value = .str text := by
  unfold string
  split
  · simp
  · simp only [refuse, reduceCtorEq, false_iff]
    rintro rfl
    simp at *

/-- An object is accepted if no name that is not known is the name of a member. -/
theorem knownMembers_eq_ok {known : List String} :
    knownMembers loc known value = .ok () ↔
      object loc value = .ok () ∧ ∀ name ∉ known, value.member? name = none := by
  rw [knownMembers, bind_eq_ok]
  constructor
  · rintro ⟨_, hobject, h⟩
    refine ⟨hobject, fun name hunknown => ?_⟩
    split at h
    · cases h
    · rename_i hnone
      by_contra hsome
      obtain ⟨member, hmember⟩ := Option.ne_none_iff_exists'.mp hsome
      have hname : name ∈ value.members.names :=
        NameMap.mem_names.mpr (NameMap.mem_of_get? hmember)
      exact hunknown (by simpa using List.find?_eq_none.mp hnone name hname)
  · rintro ⟨hobject, hknown⟩
    refine ⟨(), hobject, ?_⟩
    split
    · rename_i name hfound
      have hname : name ∈ value.members := NameMap.mem_names.mp (List.mem_of_find?_eq_some hfound)
      have hunknown : name ∉ known := by simpa using List.find?_some hfound
      exact absurd (hknown name hunknown) (NameMap.not_mem_iff.not.mp (not_not.mpr hname))
    · rfl

/-- A name that is not known is not the name of a member. -/
theorem member?_eq_none_of_knownMembers {known : List String} (name : String)
    (h : knownMembers loc known value = .ok ()) (hunknown : name ∉ known) :
    value.member? name = none :=
  (knownMembers_eq_ok.mp h).2 name hunknown

theorem of_given_eq_ok {result : Option β}
    (h : given loc value name read = .ok result) :
    (value.given? name = none ∧ result = none) ∨
      ∃ member b, value.given? name = some member ∧ read (.key loc name) member = .ok b ∧
        result = some b := by
  unfold given at h
  split at h
  · rename_i member hmember
    obtain ⟨b, hread, rfl⟩ := map_eq_ok.mp h
    exact .inr ⟨member, b, hmember, hread, rfl⟩
  · rename_i hnone
    cases h
    exact .inl ⟨hnone, rfl⟩

theorem of_optional_eq_ok {result : Option β}
    (h : optional loc value name read = .ok result) :
    (value.member? name = none ∧ result = none) ∨
      ∃ member b, value.member? name = some member ∧ read (.key loc name) member = .ok b ∧
        result = some b := by
  unfold optional at h
  split at h
  · rename_i member hmember
    obtain ⟨b, hread, rfl⟩ := map_eq_ok.mp h
    exact .inr ⟨member, b, hmember, hread, rfl⟩
  · rename_i hnone
    cases h
    exact .inl ⟨hnone, rfl⟩

theorem optional_eq_some {member : Json α} {b : β} (hmember : value.member? name = some member)
    (hread : read (.key loc name) member = .ok b) :
    optional loc value name read = .ok (some b) := by
  rw [optional, hmember]
  exact map_eq_ok.mpr ⟨b, hread, rfl⟩

theorem given_eq_some {member : Json α} {b : β} (hmember : value.given? name = some member)
    (hread : read (.key loc name) member = .ok b) :
    given loc value name read = .ok (some b) := by
  rw [given, hmember]
  exact map_eq_ok.mpr ⟨b, hread, rfl⟩

/-- What holds of everything that is read holds of a member, if it is there. -/
theorem forall_of_given {P : β → Prop} (hread : ∀ place member b, read place member = .ok b → P b)
    {result : Option β} (h : given loc value name read = .ok result) : ∀ b ∈ result, P b := by
  rcases of_given_eq_ok h with ⟨-, rfl⟩ | ⟨member, b, -, hb, rfl⟩
  · exact nofun
  · exact fun c hc => Option.some.inj hc ▸ hread _ _ _ hb

theorem forall_of_optional {P : β → Prop}
    (hread : ∀ place member b, read place member = .ok b → P b) {result : Option β}
    (h : optional loc value name read = .ok result) : ∀ b ∈ result, P b := by
  rcases of_optional_eq_ok h with ⟨-, rfl⟩ | ⟨member, b, -, hb, rfl⟩
  · exact nofun
  · exact fun c hc => Option.some.inj hc ▸ hread _ _ _ hb

/-- A list is read item by item. -/
theorem forall₂_of_items {index : Nat} {values : List (Json α)} {results : List β}
    (h : items loc read index values = .ok results) :
    List.Forall₂ (fun value b => ∃ place, read place value = .ok b) values results := by
  induction values generalizing index results with
  | nil =>
      cases h
      exact .nil
  | cons value rest ih =>
      obtain ⟨first, hfirst, h⟩ := bind_eq_ok.mp h
      obtain ⟨others, hothers, h⟩ := bind_eq_ok.mp h
      cases h
      exact .cons ⟨_, hfirst⟩ (ih hothers)

/-! ### Finite numbers -/

variable [Scalar α]

theorem finite_eq_ok {x : α} : finite loc x = .ok () ↔ Scalar.isFinite x = true := by
  unfold finite
  split
  case isTrue hfinite => exact iff_of_true rfl hfinite
  case isFalse hinfinite => exact iff_of_false nofun hinfinite

theorem number_eq_ok {x : α} :
    number loc value = .ok x ↔ value.number? = some x ∧ Scalar.isFinite x = true := by
  unfold number
  cases value.number? with
  | none => exact iff_of_false nofun nofun
  | some y =>
      constructor
      · intro h
        obtain ⟨_, hfinite, h⟩ := bind_eq_ok.mp h
        cases h
        exact ⟨rfl, finite_eq_ok.mp hfinite⟩
      · rintro ⟨hsame, hfinite⟩
        obtain rfl := Option.some.inj hsame
        exact bind_eq_ok.mpr ⟨(), finite_eq_ok.mpr hfinite, rfl⟩

theorem isFinite_of_number {x : α} (h : number loc value = .ok x) : Scalar.isFinite x = true :=
  (number_eq_ok.mp h).2

theorem allFinite_of_vector {v : Vec3 α} (h : vector loc value = .ok v) : v.AllFinite := by
  unfold vector at h
  split at h
  · obtain ⟨x, hx, h⟩ := bind_eq_ok.mp h
    obtain ⟨y, hy, h⟩ := bind_eq_ok.mp h
    obtain ⟨z, hz, h⟩ := bind_eq_ok.mp h
    cases h
    exact ⟨isFinite_of_number hx, isFinite_of_number hy, isFinite_of_number hz⟩
  · cases h

/-! ### Positive numbers -/

theorem positive_eq_ok {x : α} : positive loc x = .ok () ↔ Scalar.IsPositive x := by
  constructor
  · intro h
    obtain ⟨_, hfinite, h⟩ := bind_eq_ok.mp h
    split at h
    case isTrue => cases h
    case isFalse hzero => exact ⟨finite_eq_ok.mp hfinite, hzero⟩
  · rintro ⟨hfinite, hzero⟩
    exact bind_eq_ok.mpr ⟨(), finite_eq_ok.mpr hfinite, if_neg hzero⟩

theorem isPositive_of_positiveNumber {x : α} (h : positiveNumber loc value = .ok x) :
    Scalar.IsPositive x := by
  obtain ⟨_, -, h⟩ := bind_eq_ok.mp h
  obtain ⟨_, hpositive, h⟩ := bind_eq_ok.mp h
  cases h
  exact positive_eq_ok.mp hpositive

/-- A number that is one unless it is given is positive if it is checked when it is given. -/
theorem isPositive_getD_one [Scalar.Ordered α] {result : Option α}
    (h : given loc value name positiveNumber = .ok result) : Scalar.IsPositive (result.getD 1) :=
  of_getD (forall_of_given (fun _ _ _ => isPositive_of_positiveNumber) h)
    Scalar.Ordered.isPositive_one

theorem allPositive_of_positiveVector {v : Vec3 α} (h : positiveVector loc value = .ok v) :
    v.AllPositive := by
  obtain ⟨_, -, h⟩ := bind_eq_ok.mp h
  obtain ⟨_, hx, h⟩ := bind_eq_ok.mp h
  obtain ⟨_, hy, h⟩ := bind_eq_ok.mp h
  obtain ⟨_, hz, h⟩ := bind_eq_ok.mp h
  cases h
  exact ⟨positive_eq_ok.mp hx, positive_eq_ok.mp hy, positive_eq_ok.mp hz⟩

end Field

namespace Length

variable {loc : Location} [Scalar α]

theorem isPositive_of_scaled {x factor product : α} (h : scaled loc x factor = .ok product) :
    Scalar.IsPositive product := by
  obtain ⟨_, hpositive, h⟩ := bind_eq_ok.mp h
  cases h
  exact Field.positive_eq_ok.mp hpositive

/-- A length that is measured is positive, and so is the bone that it is measured against. -/
theorem isPositive_of_measure {boneLength : α} {length : Length α} {extent : Extent α}
    (h : measure loc boneLength length = .ok extent) :
    Scalar.IsPositive boneLength ∧ Scalar.IsPositive extent.x ∧ Scalar.IsPositive extent.y := by
  obtain ⟨_, hbone, h⟩ := bind_eq_ok.mp h
  refine ⟨Field.positive_eq_ok.mp hbone, ?_⟩
  cases length with
  | relative factor =>
      obtain ⟨x, hx, h⟩ := bind_eq_ok.mp h
      cases h
      exact ⟨isPositive_of_scaled hx, isPositive_of_scaled hx⟩
  | pair first second =>
      obtain ⟨x, hx, h⟩ := bind_eq_ok.mp h
      obtain ⟨y, hy, h⟩ := bind_eq_ok.mp h
      cases h
      exact ⟨isPositive_of_scaled hx, isPositive_of_scaled hy⟩
  | absolute number =>
      obtain ⟨x, hx, h⟩ := bind_eq_ok.mp h
      cases h
      exact ⟨isPositive_of_scaled hx, isPositive_of_scaled hx⟩

end Length

namespace Blueprint

variable {loc : Location} {value : Json α} {name : String} {fault : BlueprintFault}
  {read : Location → Json α → Except Error β} {results : List β}

theorem forall₂_of_list (h : list loc value name fault read = .ok results) :
    List.Forall₂ (fun item b => ∃ place, read place item = .ok b) (value.listed name) results := by
  unfold list at h
  unfold Json.listed
  split at h
  · rename_i hnone
    cases h
    rw [hnone]
    exact .nil
  · rename_i hitems
    rw [hitems]
    exact Field.forall₂_of_items h
  · cases h

/-- What is seen of the written items is seen of what has been read from them, in order. -/
theorem map_listed_eq {δ : Type} {seen : Json α → δ} {kept : β → δ}
    (hread : ∀ place item b, read place item = .ok b → seen item = kept b)
    (h : list loc value name fault read = .ok results) :
    (value.listed name).map seen = results.map kept :=
  map_eq_map_of_forall₂ (fun item b ⟨place, hb⟩ => hread place item b hb) (forall₂_of_list h)

/-- Every result has been read from an item. -/
theorem exists_of_mem_list (h : list loc value name fault read = .ok results) {b : β}
    (hb : b ∈ results) : ∃ place item, read place item = .ok b := by
  have hread : ∀ b ∈ results, ∃ place item, read place item = .ok b :=
    forall_mem_of_forall₂ (fun item b ⟨place, hb⟩ => ⟨place, item, hb⟩) (forall₂_of_list h)
  exact hread b hb

variable [Scalar α]

namespace BoneMesh

/-- What the fields of a definition are read from. -/
structure Read (loc : Location) (defaultSegments : Nat) (value : Json α) (m : BoneMesh α) :
    Prop where
  profile : Profile.ofJson (.key loc "profile") defaultSegments (value.member "profile") =
    .ok m.profile
  taper : ∃ taper, Field.optional loc value "taper" Field.positiveNumber = .ok taper ∧
    m.taper = taper.getD 1
  twist : ∃ twist, Field.optional loc value "twist" Field.number = .ok twist ∧
    m.twist = twist.getD 0
  bulge : list loc value "bulge" .bulgeList bulgePoint = .ok m.bulge
  translate : Field.vectorOrZero loc value "translate" = .ok m.translate
  rotate : Field.given loc value "rotate" Field.vector = .ok m.rotate
  attachments : list loc value "attachments" (.notList "attachments") Attachment.ofJson =
    .ok m.attachments
  modifiers : list loc value "modifiers" (.notList "modifiers") Modifier.ofJson = .ok m.modifiers
  steps : list loc value "extrusion_steps" (.notList "extrusion_steps") Step.ofJson = .ok m.steps
  part : Field.given loc value "part" Part.ofJson = .ok m.part
  alone : m.part.isSome = true → partAlone loc value m.steps = .ok ()

theorem read_of_ofJson {defaultSegments : Nat} {m : BoneMesh α}
    (h : ofJson loc defaultSegments value = .ok m) : m.Read loc defaultSegments value := by
  obtain ⟨_, -, h⟩ := bind_eq_ok.mp h
  obtain ⟨profile, hprofile, h⟩ := bind_eq_ok.mp h
  obtain ⟨_, -, h⟩ := bind_eq_ok.mp h
  obtain ⟨_, -, h⟩ := bind_eq_ok.mp h
  obtain ⟨_, -, h⟩ := bind_eq_ok.mp h
  obtain ⟨taper, htaper, h⟩ := bind_eq_ok.mp h
  obtain ⟨twist, htwist, h⟩ := bind_eq_ok.mp h
  obtain ⟨bulge, hbulge, h⟩ := bind_eq_ok.mp h
  obtain ⟨translate, htranslate, h⟩ := bind_eq_ok.mp h
  obtain ⟨rotate, hrotate, h⟩ := bind_eq_ok.mp h
  obtain ⟨attachments, hattachments, h⟩ := bind_eq_ok.mp h
  obtain ⟨modifiers, hmodifiers, h⟩ := bind_eq_ok.mp h
  obtain ⟨_, -, h⟩ := bind_eq_ok.mp h
  obtain ⟨steps, hsteps, h⟩ := bind_eq_ok.mp h
  obtain ⟨_, -, h⟩ := bind_eq_ok.mp h
  obtain ⟨_, -, h⟩ := bind_eq_ok.mp h
  obtain ⟨part, hpart, h⟩ := bind_eq_ok.mp h
  have halone : part.isSome = true → partAlone loc value steps = .ok () := by
    intro hsome
    rw [if_pos hsome] at h
    obtain ⟨_, hcheck, -⟩ := bind_eq_ok.mp h
    exact hcheck
  cases of_guarded_eq_ok h
  exact ⟨hprofile, ⟨taper, htaper, rfl⟩, ⟨twist, htwist, rfl⟩, hbulge, htranslate, hrotate,
    hattachments, hmodifiers, hsteps, hpart, halone⟩

/-- What a definition is read from, apart from its numbers. -/
structure Written (value : Json α) (m : BoneMesh α) : Prop where
  attachments : ∃ loc, list loc value "attachments" (.notList "attachments") Attachment.ofJson =
    .ok m.attachments
  modifiers : ∃ loc, list loc value "modifiers" (.notList "modifiers") Modifier.ofJson =
    .ok m.modifiers
  steps : ∃ loc, list loc value "extrusion_steps" (.notList "extrusion_steps") Step.ofJson =
    .ok m.steps
  part : ∃ loc, Field.given loc value "part" Part.ofJson = .ok m.part

theorem written_of_ofJson {defaultSegments : Nat} {m : BoneMesh α}
    (h : ofJson loc defaultSegments value = .ok m) : m.Written value :=
  have hread := read_of_ofJson h
  ⟨⟨_, hread.attachments⟩, ⟨_, hread.modifiers⟩, ⟨_, hread.steps⟩, ⟨_, hread.part⟩⟩

end BoneMesh

end Blueprint

end Mannequin
