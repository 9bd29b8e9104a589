import Mannequin.Proofs.Fields
import Mannequin.Proofs.Reading
import Mannequin.Skeleton.Assembly

/-!
# Entries as they are written

Whether an entry can be read, and what it says, does not depend on where it stands: the
place is only for messages. Every bone with a name and finite ends can be written as an
entry that says all of it.
-/

namespace Mannequin

variable {α β : Type}

/-- A list is read if each of its items can be read somewhere. -/
theorem Field.items_eq_ok {read : Location → Json α → Except Error β} {loc : Location}
    {index : Nat} {values : List (Json α)} {results : List β} (hread : Everywhere read)
    (h : List.Forall₂ (fun value b => ∃ place, read place value = .ok b) values results) :
    items loc read index values = .ok results := by
  induction h generalizing index with
  | nil => rfl
  | cons hfirst _ ih =>
      obtain ⟨place, hfirst⟩ := hfirst
      refine bind_eq_ok.mpr ⟨_, (hread place _ _).eq_ok hfirst, ?_⟩
      exact bind_eq_ok.mpr ⟨_, ih, rfl⟩

/-! ### Bones that are written -/

/-- The list of the components of a vector. -/
def Vec3.toJson (v : Vec3 α) : Json α := .arr [.real v.x, .real v.y, .real v.z]

/-- A bone as a list writes it. The parent of a root is written as an empty name. -/
def Bone.toJson (bone : Bone α) : Json α :=
  .obj [("bone", .str bone.name), ("head", bone.head.toJson), ("tail", bone.tail.toJson),
    ("parent", .str (bone.parent.getD ""))]

/-- A bone that can be written: it has a name, and so has its parent if there is one, and
its ends are finite. -/
structure Bone.Writable [Scalar α] (bone : Bone α) : Prop where
  name : bone.name ≠ ""
  parent : bone.parent ≠ some ""
  head : bone.head.AllFinite
  tail : bone.tail.AllFinite

instance [Scalar α] (bone : Bone α) : Decidable bone.Writable :=
  decidable_of_iff
    (bone.name ≠ "" ∧ bone.parent ≠ some "" ∧ bone.head.AllFinite ∧ bone.tail.AllFinite)
    ⟨fun ⟨hname, hparent, hhead, htail⟩ => ⟨hname, hparent, hhead, htail⟩,
      fun h => ⟨h.name, h.parent, h.head, h.tail⟩⟩

/-- What a bone is written as is found under the name of the field. -/
theorem Bone.member?_toJson (bone : Bone α) (name : String) :
    bone.toJson.member? name =
      if name = "bone" then some (.str bone.name)
      else if name = "head" then some bone.head.toJson
      else if name = "tail" then some bone.tail.toJson
      else if name = "parent" then some (.str (bone.parent.getD ""))
      else none := by
  have hlookup : bone.toJson.member? name =
      [("bone", .str bone.name), ("head", bone.head.toJson), ("tail", bone.tail.toJson),
        ("parent", .str (bone.parent.getD ""))].lookup name :=
    NameMap.get?_ofList (by simp) name
  simp only [hlookup, NameMap.lookup_cons, List.lookup_nil]

theorem Field.vector_toJson [Scalar α] {v : Vec3 α} (h : v.AllFinite) (loc : Location) :
    Field.vector loc v.toJson = .ok v := by
  obtain ⟨hx, hy, hz⟩ := h
  refine bind_eq_ok.mpr ⟨v.x, Field.number_eq_ok.mpr ⟨rfl, hx⟩, ?_⟩
  refine bind_eq_ok.mpr ⟨v.y, Field.number_eq_ok.mpr ⟨rfl, hy⟩, ?_⟩
  exact bind_eq_ok.mpr ⟨v.z, Field.number_eq_ok.mpr ⟨rfl, hz⟩, rfl⟩

namespace BoneEntry

/-- The entry that says all of a bone. -/
def ofBone (bone : Bone α) : BoneEntry α :=
  ⟨bone.name, bone.head, bone.tail, bone.parent.getD "", none⟩

theorem nonempty?_getD {parent : Option String} (h : parent ≠ some "") :
    nonempty? (parent.getD "") = parent := by
  cases parent with
  | none => rfl
  | some name =>
      have hname : name ≠ "" := fun hempty => h (congrArg some hempty)
      exact if_neg hname

theorem nonempty?_ne (name : String) : nonempty? name ≠ some "" := by
  rw [nonempty?]
  split
  case isTrue => exact nofun
  case isFalse hname => exact fun hempty => hname (Option.some.inj hempty)

/-- An entry that says all of a bone adds this bone. -/
theorem bone_ofBone [Scalar α] {bone : Bone α} (h : bone.parent ≠ some "") :
    (ofBone bone).bone = bone := by
  have hparent : (ofBone bone).parent.bind nonempty? = bone.parent := nonempty?_getD h
  rw [BoneEntry.bone, hparent]
  rfl

end BoneEntry

/-! ### Entries -/

namespace BoneEntry

variable [Scalar α] {loc : Location} {value : Json α} {entry : BoneEntry α}

theorem everywhere_ofJson : Everywhere (ofJson (α := α)) := by
  intro loc loc' value
  refine (Field.alike_knownMembers loc loc' _ value).bind fun _ => ?_
  split
  · exact .refused _ _ _ _
  · refine (Field.everywhere_string _ _ _).bind fun name => ?_
    split
    · exact .refused _ _ _ _
    · refine (Field.alike_optional Field.everywhere_vector _ _ _ _).bind fun head => ?_
      refine (Field.alike_optional Field.everywhere_vector _ _ _ _).bind fun tail => ?_
      refine (Field.alike_given Field.everywhere_string _ _ _ _).bind fun parent => ?_
      exact (Field.alike_given Field.everywhere_string _ _ _ _).bind fun mirror => .refl _

/-- A bone that can be written is read back. -/
theorem ofJson_toJson {bone : Bone α} (h : bone.Writable) (loc : Location) :
    ofJson loc bone.toJson = .ok (ofBone bone) := by
  have hknown : Field.knownMembers loc ["bone", "head", "tail", "parent", "mirror"] bone.toJson =
      .ok () := by
    refine Field.knownMembers_eq_ok.mpr ⟨rfl, fun name hunknown => ?_⟩
    simp only [List.mem_cons, not_or] at hunknown
    obtain ⟨hbone, hhead, htail, hparent, -⟩ := hunknown
    rw [bone.member?_toJson, if_neg hbone, if_neg hhead, if_neg htail, if_neg hparent]
  have hname : bone.toJson.member? "bone" = some (.str bone.name) := by
    simp [bone.member?_toJson]
  have hhead : bone.toJson.member? "head" = some bone.head.toJson := by
    simp [bone.member?_toJson]
  have htail : bone.toJson.member? "tail" = some bone.tail.toJson := by
    simp [bone.member?_toJson]
  have hparent : bone.toJson.given? "parent" = some (.str (bone.parent.getD "")) := by
    simp [Json.given?, bone.member?_toJson, Json.isNull]
  have hmirror : bone.toJson.given? "mirror" = none := by
    simp [Json.given?, bone.member?_toJson]
  refine bind_eq_ok.mpr ⟨(), hknown, ?_⟩
  rw [hname]
  refine bind_eq_ok.mpr ⟨bone.name, rfl, ?_⟩
  rw [if_neg h.name]
  refine bind_eq_ok.mpr ⟨_, Field.optional_eq_some hhead (Field.vector_toJson h.head _), ?_⟩
  refine bind_eq_ok.mpr ⟨_, Field.optional_eq_some htail (Field.vector_toJson h.tail _), ?_⟩
  refine bind_eq_ok.mpr ⟨_, Field.given_eq_some hparent rfl, ?_⟩
  rw [Field.given, hmirror]
  rfl

/-- The ends that an entry gives are finite. -/
theorem allFinite_of_ofJson (h : ofJson loc value = .ok entry) :
    (∀ head ∈ entry.head, head.AllFinite) ∧ ∀ tail ∈ entry.tail, tail.AllFinite := by
  obtain ⟨_, -, h⟩ := bind_eq_ok.mp h
  split at h
  · cases h
  · obtain ⟨_, -, h⟩ := bind_eq_ok.mp h
    split at h
    · cases h
    · obtain ⟨head, hhead, h⟩ := bind_eq_ok.mp h
      obtain ⟨tail, htail, h⟩ := bind_eq_ok.mp h
      obtain ⟨_, -, h⟩ := bind_eq_ok.mp h
      obtain ⟨_, -, h⟩ := bind_eq_ok.mp h
      cases h
      exact ⟨Field.forall_of_optional (fun _ _ _ => Field.allFinite_of_vector) hhead,
        Field.forall_of_optional (fun _ _ _ => Field.allFinite_of_vector) htail⟩

end BoneEntry

end Mannequin
