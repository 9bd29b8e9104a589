import Mannequin.Error
import Mannequin.Location
import Mannequin.Json

/-!
# Mirror records

A table of definitions may hold records that stand for another entry: an object
whose only member, `mirror`, names the other key. Resolving a table replaces
each such record by the definition its chain of records ends in.

The chain of a key is walked without visiting a key twice, so a walk takes at
most as many steps as the table has keys, and a chain that comes back to itself
is reported with the keys it runs through. What a walk finds is noted for all its
keys, and later walks end where they meet one of them.
-/

namespace Mannequin.Alias

/-- Why a table has no resolution. -/
inductive Fault where
  | notTable (typeName : String)
  /-- A mirror record has further members. -/
  | extraMembers (key : String)
  /-- The member `mirror` is not a string. -/
  | notName (key typeName : String)
  | missing (key target : String)
  /-- A chain comes back to a key; the walk starts and ends at it. -/
  | cycle (key : String) (walk : List String)
  deriving DecidableEq, Repr

namespace Fault

def kind : Fault → ErrorKind
  | notTable _ => .shape
  | extraMembers _ => .shape
  | notName _ _ => .shape
  | missing _ _ => .missingTarget
  | cycle _ _ => .cycle

def message : Fault → String
  | notTable typeName => "expected an object, got " ++ typeName
  | extraMembers _ => "a 'mirror' record must not carry other fields"
  | notName _ typeName => "expected a string, got " ++ typeName
  | missing key target => "'" ++ key ++ "' mirrors missing key '" ++ target ++ "'"
  | cycle key walk =>
    "mirror cycle detected at '" ++ key ++ "': " ++ " -> ".intercalate walk

/-- Where the fault lies in a table of the given name. -/
def location (table : String) : Fault → Location
  | notTable _ => .root table
  | extraMembers key => .key (.root table) key
  | notName key _ => .key (.key (.root table) key) "mirror"
  | missing key _ => .key (.key (.root table) key) "mirror"
  | cycle key _ => .key (.root table) key

instance : Cause Fault := ⟨kind, message⟩

/-- The error of a fault in a table of the given name. -/
def error (table : String) (fault : Fault) : Error :=
  Cause.error fault (fault.location table).render

end Fault

variable {α : Type}

/-- Whether a record stands for another entry. -/
def IsMirror (record : Json α) : Prop := record.has "mirror" = true

instance (record : Json α) : Decidable (IsMirror record) :=
  inferInstanceAs (Decidable (_ = true))

/-- The key that a mirror record names. -/
def target (key : String) (record : Json α) : Except Fault String :=
  if record.members.size = 1 then
    match record.member "mirror" with
    | .str name => .ok name
    | other => .error (.notName key other.typeName)
  else .error (.extraMembers key)

/-- The keys from the last visit of a key on, and that key again. The trail
lists the visited keys, latest first. -/
def closedWalk (trail : List String) (key : String) : List String :=
  trail.reverse.dropWhile (· ≠ key) ++ [key]

/-- Fewer names are left once another one is on the trail. -/
theorem length_filter_cons_lt {names trail : List String} {name : String} (h : name ∈ names)
    (hnew : name ∉ trail) :
    (names.filter (· ∉ name :: trail)).length < (names.filter (· ∉ trail)).length := by
  have hfilter : names.filter (· ∉ name :: trail) =
      (names.filter (· ∉ trail)).filter (· ≠ name) := by
    rw [List.filter_filter]
    congr 1
    funext other
    simp
  have hleft : name ∈ names.filter (· ∉ trail) := List.mem_filter.mpr ⟨h, by simpa using hnew⟩
  rw [hfilter]
  exact List.length_filter_lt_length_iff_exists.mpr ⟨name, hleft, by simp⟩

theorem mem_names_of_get? {β : Type} {m : NameMap β} {name : String} {value : β}
    (h : m.get? name = some value) : name ∈ m.names := by
  obtain ⟨before, after, hentries, -⟩ := List.lookup_eq_some_iff.mp h
  rw [NameMap.names, hentries]
  simp

/-- Walk the chain of a key to the definition it ends in, and note that definition
for every key on the way. The record is the key's, `earlier` lists the keys under
way, latest first, and `resolved` holds the definitions noted so far: a walk that
meets a key with a definition ends there. -/
def walk (table : NameMap (Json α)) (key : String) (earlier : List String) (record : Json α)
    (resolved : NameMap (Json α)) : Except Fault (Json α × NameMap (Json α)) :=
  match resolved.get? key with
  | some definition => .ok (definition, resolved)
  | none =>
    if IsMirror record then
      match target key record with
      | .error fault => .error fault
      | .ok next =>
        match _h : table.get? next with
        | none => .error (.missing key next)
        | some found =>
          if _hnew : next ∈ key :: earlier then
            .error (.cycle next (closedWalk (key :: earlier) next))
          else do
            let (definition, resolved) ← walk table next (key :: earlier) found resolved
            return (definition, resolved.insert key definition)
    else .ok (record, resolved.insert key record)
termination_by (table.names.filter (· ∉ key :: earlier)).length
decreasing_by exact length_filter_cons_lt (mem_names_of_get? _h) _hnew

/-- Walk from the keys of a list of entries in turn. The first fault is the result. -/
def walks (table : NameMap (Json α)) (entries : List (String × Json α))
    (resolved : NameMap (Json α)) : Except Fault (NameMap (Json α)) :=
  entries.foldlM (fun resolved (key, record) => do
    let (_, resolved) ← walk table key [] record resolved
    return resolved) resolved

/-- The table with every mirror record replaced by its definition. The keys are
walked from in order. A table that is left out has no entries. -/
def resolve (table : Json α) : Except Fault (NameMap (Json α)) :=
  match table with
  | .null => .ok ∅
  | .obj _ => walks table.members table.members.entries ∅
  | other => .error (.notTable other.typeName)

/-- Follow mirror records from a key for at most `hops` steps. -/
def follow (table : NameMap (Json α)) : (hops : Nat) → (key : String) → String
  | 0, key => key
  | hops + 1, key =>
    match table.get? key with
    | none => key
    | some record =>
      match record.member? "mirror" with
      | some (.str next) => follow table hops next
      | _ => key

/-- The key whose definition a key takes. -/
def sourceKey (table : Json α) (key : String) : String :=
  follow table.members (table.members.size + 1) key

end Mannequin.Alias
