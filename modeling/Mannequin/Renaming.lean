import Mannequin.Error
import Mannequin.NameMap

/-!
# Renaming steps

A renaming step takes a name away and brings another one in. It is safe when
the old name is present and the new one is not. Replaying a list of steps over a
set of names stops at the first step that is not safe.
-/

namespace Mannequin.Renaming

/-- Rename `source` to `target`. -/
structure Step where
  source : String
  target : String
  deriving DecidableEq, Repr

/-- Why names cannot be renamed as asked. -/
inductive Fault where
  /-- Names to rename do not exist. -/
  | missing (sources : List String)
  /-- Several names would become one. -/
  | collision (targets : List String)
  /-- New names are taken by names that stay. -/
  | conflict (targets : List String)
  /-- No name that is left can be renamed. -/
  | noProgress (sources : List String)
  /-- A name to merge does not exist. -/
  | mergeMissing (source : String)
  /-- A step takes a name that is not there. -/
  | sourceAbsent (source : String)
  /-- A step brings in a name that is there already. -/
  | targetPresent (target : String)
  deriving DecidableEq, Repr

namespace Fault

/-- Names in quotation marks, separated by commas. -/
def quoted (names : List String) : String :=
  ", ".intercalate (names.map fun name => "'" ++ name ++ "'")

def kind : Fault → ErrorKind
  | missing _ => .missingTarget
  | collision _ => .collision
  | conflict _ => .conflict
  | noProgress _ => .internal
  | mergeMissing _ => .missingTarget
  | sourceAbsent _ => .missingTarget
  | targetPresent _ => .conflict

def message : Fault → String
  | missing sources => "vertex groups to rename do not exist: " ++ quoted sources
  | collision targets =>
    "several vertex groups map onto " ++ quoted targets ++
      "; resolve these as merges before renaming"
  | conflict targets => "rename destinations already exist: " ++ quoted targets
  | noProgress sources =>
    "rename plan made no progress; unresolved cycle through " ++ quoted sources
  | mergeMissing source => "vertex group to merge does not exist: '" ++ source ++ "'"
  | sourceAbsent source => "source '" ++ source ++ "' is not present"
  | targetPresent target => "destination '" ++ target ++ "' is already present"

instance : Cause Fault := ⟨kind, message⟩

end Fault

namespace Step

/-- The names after a safe step. -/
def apply (step : Step) (names : NameSet) : Except Fault NameSet :=
  if step.source ∉ names then .error (.sourceAbsent step.source)
  else if step.target ∈ names then .error (.targetPresent step.target)
  else .ok (NameSet.add (names.erase step.source) step.target)

/-- Replay steps from a given position on. The names are handed back as the
last safe step left them. -/
def replayFrom (index : Nat) (names : NameSet) : List Step → NameSet × Except Error Unit
  | [] => (names, .ok ())
  | step :: rest =>
    match step.apply names with
    | .ok after => replayFrom (index + 1) after rest
    | .error fault => (names, refuse fault ("step " ++ toString index))

/-- Replay a list of steps over a set of names. -/
def replay (steps : List Step) (names : NameSet) : NameSet × Except Error Unit :=
  replayFrom 0 names steps

end Step

end Mannequin.Renaming
