import Mannequin.Renaming

/-!
# Planning a renaming

A mapping says which name every name is to have. All names change at once, so a
new name may be the old name of another entry, and names may trade places. A
plan is a list of safe steps with the same effect.

An entry whose new name is still to be renamed itself first moves aside to a
temporary name. What remains is then carried out in passes: each pass renames
every entry whose new name is free of the entries that remain.
-/

namespace Mannequin.Renaming

/-- The entries that change a name. -/
def moving (mapping : NameMap String) : NameMap String :=
  mapping.filter fun source target => source ≠ target

/-- The names that are to become each name, in order. -/
def sourcesByTarget (mapping : NameMap String) : NameMap (List String) :=
  (moving mapping).entries.foldl
    (fun groups e => groups.insert e.2 ((groups.get? e.2).getD [] ++ [e.1])) ∅

/-- The names to rename that do not exist. -/
def missingSources (pending : NameMap String) (existing : NameSet) : List String :=
  pending.names.filter (· ∉ existing)

/-- The names that several names are to become. -/
def sharedTargets (pending : NameMap String) : List String :=
  ((sourcesByTarget pending).filter fun _ sources => 1 < sources.length).names

/-- The new names that exist and stay. -/
def takenTargets (pending : NameMap String) (existing : NameSet) : List String :=
  (pending.entries.map Prod.snd).filter fun target => target ∈ existing ∧ target ∉ pending

/-- The temporary names to try: the plain one, then the numbered ones. -/
def candidate (base : String) (n : Nat) : String :=
  if n = 0 then base else base ++ "_" ++ toString n

/-- The first candidate from the `n`-th on that is free, or the one after `tries` taken ones. -/
def firstFree (taken : NameSet) (base : String) : (tries n : Nat) → String
  | 0, n => candidate base n
  | tries + 1, n =>
    if candidate base n ∈ taken then firstFree taken base tries (n + 1) else candidate base n

/-- A temporary name that is not taken. One more candidate than there are taken
names is enough to find it. -/
def temporaryName (tempPrefix source : String) (taken : NameSet) : String :=
  firstFree taken (tempPrefix ++ source) taken.size 0

/-- Entries moved aside so far. -/
structure Aside where
  /-- Names that may not be used for another temporary. -/
  taken : NameSet
  steps : List Step
  /-- The renaming that is left, by the names as they are now. -/
  remaining : NameMap String

/-- Move an entry aside if its new name is still to be renamed. -/
def Aside.admit (tempPrefix : String) (pending : NameMap String) (aside : Aside)
    (source target : String) : Aside :=
  if target ∈ pending then
    let temporary := temporaryName tempPrefix source aside.taken
    { taken := NameSet.add aside.taken temporary
      steps := aside.steps ++ [⟨source, temporary⟩]
      remaining := aside.remaining.insertNew temporary target }
  else { aside with remaining := aside.remaining.insertNew source target }

/-- Move aside every entry whose new name is still to be renamed. -/
def setAside (tempPrefix : String) (pending : NameMap String) (existing : NameSet) : Aside :=
  let targets := (pending.entries.map Prod.snd).foldl NameSet.add existing
  pending.entries.foldl (fun aside e => aside.admit tempPrefix pending e.1 e.2) ⟨targets, [], ∅⟩

/-- One pass over the entries that remain: rename those whose new name is free. -/
def pass : List (String × String) → NameMap String → List Step × NameMap String
  | [], remaining => ([], remaining)
  | (source, target) :: rest, remaining =>
    if target ∈ remaining then pass rest remaining
    else
      let (steps, left) := pass rest (remaining.erase source)
      (⟨source, target⟩ :: steps, left)

/-- Passes until nothing remains. -/
def settle (remaining : NameMap String) : Except Fault (List Step) :=
  if remaining.isEmpty then .ok []
  else
    let (steps, left) := pass remaining.entries remaining
    if left.size < remaining.size then (steps ++ ·) <$> settle left
    else .error (.noProgress left.names)
termination_by remaining.size

/-- The steps that rename the existing names as the mapping says. -/
def plan (mapping : NameMap String) (existing : NameSet) (tempPrefix : String) :
    Except Fault (List Step) :=
  let pending := moving mapping
  let missing := missingSources pending existing
  let shared := sharedTargets pending
  let conflicts := takenTargets pending existing
  if missing ≠ [] then .error (.missing missing)
  else if shared ≠ [] then .error (.collision shared)
  else if conflicts ≠ [] then .error (.conflict conflicts)
  else
    let aside := setAside tempPrefix pending existing
    (aside.steps ++ ·) <$> settle aside.remaining

end Mannequin.Renaming
