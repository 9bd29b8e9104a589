/-!
# Paths

A path leads from the current folder step by step to a file or a folder. Of the
folders around it only those above the current one are known by name; a step
into any other folder leads nowhere.
-/

namespace Mannequin.Path

/-- The greatest size of a name, in bytes. -/
def nameLimit : Nat := 255

/-- The path that is followed: it ends at the first NUL. -/
def followed (path : String) : String := String.ofList (path.toList.takeWhile (· ≠ '\x00'))

/-- The steps of a path. -/
def steps (path : String) : List String :=
  (path.toList.foldr (fun c steps => if c = '/' then [] :: steps else steps.modifyHead (c :: ·))
    [[]]).map String.ofList

/-- The last step of a path. -/
def name (path : String) : String := (steps path).getLast?.getD ""

/-- Whether a step stays in a folder or goes up from it, so that it names no file. -/
def isFolderStep (step : String) : Bool := step = "" || step = "." || step = ".."

/-- How many folders above the current one a walk ends that starts `up` folders above
it. The names of the folders are listed from the current one upwards. -/
def walk (folders : List String) : (up : Nat) → List String → Option Nat
  | up, [] => some up
  | up, step :: rest =>
    if step = ".." then walk folders (up + 1) rest
    else if isFolderStep step then walk folders up rest
    else
      match up with
      | 0 => none
      | below + 1 => if folders[below]? = some step then walk folders below rest else none

/-- How many folders above the current one the last step of a path is taken. A path
that starts with a slash starts above all folders that are known. -/
def folder? (folders : List String) (path : String) : Option Nat :=
  let start := if path.toList.head? = some '/' then folders.length + 1 else 0
  walk folders start (steps path).dropLast

/-- Where a file can be written under a path: how many folders above the current one,
and under which name. -/
def file? (folders : List String) (path : String) : Option (Nat × String) :=
  if isFolderStep (name path) ∨ nameLimit < (name path).utf8ByteSize then none
  else (folder? folders path).map (·, name path)

/-- What is read under a path after content, if there is any, was to be written under
it in an empty folder. A folder is read as no bytes. -/
def readBack? (path : String) (content? : Option ByteArray) : Option ByteArray :=
  let path := followed path
  if path = "" then none
  else if isFolderStep (name path) then (folder? [] path).map fun _ => ByteArray.empty
  else if (file? [] path).isSome then content?
  else none

example : steps "a//b/" = ["a", "", "b", ""] := by decide +kernel
example : file? ["logs", "build"] "./../logs/x" = some (0, "x") := by decide +kernel
example : file? ["logs", "build"] "../x" = some (1, "x") := by decide +kernel
example : file? ["logs", "build"] "up/x" = none := by decide +kernel

end Mannequin.Path
