/-!
# Errors

An error says what kind of thing went wrong, describes it, and names the place
in the input where it was found. Each part of the library lists its own causes
of failure as a type; a cause fixes the kind and the wording, and the place is
added where the cause is raised.
-/

namespace Mannequin

/-- What kind of thing went wrong. -/
inductive ErrorKind where
  /-- A field has the wrong type or arity. -/
  | shape
  /-- A number is not finite, not positive or outside its bounds. -/
  | range
  /-- A chain of mirror records comes back to itself. -/
  | cycle
  /-- A name refers to nothing. -/
  | missingTarget
  /-- Several names would become one. -/
  | collision
  /-- A name is already taken. -/
  | conflict
  /-- A plan made no progress. -/
  | internal
  /-- A mesh kernel refused a call. -/
  | kernel
  deriving DecidableEq, Repr

namespace ErrorKind

/-- The word for a kind. -/
def name : ErrorKind → String
  | shape => "shape"
  | range => "range"
  | cycle => "cycle"
  | missingTarget => "missing_target"
  | collision => "collision"
  | conflict => "conflict"
  | internal => "internal"
  | kernel => "kernel"

/-- The kinds in the order of their codes, which start at one. -/
def all : List ErrorKind :=
  [shape, range, cycle, missingTarget, collision, conflict, internal, kernel]

end ErrorKind

/-- An outcome as it is reported by number. -/
inductive Status where
  | ok
  | failed (kind : ErrorKind)
  /-- A code that stands for nothing. -/
  | unknown
  deriving DecidableEq, Repr

namespace Status

/-- Code zero is success, the codes from one on are the error kinds in order. -/
def ofCode (code : Int) : Status :=
  if code = 0 then ok
  else if code < 0 then unknown
  else match ErrorKind.all[code.toNat - 1]? with
    | some kind => failed kind
    | none => unknown

def name : Status → String
  | ok => "ok"
  | failed kind => kind.name
  | unknown => "unknown"

/-- One line for an outcome: the word for it, the place if there is one, the message. -/
def describe (status : Status) (message path : String) : String :=
  "[" ++ status.name ++ "] " ++ (if path = "" then "" else path ++ ": ") ++ message

end Status

/-- A failure: its kind, a message and the place it belongs to. -/
structure Error where
  kind : ErrorKind
  message : String
  path : String
  deriving DecidableEq, Repr

namespace Error

def describe (e : Error) : String := Status.describe (.failed e.kind) e.message e.path

end Error

/-- A type of causes of failure, each with its kind and its wording. -/
class Cause (ε : Type) where
  kind : ε → ErrorKind
  message : ε → String

/-- The error of a cause at a place. -/
def Cause.error {ε : Type} [Cause ε] (cause : ε) (path : String) : Error :=
  ⟨Cause.kind cause, Cause.message cause, path⟩

/-- Fail with a cause at a place. -/
def refuse {ε β : Type} [Cause ε] (cause : ε) (path : String) : Except Error β :=
  .error (Cause.error cause path)

end Mannequin
