import Mannequin.Error

/-!
# Journals

Work on a character can meet soft problems: part of it is skipped and the rest
goes on. Each is told twice, as a warning that names its bone and as a line for
the log. A task keeps both in a journal, which survives a failure of the task.
-/

namespace Mannequin

/-- How much a log line matters. -/
inductive Level where
  | info
  | warn
  | error
  deriving DecidableEq, Repr

/-- A line of the log. -/
structure Line where
  level : Level
  text : String
  deriving DecidableEq, Repr

/-- A soft problem of one bone. -/
structure Warning where
  bone : String
  reason : String
  deriving DecidableEq, Repr

namespace Level

def tag : Level → String
  | info => "INFO"
  | warn => "WARN"
  | error => "ERROR"

end Level

namespace Line

def render (line : Line) : String := "[" ++ line.level.tag ++ "] " ++ line.text

/-- A line as it is printed: its text may hold line breaks. -/
def printed (line : Line) : List String := line.render.splitOn "\n"

end Line

namespace Warning

/-- The log line of a warning. -/
def line (warning : Warning) : Line :=
  ⟨.warn, "bone '" ++ warning.bone ++ "': " ++ warning.reason⟩

end Warning

/-- What a task has told so far, in order. -/
structure Journal where
  lines : List Line
  warnings : List Warning
  deriving DecidableEq, Repr

namespace Journal

def empty : Journal := ⟨[], []⟩

end Journal

/-- Work that keeps a journal and may fail. -/
abbrev Journaled := ExceptT Error (StateM Journal)

namespace Journaled

variable {β : Type}

/-- Carry out a task with an empty journal. -/
def start (work : Journaled β) : Except Error β × Journal := work.run.run Journal.empty

/-- Tell a line. -/
def tell (line : Line) : Journaled Unit :=
  modify fun journal => { journal with lines := journal.lines ++ [line] }

def info (text : String) : Journaled Unit := tell ⟨.info, text⟩

/-- Keep a warning. -/
def note (warning : Warning) : Journaled Unit :=
  modify fun journal => { journal with warnings := journal.warnings ++ [warning] }

/-- Tell a soft problem of a bone. -/
def warn (bone reason : String) : Journaled Unit := do
  let warning : Warning := ⟨bone, reason⟩
  tell warning.line
  note warning

/-- Keep a warning, and tell a line about it that has a text of its own. -/
def noteAs (text : String) (warning : Warning) : Journaled Unit := do
  note warning
  tell ⟨.warn, text⟩

/-- The warnings told so far. -/
def warnings : Journaled (List Warning) := do return (← get).warnings

end Journaled

end Mannequin
