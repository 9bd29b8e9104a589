import Mannequin.Journal
import Mannequin.NameMap
import Mannequin.Path

/-!
# Logs

A log prints its lines and remembers the latest of them. It can also write them
to a file that is named after a program and a time, until it is shut down.

Only one file can be written at a time. Starting another one before the log is
shut down opens nothing and ends the writing to the first. A file that cannot be
opened is passed over.
-/

namespace Mannequin

/-- A folder under which the folder of the log files is made, if that can be done. -/
structure LogRoot where
  path : String
  available : Bool
  deriving DecidableEq, Repr

/-- What happens to a log. -/
inductive LogEvent where
  | tell (line : Line)
  | start
  | startFile (program time : String) (root : LogRoot)
  | shutdown
  deriving DecidableEq, Repr

/-- The file that a log has open. -/
inductive LogFile where
  | closed
  /-- A file of the log folder. -/
  | writing (name : String)
  /-- No file of the log folder is written: another one was to be opened in the
  meantime, or the file lies elsewhere. -/
  | detached
  deriving DecidableEq, Repr

/-- A log. -/
structure Log where
  /-- The latest lines, oldest first. -/
  latest : List Line
  /-- The lines of the files in the log folder, by the names of the files. -/
  files : NameMap (List Line)
  file : LogFile
  deriving DecidableEq

namespace LogRoot

/-- The folder of the log files. -/
def folder (root : LogRoot) : String := root.path ++ "/build/logs"

/-- The names of the folders that are made under a root, from the log folder upwards. -/
def folders : List String := ["logs", "build"]

end LogRoot

namespace LogEvent

/-- The lines that a log prints on an event. -/
def lines : LogEvent → List Line
  | tell line => [line]
  | start => [⟨.info, "log init"⟩]
  | startFile _ _ root =>
    let unavailable : List Line :=
      if root.available then [] else [⟨.warn, "log directory unavailable: " ++ root.folder⟩]
    [⟨.info, "log init"⟩] ++ unavailable ++ [⟨.info, "build: release"⟩]
  | shutdown => [⟨.info, "log shutdown"⟩]

end LogEvent

namespace Log

/-- The number of lines that a log remembers. -/
def capacity : Nat := 200

def empty : Log := ⟨[], ∅, .closed⟩

/-- The last items of a list, as many as a number says. -/
def lastOf {β : Type} (n : Nat) (l : List β) : List β := l.drop (l.length - n)

/-- The latest lines, at most a given number. -/
def recent (log : Log) (max : Nat) : List Line := lastOf max log.latest

/-- The files after a line was written. -/
def filesWith (log : Log) (line : Line) : NameMap (List Line) :=
  match log.file with
  | .writing name => log.files.insert name ((log.files.get? name).getD [] ++ [line])
  | _ => log.files

/-- Remember a line, and write it to the file that is open. -/
def tell (log : Log) (line : Line) : Log :=
  { log with latest := lastOf capacity (log.latest ++ [line]), files := log.filesWith line }

/-- The end of a log file's name. -/
def nameEnd (time : String) : String := "_" ++ time ++ ".log"

/-- Open a file in the log folder or elsewhere, if the path leads to one. -/
def openPath (log : Log) (path : String) : Log :=
  match Path.file? LogRoot.folders (Path.followed path) with
  | none => log
  | some (0, name) => { log with files := log.files.insertNew name [], file := .writing name }
  | some (_, _) => { log with file := .detached }

/-- Open the file of a program. -/
def openFile (log : Log) (program time : String) : Log :=
  if log.file = .closed then log.openPath (program ++ nameEnd time)
  else { log with file := .detached }

/-- What is done before the lines of an event are told. -/
def before (log : Log) : LogEvent → Log
  | .startFile program time root => if root.available then log.openFile program time else log
  | _ => log

/-- What is done after the lines of an event were told. -/
def after (log : Log) : LogEvent → Log
  | .shutdown => { log with file := .closed }
  | _ => log

/-- Take an event. -/
def step (log : Log) (event : LogEvent) : Log :=
  (event.lines.foldl tell (log.before event)).after event

end Log

end Mannequin
