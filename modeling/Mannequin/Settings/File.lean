import Mannequin.Journal
import Mannequin.Json.Reader
import Mannequin.Path
import Mannequin.Settings

/-!
# Settings files

Settings can be kept in a JSON file, in its root or in a section of it. Loading
a file always gives settings. An entry that is left out, is of another type or
is out of range keeps its standard value, whatever the other entries hold, and
the log is told of the values that are out of range.
-/

namespace Mannequin

/-- Settings with what the log is told about the file they come from. -/
structure LoadedSettings (α : Type) where
  settings : Settings α
  lines : List Line

/-- Why a settings file, or an entry of one, is not used. -/
inductive SettingsFault where
  | notFound (file : String)
  | notObject (file : String)
  | sectionNotObject
  | yamlDisabled
  | unknownExtension
  | refused (entry demand : String)
  deriving DecidableEq, Repr

namespace SettingsFault

def message : SettingsFault → String
  | notFound file => "generator config not found: " ++ file
  | notObject file => "generator config is not a JSON object: " ++ file
  | sectionNotObject => "generator config section is not an object; using defaults"
  | yamlDisabled => "YAML generator config requested but YAML support is disabled."
  | unknownExtension => "Unknown generator config extension; using defaults."
  | refused entry demand => "generator." ++ entry ++ " " ++ demand ++ "; keeping default"

def line (fault : SettingsFault) : Line := ⟨.warn, fault.message⟩

end SettingsFault

/-- An entry of a settings file. -/
structure SettingsEntry (α β : Type) where
  name : String
  /-- The value that is written, if it is of the right type. -/
  read? : Json α → Option β
  /-- Whether a value is in range. -/
  accepts : β → Bool
  /-- What is demanded of a value, as refusals quote it. -/
  demand : String

namespace SettingsEntry

variable {α β : Type} (entry : SettingsEntry α β)

/-- What a section holds for an entry, if it is of the right type. -/
def written? (table : Json α) : Option β := (table.member? entry.name).bind entry.read?

/-- The value in force. -/
def value (standard : β) (table : Json α) : β :=
  ((entry.written? table).filter entry.accepts).getD standard

/-- The refusal of a value that is out of range. -/
def fault? (table : Json α) : Option SettingsFault :=
  ((entry.written? table).filter (!entry.accepts ·)).map fun _ =>
    .refused entry.name entry.demand

end SettingsEntry

namespace Settings

variable {α : Type}

/-! ### Entries -/

def tempPrefixEntry : SettingsEntry α String where
  name := "temp_prefix"
  read?
    | .str text => some text
    | _ => none
  accepts text := text ≠ ""
  demand := "must not be empty"

def strictBonesEntry : SettingsEntry α Bool where
  name := "strict_bones"
  read?
    | .bool flag => some flag
    | _ => none
  accepts _ := true
  demand := "must be a boolean"

/-- The greatest number of segments that a file can ask for. -/
def maxSegments : Nat := 4096

/-- An integer as a signed word of 64 bits holds it: one that does not fit wraps around. -/
def signedWord (n : Int) : Int := n.bmod (Nat.pow 2 64)

def defaultSegmentsEntry : SettingsEntry α Int where
  name := "default_segments"
  read?
    | .int n => some (signedWord n)
    | _ => none
  accepts n := (Profile.minSegments : Int) ≤ n ∧ n ≤ maxSegments
  demand := "must be in [3, 4096]"

variable [Scalar α]

def degenerateEpsilonEntry : SettingsEntry α α where
  name := "degenerate_epsilon"
  read? := Json.number?
  accepts x := Scalar.IsPositive x
  demand := "must be positive"

def bindWeightEntry : SettingsEntry α α where
  name := "bind_weight"
  read? := Json.number?
  accepts x := Scalar.isFinite x ∧ ¬ x < 0 ∧ ¬ 1 < x
  demand := "must be in [0, 1]"

/-! ### Sections -/

/-- The settings of a section. -/
def ofSection (table : Json α) : Settings α :=
  let kept : Settings α := standard
  { tempPrefix := tempPrefixEntry.value kept.tempPrefix table
    degenerateEpsilon := degenerateEpsilonEntry.value kept.degenerateEpsilon table
    bindWeight := bindWeightEntry.value kept.bindWeight table
    strictBones := strictBonesEntry.value kept.strictBones table
    defaultSegments := (defaultSegmentsEntry.value kept.defaultSegments table).toNat }

/-- The refused entries of a section. -/
def sectionFaults (table : Json α) : List SettingsFault :=
  [tempPrefixEntry.fault? table,
   degenerateEpsilonEntry.fault? table,
   bindWeightEntry.fault? table,
   strictBonesEntry.fault? table,
   defaultSegmentsEntry.fault? table].filterMap id

/-- The section of a file that holds the settings. -/
def sectionOf (file : Json α) : Json α := (file.member? "generator").getD file

/-! ### Files -/

/-- Standard settings in place of a file that cannot be used. -/
def unusable (fault : SettingsFault) : LoadedSettings α := ⟨standard, [fault.line]⟩

/-- The settings of a JSON file, given the value it holds if it holds one. -/
def ofJson? (file : String) : Option (Json α) → LoadedSettings α
  | some (.obj members) =>
    match sectionOf (.obj members) with
    | .obj entries =>
      ⟨ofSection (.obj entries), (sectionFaults (.obj entries)).map SettingsFault.line⟩
    | _ => unusable .sectionNotObject
  | _ => unusable (.notObject file)

/-- The end of a file's name from its last dot on. A dot that the name starts with
does not count. -/
def extension (file : String) : String :=
  let name := (Path.name file).toList
  let tail := (name.reverse.takeWhile (· ≠ '.')).reverse
  if tail.length + 1 < name.length ∧ name ≠ ['.', '.'] then String.ofList ('.' :: tail) else ""

example : extension "a.b.json" = ".json" := by decide +kernel
example : extension ".json" = "" := by decide +kernel
example : extension "..json" = ".json" := by decide +kernel
example : extension "settings" = "" := by decide +kernel

/-- The settings of a file, given its bytes if there is such a file. -/
def load (file : String) (content? : Option ByteArray) : LoadedSettings α :=
  match content? with
  | none => unusable (.notFound file)
  | some bytes =>
    match extension file with
    | ".json" => ofJson? file (Json.ofBytes? bytes)
    | ".yaml" => unusable .yamlDisabled
    | ".yml" => unusable .yamlDisabled
    | _ => unusable .unknownExtension

end Settings

end Mannequin
