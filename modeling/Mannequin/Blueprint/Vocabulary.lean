import Mannequin.Field

/-!
# The vocabulary of definitions

Definitions name primitives, boolean operations and ways to connect two ends by
words. This module holds the words, and the causes for which a definition is
refused.
-/

namespace Mannequin

/-- The primitives that a mesh kernel can create. -/
inductive PrimitiveKind where
  | cube
  | sphere
  | cylinder
  | cone
  | torus
  | plane
  | icoSphere
  deriving DecidableEq, Repr

/-- The boolean operations on meshes. -/
inductive BoolOp where
  | union
  | difference
  | intersect
  deriving DecidableEq, Repr

/-- How the end of a bone mesh meets the mesh of the next bone. -/
inductive ConnectMode where
  | segmented
  | bridge
  deriving DecidableEq, Repr

/-- Why a definition is refused. -/
inductive BlueprintFault where
  | unknownPrimitive (word : String)
  | unknownOperation (word : String)
  | unknownMode (word : String)
  | pairSize
  | bulgePair
  | bulgeMembers
  | bulgeList
  | notList (name : String)
  | noDimensions
  | noSpan
  | blankAsset
  | attachmentKind
  | extrudeNotAlone
  | modifierKind
  | fewSegments
  | fewCuts
  | noExtrude
  | shapeKind
  | noBase
  | noTarget
  | partWithSteps
  | partWithDeformation
  | noPlacement
  deriving DecidableEq, Repr

namespace BlueprintFault

def message : BlueprintFault → String
  | unknownPrimitive word =>
    "unknown primitive '" ++ word ++
      "'; expected cube, sphere, cylinder, cone, torus, plane or ico_sphere"
  | unknownOperation word =>
    "unknown bool operation '" ++ word ++ "'; expected union, difference or intersect"
  | unknownMode word =>
    "unknown connection mode '" ++ word ++ "'; expected segmented or bridge"
  | pairSize => "expected a number or a [x, y] pair"
  | bulgePair => "bulge point must be [at, scale]"
  | bulgeMembers => "bulge point requires 'at' and 'scale'"
  | bulgeList => "bulge must be a list of control points"
  | notList name => name ++ " must be a list"
  | noDimensions => "primitive attachment requires 'dimensions'"
  | noSpan => "extrude attachment requires 'start' and 'end'"
  | blankAsset => "asset path must be a non-empty string"
  | attachmentKind => "attachment must carry exactly one of 'primitive', 'extrude' or 'asset'"
  | extrudeNotAlone => "extrude attachment must not carry other fields"
  | modifierKind => "modifier must carry exactly one of 'bevel', 'subdivide' or 'bool'"
  | fewSegments => "bevel segments must be >= 1"
  | fewCuts => "subdivide cuts must be >= 1"
  | noExtrude => "extrusion step requires 'extrude'"
  | shapeKind => "part shape must carry exactly one of 'primitive' or 'asset'"
  | noBase => "part requires 'base'"
  | noTarget => "part operation requires 'target'"
  | partWithSteps => "part and extrusion_steps are mutually exclusive; choose one"
  | partWithDeformation =>
    "part replaces the extruded segment; taper, bulge and twist do not apply"
  | noPlacement => "bool shape requires 'dimensions' and 'position'"

def kind : BlueprintFault → ErrorKind
  | fewSegments => .range
  | fewCuts => .range
  | _ => .shape

instance : Cause BlueprintFault := ⟨kind, message⟩

end BlueprintFault

variable {α : Type}

namespace PrimitiveKind

def name : PrimitiveKind → String
  | cube => "cube"
  | sphere => "sphere"
  | cylinder => "cylinder"
  | cone => "cone"
  | torus => "torus"
  | plane => "plane"
  | icoSphere => "ico_sphere"

def all : List PrimitiveKind := [cube, sphere, cylinder, cone, torus, plane, icoSphere]

/-- The primitive of a name. -/
def ofName? (word : String) : Option PrimitiveKind := all.find? fun kind => kind.name = word

theorem ofName?_name (kind : PrimitiveKind) : ofName? kind.name = some kind := by
  cases kind <;> decide

/-- Read the name of a primitive. -/
def ofJson (loc : Location) (value : Json α) : Except Error PrimitiveKind := do
  let word ← Field.string loc value
  match ofName? word with
  | some kind => return kind
  | none => refuse (BlueprintFault.unknownPrimitive word) loc.render

end PrimitiveKind

namespace BoolOp

def name : BoolOp → String
  | union => "union"
  | difference => "difference"
  | intersect => "intersect"

/-- The operation of a word. Two of them have a second word. -/
def ofWord? (word : String) : Option BoolOp :=
  if word = "union" then some union
  else if word = "difference" ∨ word = "subtract" then some difference
  else if word = "intersect" ∨ word = "intersection" then some intersect
  else none

theorem ofWord?_name (op : BoolOp) : ofWord? op.name = some op := by
  cases op <;> decide

/-- Read the word for an operation. -/
def ofJson (loc : Location) (value : Json α) : Except Error BoolOp := do
  let word ← Field.string loc value
  match ofWord? word with
  | some op => return op
  | none => refuse (BlueprintFault.unknownOperation word) loc.render

end BoolOp

namespace ConnectMode

def name : ConnectMode → String
  | segmented => "segmented"
  | bridge => "bridge"

/-- The mode of a name. -/
def ofName? (word : String) : Option ConnectMode :=
  [segmented, bridge].find? fun mode => mode.name = word

theorem ofName?_name (mode : ConnectMode) : ofName? mode.name = some mode := by
  cases mode <;> decide

/-- Read the name of a mode. -/
def ofJson (loc : Location) (value : Json α) : Except Error ConnectMode := do
  let word ← Field.string loc value
  match ofName? word with
  | some mode => return mode
  | none => refuse (BlueprintFault.unknownMode word) loc.render

end ConnectMode

end Mannequin
