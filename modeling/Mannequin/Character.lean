import Mannequin.Alias
import Mannequin.Blueprint.Reflection
import Mannequin.Character.Bridge
import Mannequin.Skeleton.Assembly

/-!
# Characters

A recipe for a character gives a skeleton, a definition of a mesh for each of
its bones, named shapes for boolean modifiers, and the number of material slots.
Resolving it reads every definition, checks that its names and indices refer to
something, and places everything on the skeleton.

Definitions are taken in the order of their names. One that mirrors the bone of
the opposite side is reflected. A mesh for a bone that the skeleton does not
have is skipped with a warning, or refused when the settings are strict.
-/

namespace Mannequin

/-- A character with everything placed in the world. -/
structure Character (α : Type) where
  /-- In the order of the names. -/
  meshes : List (BoneMesh α)
  /-- In the order of the children. -/
  bridges : List Bridge
  boolShapes : NameMap (BoolShape α)
  warnings : List Warning

/-- Why a recipe is refused as a whole. -/
inductive CharacterFault where
  | noBoneMeshes
  | slotsNotList
  | slotOutOfRange (index count : Nat)
  | unknownTarget (target : String)
  | unknownAnchor (shape bone : String)
  | unknownBone (bone : String)
  deriving DecidableEq, Repr

namespace CharacterFault

def kind : CharacterFault → ErrorKind
  | noBoneMeshes => .shape
  | slotsNotList => .shape
  | slotOutOfRange _ _ => .range
  | unknownTarget _ => .missingTarget
  | unknownAnchor _ _ => .missingTarget
  | unknownBone _ => .missingTarget

def message : CharacterFault → String
  | noBoneMeshes => "'bone_meshes' must not be empty"
  | slotsNotList => "material_slots must be a list"
  | slotOutOfRange index count =>
    "material_index " ++ toString index ++ " out of range for material_slots (len=" ++
      toString count ++ ")"
  | unknownTarget target =>
    "bool modifier target '" ++ target ++ "' not found in bool_shapes"
  | unknownAnchor shape bone =>
    "bool_shapes['" ++ shape ++ "'].bone refers to unknown bone '" ++ bone ++ "'"
  | unknownBone bone => "bone_meshes key '" ++ bone ++ "' refers to unknown bone"

instance : Cause CharacterFault := ⟨kind, message⟩

end CharacterFault

namespace Character

variable {α : Type} [Scalar α]

/-! ### References -/

/-- Demand that a material index, if there is one, is a slot. -/
def checkSlot (loc : Location) (slots : Nat) : Option Nat → Except Error Unit
  | none => .ok ()
  | some index =>
    if index < slots then .ok ()
    else refuse (CharacterFault.slotOutOfRange index slots) (Location.key loc "material_index").render

/-- Demand that boolean modifiers combine with shapes that exist. -/
def checkTargets (loc : Location) (shapes : NameMap (BoolShape α)) (index : Nat) :
    List (Blueprint.Modifier α) → Except Error Unit
  | [] => .ok ()
  | .boolean _ target :: rest =>
    if target ∈ shapes then checkTargets loc shapes (index + 1) rest
    else
      refuse (CharacterFault.unknownTarget target)
        (Location.key (.key (.item loc index) "bool") "target").render
  | _ :: rest => checkTargets loc shapes (index + 1) rest

/-- Demand that the material indices of attached primitives are slots. -/
def checkAttachments (loc : Location) (slots : Nat) (index : Nat) :
    List (Blueprint.Attachment α) → Except Error Unit
  | [] => .ok ()
  | .primitive shape :: rest => do
    checkSlot (.item loc index) slots shape.material
    checkAttachments loc slots (index + 1) rest
  | _ :: rest => checkAttachments loc slots (index + 1) rest

/-- Demand that a definition refers to slots and shapes that exist. -/
def checkReferences (loc : Location) (shapes : NameMap (BoolShape α)) (slots : Nat)
    (mesh : Blueprint.BoneMesh α) : Except Error Unit := do
  checkSlot loc slots mesh.material
  checkTargets (.key loc "modifiers") shapes 0 mesh.modifiers
  checkAttachments (.key loc "attachments") slots 0 mesh.attachments

/-! ### Definitions -/

/-- Whether a definition under a key is taken from the bone of the opposite side. -/
def CrossesSides (key source : String) : Prop := key ≠ source ∧ Side.mirrorName source = key

instance (key source : String) : Decidable (CrossesSides key source) :=
  inferInstanceAs (Decidable (_ ∧ _))

/-- Why the request of a part at its start is ignored. -/
def partStart : String := "connect_start='bridge' is ignored when part is set"

/-- Why the request of a part at its end is ignored. -/
def partEnd : String := "connect_end='bridge' is ignored when part is set"

/-- The mesh of a definition without bridges at its ends. A part has no open ends. -/
def dropBridges (bone : String) (mesh : Blueprint.BoneMesh α) : Journaled (Blueprint.BoneMesh α) :=
  if mesh.part.isSome then do
    if mesh.connectStart = .bridge then Journaled.warn bone partStart
    if mesh.connectEnd = .bridge then Journaled.warn bone partEnd
    return { mesh with connectStart := .segmented, connectEnd := .segmented }
  else return mesh

/-- What the definitions of a recipe refer to. -/
structure Context (α : Type) where
  skeleton : Skeleton α
  settings : Settings α
  /-- The table of bone meshes as it is written. -/
  table : Json α
  boolShapes : NameMap (BoolShape α)
  slots : Nat

/-- Read a definition, and reflect it if it comes from the other side. -/
def readMesh (context : Context α) (bone : String) (definition : Json α) :
    Except Error (Blueprint.BoneMesh α) := do
  let loc := BoneMesh.location bone
  let mesh ← Blueprint.BoneMesh.ofJson loc context.settings.defaultSegments definition
  checkReferences loc context.boolShapes context.slots mesh
  if CrossesSides bone (Alias.sourceKey context.table bone) then return mesh.reflect
  else return mesh

/-- Why a definition is skipped. -/
def notFound : String := "bone not found in skeleton; mesh skipped"

/-- The mesh of a definition, unless the skeleton does not have its bone. -/
def resolveMesh (context : Context α) (bone : String) (definition : Json α) :
    Journaled (Option (BoneMesh α)) := do
  let read ← readMesh context bone definition
  let mesh ← dropBridges bone read
  match context.skeleton.joint? bone with
  | some joint =>
    let placed ← mesh.place bone joint.bone.parent joint.frame context.settings
    return some placed
  | none =>
    if context.settings.strictBones then
      refuse (CharacterFault.unknownBone bone) (BoneMesh.location bone).render
    Journaled.warn bone notFound
    return none

/-- Read a bool shape and place it in the frame of its anchor, or in the world. -/
def resolveBoolShape (skeleton : Skeleton α) (name : String) (definition : Json α) :
    Except Error (BoolShape α) := do
  let loc := Location.key (.root "bool_shapes") name
  let shape ← Blueprint.BoolShape.ofJson loc definition
  match shape.bone with
  | none => return shape.place name none
  | some bone =>
    match skeleton.frame? bone with
    | some frame => return shape.place name (some frame)
    | none => refuse (CharacterFault.unknownAnchor name bone) (Location.key loc "bone").render

/-- The number of material slots. -/
def slotCount : Json α → Except Error Nat
  | .null => .ok 0
  | .arr slots => .ok slots.length
  | _ => refuse CharacterFault.slotsNotList "material_slots"

/-- The definitions of a table, mirror records replaced. -/
def definitions (name : String) (table : Json α) : Except Error (NameMap (Json α)) :=
  (Alias.resolve table).mapError (Alias.Fault.error name)

/-! ### Recipes -/

/-- The line that sums up a resolved character. -/
def summary (c : Character α) : String :=
  "resolved " ++ toString c.meshes.length ++ " bone meshes, " ++ toString c.boolShapes.size ++
    " bool shapes, " ++ toString c.bridges.length ++ " bridges, " ++
    toString c.warnings.length ++ " warnings"

/-- Resolve a recipe on a skeleton. -/
def resolveOn (skeleton : Skeleton α) (settings : Settings α) (recipe : Json α) :
    Journaled (Character α) := do
  let earlier ← Journaled.warnings
  Field.object (.root "params") recipe
  let table := recipe.member "bone_meshes"
  let meshDefinitions ← definitions "bone_meshes" table
  if meshDefinitions.isEmpty then refuse CharacterFault.noBoneMeshes "bone_meshes"
  let shapeDefinitions ← definitions "bool_shapes" (recipe.member "bool_shapes")
  let slots ← slotCount (recipe.member "material_slots")
  let boolShapes ← shapeDefinitions.traverse (resolveBoolShape skeleton)
  let context : Context α := { skeleton, settings, table, boolShapes, slots }
  let meshes ← meshDefinitions.entries.filterMapM fun (bone, definition) =>
    resolveMesh context bone definition
  let linked ← Bridge.link meshes
  let warnings := (← Journaled.warnings).drop earlier.length
  let character : Character α :=
    { meshes := linked.meshes, bridges := linked.bridges, boolShapes, warnings }
  Journaled.info character.summary
  return character

/-- Resolve a recipe on the skeleton that it describes itself. The warnings about
the skeleton come first. -/
def resolve (settings : Settings α) (recipe : Json α) : Journaled (Character α) := do
  let earlier ← Journaled.warnings
  Field.object (.root "params") recipe
  let skeleton ← Skeleton.ofRecipe (recipe.member "skeleton_preset") (recipe.member "skeleton")
    settings.degenerateEpsilon
  let early := (← Journaled.warnings).drop earlier.length
  let character ← resolveOn skeleton settings recipe
  return { character with warnings := early ++ character.warnings }

end Character

end Mannequin
