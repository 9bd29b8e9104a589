import Mannequin.Skeleton.Assembly

/-!
# Skeletons as tables

A skeleton that is worked on is kept in three tables side by side: its bones, their
frames, and the place of every name in both. Bones are added at the end and lose their
parents where they stand, and everything is looked up through the places.

A skeleton is loaded on tables of its own, which replace those at hand when all is done.
-/

namespace Mannequin

/-- The bones of a skeleton, their frames, and where each name stands in both. -/
structure BoneTable (α : Type) where
  bones : List (Bone α)
  frames : List (BoneFrame α)
  positions : NameMap Nat
  deriving DecidableEq

/-- Tables that are worked on, and what the work tells. -/
structure Desk (α : Type) where
  table : BoneTable α
  journal : Journal

/-- Work on tables. It may fail, and leaves behind what it has done until then. -/
abbrev Tabling (α : Type) := ExceptT Error (StateM (Desk α))

namespace BoneTable

variable {α : Type}

def empty : BoneTable α := ⟨[], [], ∅⟩

def contains (t : BoneTable α) (name : String) : Bool := t.positions.contains name

def bone? (t : BoneTable α) (name : String) : Option (Bone α) :=
  (t.positions.get? name).bind fun i => t.bones[i]?

def frame? (t : BoneTable α) (name : String) : Option (BoneFrame α) :=
  (t.positions.get? name).bind fun i => t.frames[i]?

/-! ### Work on the tables at hand -/

def edit (change : BoneTable α → BoneTable α) : Tabling α Unit :=
  modify fun desk => { desk with table := change desk.table }

/-- Work that does not touch the tables. -/
def aside {β : Type} (work : Journaled β) : Tabling α β :=
  ExceptT.mk fun desk =>
    let (result, journal) := work.run.run desk.journal
    (result, { desk with journal })

/-- Drop the parent of the bone of a name. A name without a place gets the first one. -/
def dropParent (name : String) : Tabling α Unit := do
  edit fun t => { t with positions := t.positions.insertNew name 0 }
  edit fun t => { t with
    bones := t.bones.modify ((t.positions.get? name).getD 0) fun bone =>
      { bone with parent := none } }

/-- Drop the parent of a bone if there is no bone of its name. -/
def settleParent (bone : Bone α) : Tabling α Unit :=
  match bone.parent with
  | none => pure ()
  | some parent => do
    if (← get).table.contains parent then pure ()
    else do
      aside (Skeleton.reportParent bone.name parent)
      dropParent bone.name

variable [Scalar α]

/-- Add a bone at the end. -/
def add (bone : Bone α) (epsilon : α) : Tabling α Unit := do
  if (← get).table.contains bone.name then
    refuse (SkeletonFault.duplicate bone.name) (BoneFrame.location bone.name).render
  else do
    let frame ← BoneFrame.ofEnds bone.name bone.head bone.tail epsilon
    edit fun t => { t with positions := t.positions.insert bone.name t.bones.length }
    edit fun t => { t with bones := t.bones ++ [bone] }
    edit fun t => { t with frames := t.frames ++ [frame] }

/-- Add the image of the bone that an entry mirrors. -/
def addMirror (epsilon : α) (name mirror : String) : Tabling α Unit := do
  let table := (← get).table
  match table.bone? mirror with
  | none => aside (Skeleton.reportSource name mirror)
  | some source => add (Skeleton.imageOf table.contains name source) epsilon

/-- Assemble a skeleton from base bones and entries. -/
def assemble (base : List (Bone α)) (entries : List (BoneEntry α)) (epsilon : α) :
    Tabling α Unit := do
  let bones ← Skeleton.overlay base [] (entries.filter fun entry => entry.mirror.isNone)
  bones.forM fun bone => add bone epsilon
  bones.forM settleParent
  let mirrors := entries.filterMap fun entry => entry.mirror.map fun mirror => (entry.name, mirror)
  mirrors.forM fun (name, mirror) => addMirror epsilon name mirror

/-! ### Loads -/

/-- Work on new tables, which replace those at hand if it succeeds. -/
def afresh (work : Tabling α Unit) : Tabling α Unit :=
  ExceptT.mk fun desk =>
    match work.run.run ⟨empty, desk.journal⟩ with
    | (.ok (), done) => (.ok (), done)
    | (.error e, failed) => (.error e, { desk with journal := failed.journal })

/-- Load the skeleton that a written list describes on its own. -/
def loadList (list : Json α) (epsilon : α) : Tabling α Unit :=
  afresh do
    let entries ← Skeleton.readEntries list
    assemble [] entries epsilon

/-- Load the skeleton that a preset and a written list describe. -/
def loadRecipe (preset list : Json α) (epsilon : α) : Tabling α Unit :=
  afresh do
    let given ← aside (Skeleton.outline preset list)
    assemble given.base given.entries epsilon

/-- What can be done to the tables from outside. -/
inductive Operation (α : Type) where
  | add (bone : Bone α) (epsilon : α)
  | loadList (list : Json α) (epsilon : α)
  | loadRecipe (preset list : Json α) (epsilon : α)

namespace Operation

def perform : Operation α → Tabling α Unit
  | .add bone epsilon => BoneTable.add bone epsilon
  | .loadList list epsilon => BoneTable.loadList list epsilon
  | .loadRecipe preset list epsilon => BoneTable.loadRecipe preset list epsilon

/-- Perform operations one after the other, and go on where one fails. -/
def performAll (operations : List (Operation α)) (desk : Desk α) : Desk α :=
  operations.foldl (fun desk operation => (operation.perform.run.run desk).2) desk

end Operation

end BoneTable

end Mannequin
