import Mannequin.Blueprint.Part
import Mannequin.Blueprint.BoolShape
import Mannequin.Deformation
import Mannequin.Frame

/-!
# Pieces

A piece is geometry that a mesh kernel can create: what to create, where it
stands in the world, and how it is deformed afterwards. Attachments, the shapes
of parts and bool shapes become pieces once the frame of their bone is known.
-/

namespace Mannequin

/-- What a mesh kernel creates before it is placed. -/
inductive Form where
  /-- A prism over an outline of unit radius, from height zero to height one. -/
  | profile (outline : Profile)
  /-- A primitive of unit size about the origin. -/
  | primitive (kind : PrimitiveKind)
  /-- An external asset in its own units. -/
  | asset (path : String)
  deriving DecidableEq, Repr

/-- One piece of geometry in the world. -/
structure Piece (α : Type) where
  form : Form
  world : Transform α
  /-- How the piece is deformed, if it is an extrusion. -/
  field : Option (Deformation α)
  material : Option Nat
  deriving DecidableEq

/-- A named piece for boolean modifiers. -/
structure BoolShape (α : Type) where
  name : String
  piece : Piece α
  /-- The bone that the shape is anchored to. -/
  anchor : Option String
  deriving DecidableEq

variable {α : Type} [Scalar α]

namespace Blueprint

/-- The piece of a primitive; its dimensions are in bone lengths. -/
def Primitive.place (p : Primitive α) (frame : BoneFrame α) : Piece α :=
  { form := .primitive p.kind
    world := frame.place p.offset p.rotation (p.dimensions.scale frame.length)
    field := none
    material := p.material }

/-- The piece of an asset. -/
def Asset.place (a : Asset α) (frame : BoneFrame α) : Piece α :=
  { form := .asset a.path
    world := frame.place a.offset a.rotation ⟨a.scale, a.scale, a.scale⟩
    field := none
    material := none }

/-- The frame from the start of an extrusion to its end. -/
def Extrusion.span (e : Extrusion α) (loc : Location) (frame : BoneFrame α) (epsilon : α) :
    Except Error (BoneFrame α) :=
  (BoneFrame.ofEnds frame.name (frame.point e.start) (frame.point e.stop) epsilon).mapError
    fun error => { error with
      message := "extrude start and end coincide: " ++ error.message
      path := loc.render }

/-- The piece of an extrusion: a prism from its start to its end. -/
def Extrusion.place (e : Extrusion α) (loc : Location) (frame : BoneFrame α) (epsilon : α) :
    Except Error (Piece α) := do
  let span ← e.span loc frame epsilon
  let radius ← Length.measure (.key loc "profile_radius") frame.length e.radius
  let field ← Deformation.build loc e.taper [] 0 []
  return {
    form := .profile e.profile
    world := ⟨span.head, span.orientation, ⟨radius.x, radius.y, span.length⟩⟩
    field := some field
    material := none }

/-- The piece of an attachment. -/
def Attachment.place (a : Attachment α) (loc : Location) (frame : BoneFrame α) (epsilon : α) :
    Except Error (Piece α) :=
  match a with
  | .primitive shape => .ok (shape.place frame)
  | .extrude shape => shape.place (.key loc "extrude") frame epsilon
  | .asset shape => .ok (shape.place frame)

/-- The piece of a shape of a part. -/
def Shape.place (s : Shape α) (frame : BoneFrame α) : Piece α :=
  match s with
  | .primitive shape => shape.place frame
  | .asset shape => shape.place frame

/-- The placement of a bool shape in the frame of its anchor, or in the world. -/
def BoolShape.world (s : BoolShape α) : Option (BoneFrame α) → Transform α
  | some frame => frame.place s.position s.rotation (s.dimensions.scale frame.length)
  | none => Transform.absolute s.position s.rotation s.dimensions

/-- The named piece of a bool shape. -/
def BoolShape.place (s : BoolShape α) (name : String) (frame : Option (BoneFrame α)) :
    Mannequin.BoolShape α :=
  { name
    piece := { form := .primitive s.kind, world := s.world frame, field := none, material := none }
    anchor := frame.map BoneFrame.name }

end Blueprint

end Mannequin
