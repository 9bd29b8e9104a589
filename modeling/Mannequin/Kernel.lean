import Mannequin.Character.Piece
import Mannequin.Journal

/-!
# Mesh kernels

A mesh kernel creates and combines meshes on behalf of the library, which knows
them by handles only. A kernel is modelled by its answers: each is a function of
the call and of the exchanges before it. A run keeps every exchange, so what was
asked of a kernel can be compared afterwards, also when the run failed.
-/

namespace Mannequin

/-- The kernel's name for a mesh. -/
abbrev Handle := Nat

/-- A call that answers with a mesh. -/
inductive MeshCall (α : Type) where
  | create (form : Form) (world : Mat4 α)
  | boolean (target operand : Handle) (op : BoolOp)
  | bevel (target : Handle) (width : α) (segments : Nat)
  | subdivide (target : Handle) (cuts : Nat)
  | removeCaps (target : Handle) (keepStart keepEnd : Bool)
  | deform (target : Handle) (field : Deformation α)
  | join (parts : List Handle)
  | bridge (parent child : Handle)

/-- A call that changes a mesh where it is. -/
inductive EditCall (α : Type) where
  | bind (target : Handle) (bone : String) (weight : α)
  | renameGroup (target : Handle) (source dest : String)
  | mergeGroup (target : Handle) (source dest : String)

/-- A call to a kernel. -/
inductive Call (α : Type) where
  | mesh (call : MeshCall α)
  | edit (call : EditCall α)

/-- What a kernel tells of a call that it refuses. It need not tell anything. -/
structure Refusal where
  kind : Option ErrorKind
  message : String
  path : String
  deriving DecidableEq, Repr

/-- A call and its answer: the mesh that it made, if it makes one, or a refusal. -/
structure Exchange (α : Type) where
  call : Call α
  reply : Except Refusal (Option Handle)

/-- The answers of a mesh kernel. -/
structure Kernel (α : Type) where
  mesh : List (Exchange α) → MeshCall α → Except Refusal Handle
  edit : List (Exchange α) → EditCall α → Except Refusal Unit

namespace MeshCall

variable {α : Type}

/-- The meshes that a call takes. -/
def operands : MeshCall α → List Handle
  | create _ _ => []
  | boolean target operand _ => [target, operand]
  | bevel target _ _ => [target]
  | subdivide target _ => [target]
  | removeCaps target _ _ => [target]
  | deform target _ => [target]
  | join parts => parts
  | bridge parent child => [parent, child]

def name : MeshCall α → String
  | create _ _ => "create"
  | boolean _ _ _ => "boolean"
  | bevel _ _ _ => "bevel"
  | subdivide _ _ => "subdivide"
  | removeCaps _ _ _ => "caps"
  | deform _ _ => "deform"
  | join _ => "join"
  | bridge _ _ => "bridge"

end MeshCall

namespace EditCall

variable {α : Type}

def name : EditCall α → String
  | bind _ _ _ => "bind"
  | renameGroup _ _ _ => "rename"
  | mergeGroup _ _ _ => "merge"

end EditCall

namespace Call

variable {α : Type}

def name : Call α → String
  | mesh call => call.name
  | edit call => call.name

end Call

namespace Refusal

/-- The error of a refused call. The message says what was being done. -/
def error (what : String) (refusal : Refusal) : Error :=
  { kind := refusal.kind.getD .kernel
    message := what ++ ": " ++
      (if refusal.message = "" then "kernel call failed" else refusal.message)
    path := refusal.path }

end Refusal

/-- What a run has asked of the kernel and told the log, in order. -/
structure Session (α : Type) where
  exchanges : List (Exchange α)
  lines : List Line

namespace Session

variable {α : Type}

def empty : Session α := ⟨[], []⟩

/-- The calls of a session. -/
def calls (session : Session α) : List (Call α) := session.exchanges.map Exchange.call

end Session

/-- Work on a kernel. The session survives a failure of the work. -/
abbrev Building (α : Type) := ExceptT Error (StateM (Session α))

namespace Building

variable {α β : Type}

/-- Carry out work from an empty session. -/
def start (work : Building α β) : Except Error β × Session α := work.run.run Session.empty

/-- Tell the log a line. -/
def tell (line : Line) : Building α Unit :=
  modify fun session => { session with lines := session.lines ++ [line] }

/-- Keep an exchange. -/
def keep (exchange : Exchange α) : Building α Unit :=
  modify fun session => { session with exchanges := session.exchanges ++ [exchange] }

/-- Ask the kernel for a mesh. -/
def mesh (kernel : Kernel α) (what : String) (call : MeshCall α) : Building α Handle := do
  match kernel.mesh (← get).exchanges call with
  | .ok handle =>
    keep ⟨.mesh call, .ok (some handle)⟩
    return handle
  | .error refusal =>
    keep ⟨.mesh call, .error refusal⟩
    throw (refusal.error what)

/-- Ask the kernel to change a mesh. -/
def edit (kernel : Kernel α) (what : String) (call : EditCall α) : Building α Unit := do
  match kernel.edit (← get).exchanges call with
  | .ok () => keep ⟨.edit call, .ok none⟩
  | .error refusal =>
    keep ⟨.edit call, .error refusal⟩
    throw (refusal.error what)

/-- Work whose failure is told to the log. -/
def reporting (work : Building α β) : Building α β :=
  tryCatch work fun error => do
    tell ⟨.error, error.describe⟩
    throw error

end Building

/-- A session, and the place where the caller of the work holds a result. -/
structure Held (α β : Type) where
  session : Session α
  result : β

namespace Held

variable {α β : Type}

/-- Carry out work from the session. -/
def during (work : Building α β) : ExceptT Error (StateM (Held α β)) β :=
  ExceptT.mk fun held =>
    let (result, session) := work.run.run held.session
    (result, { held with session })

/-- Put the result of work in its place, which is the last thing done. -/
def replace (work : Building α β) : ExceptT Error (StateM (Held α β)) Unit := do
  let result ← during work
  modify fun held => { held with result }

end Held

end Mannequin
