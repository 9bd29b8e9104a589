import Mannequin.Kernel

/-!
# Simulated kernels

A kernel without geometry. It numbers its meshes from one in the order in which
they are made, and it can refuse one call of a given name. Working in place, it
makes a mesh only when it is asked to create one; every other call answers with
the mesh that it took first.
-/

namespace Mannequin

/-- The refusal of the call of a name that has `earlier` calls of that name before it. -/
structure Rehearsal where
  call : String
  earlier : Nat
  refusal : Refusal
  deriving DecidableEq, Repr

/-- A kernel without geometry. -/
structure Simulated where
  inPlace : Bool
  refuses : Option Rehearsal
  deriving DecidableEq, Repr

namespace Simulated

variable {α : Type}

/-- The refusal of a call, if it is the one to be refused. -/
def refusal? (s : Simulated) (exchanges : List (Exchange α)) (call : String) : Option Refusal :=
  match s.refuses with
  | none => none
  | some rehearsal =>
    let earlier := (exchanges.filter fun e => e.call.name = call).length
    if rehearsal.call = call ∧ rehearsal.earlier = earlier then some rehearsal.refusal else none

/-- The mesh that a call takes over instead of making one. -/
def reused? (s : Simulated) (call : MeshCall α) : Option Handle :=
  if s.inPlace then call.operands.head? else none

/-- Whether an exchange made a mesh. -/
def makes (s : Simulated) (exchange : Exchange α) : Bool :=
  match exchange.call, exchange.reply with
  | .mesh call, .ok _ => (s.reused? call).isNone
  | _, _ => false

/-- The number of the next mesh. -/
def nextHandle (s : Simulated) (exchanges : List (Exchange α)) : Handle :=
  (exchanges.filter s.makes).length + 1

/-- The answers of the kernel. -/
def kernel (s : Simulated) : Kernel α :=
  { mesh := fun exchanges call =>
      match s.refusal? exchanges call.name with
      | some refusal => .error refusal
      | none => .ok ((s.reused? call).getD (s.nextHandle exchanges))
    edit := fun exchanges call =>
      match s.refusal? exchanges call.name with
      | some refusal => .error refusal
      | none => .ok () }

end Simulated

end Mannequin
