import Mannequin.Build
import Mannequin.Proofs.Kernel.Custody
import Mannequin.Proofs.NameMap

/-!
# Shaping a mesh

Every step of the build of one mesh takes the mesh over and gives one back. Pieces
that are made on the way, for parts, attachments and modifiers, are consumed where
they are used.
-/

namespace Mannequin.Build

variable {α : Type} [Scalar α] {kernel : Kernel α} {what : String}

theorem makes_deform (hk : kernel.Reliable) (field : Deformation α) (mesh : Handle) :
    Makes kernel (deform kernel what field mesh) [mesh] List.singleton := by
  rw [deform]
  split
  · exact Makes.pure List.singleton mesh
  · exact Makes.mesh hk (.deform mesh field)

theorem makes_piece (hk : kernel.Reliable) (p : Piece α) :
    Makes kernel (piece kernel what p) [] List.singleton := by
  refine Makes.bind (Makes.mesh hk (.create p.form p.world.matrix)) fun mesh => ?_
  cases p.field with
  | some field => exact makes_deform hk field mesh
  | none => exact Makes.pure List.singleton mesh

/-- A piece is made and combined with a mesh by a boolean operation. -/
theorem makes_combine (hk : kernel.Reliable) {here there : String} (p : Piece α) (op : BoolOp)
    (mesh : Handle) :
    Makes kernel (piece kernel here p >>= fun operand =>
      Building.mesh kernel there (.boolean mesh operand op)) [mesh] List.singleton := by
  refine Makes.bind_keeping [mesh] (makes_piece hk p) fun operand => ?_
  exact (Makes.mesh hk (.boolean mesh operand op)).perm (.swap operand mesh [])

theorem makes_partOperations (hk : kernel.Reliable) (operations : List (PartOperation α))
    (mesh : Handle) (index : Nat) :
    Makes kernel (partOperations kernel what mesh index operations) [mesh] List.singleton := by
  induction operations generalizing mesh index with
  | nil => exact Makes.pure List.singleton mesh
  | cons operation rest ih =>
      rw [partOperations]
      refine Makes.bind_keeping [mesh] (makes_piece hk operation.target) fun operand => ?_
      refine Makes.bind
        ((Makes.mesh hk (.boolean mesh operand operation.op)).perm (.swap operand mesh []))
        fun combined => ?_
      exact ih combined (index + 1)

theorem makes_part (hk : kernel.Reliable) (p : Part α) :
    Makes kernel (part kernel what p) [] List.singleton :=
  Makes.bind (makes_piece hk p.base) fun base =>
    makes_partOperations hk p.operations base 0

omit [Scalar α] in
theorem makes_openEnds (hk : kernel.Reliable) (m : BoneMesh α) (mesh : Handle) :
    Makes kernel (openEnds kernel what m mesh) [mesh] List.singleton := by
  rw [openEnds]
  split
  · exact Makes.pure List.singleton mesh
  · exact Makes.mesh hk (.removeCaps mesh m.capStart m.capEnd)

theorem makes_segment (hk : kernel.Reliable) (m : BoneMesh α) :
    Makes kernel (segment kernel what m) [] List.singleton := by
  refine Makes.bind
    (Makes.mesh hk (.create (.profile m.profile) m.segment.matrix)) fun mesh => ?_
  exact Makes.bind (makes_deform hk m.field mesh) fun deformed =>
    makes_openEnds hk m deformed

theorem makes_attachments (hk : kernel.Reliable) (pieces : List (Piece α)) (index : Nat) :
    Makes kernel (attachments kernel what index pieces) [] id := by
  induction pieces generalizing index with
  | nil => exact Makes.pure id []
  | cons p rest ih =>
      refine Makes.bind (makes_piece hk p) fun mesh => ?_
      refine Makes.bind_keeping [mesh] (ih (index + 1)) fun others => ?_
      exact (Makes.pure id (mesh :: others)).perm
        (List.perm_append_singleton mesh others).symm

theorem makes_attach (hk : kernel.Reliable) (pieces : List (Piece α)) (mesh : Handle) :
    Makes kernel (attach kernel what pieces mesh) [mesh] List.singleton := by
  rw [attach]
  split
  · exact Makes.pure List.singleton mesh
  · refine Makes.bind_keeping [mesh] (makes_attachments hk pieces 0) fun parts => ?_
    exact (Makes.mesh hk (.join (mesh :: parts))).perm
      (List.perm_append_singleton mesh parts).symm

/-- The shapes that boolean modifiers combine with are there. -/
def TargetsIn (shapes : NameMap (BoolShape α)) (modifiers : List (Blueprint.Modifier α)) : Prop :=
  ∀ op target, Blueprint.Modifier.boolean op target ∈ modifiers → target ∈ shapes

theorem makes_modifier (hk : kernel.Reliable) {shapes : NameMap (BoolShape α)}
    {m : Blueprint.Modifier α} (htarget : ∀ op target, m = .boolean op target → target ∈ shapes)
    (mesh : Handle) :
    Makes kernel (modifier kernel shapes what mesh m) [mesh] List.singleton := by
  cases m with
  | bevel width segments => exact Makes.mesh hk (.bevel mesh width segments)
  | subdivide cuts => exact Makes.mesh hk (.subdivide mesh cuts)
  | boolean op target =>
      obtain ⟨shape, hshape⟩ := NameMap.mem_iff_exists.mp (htarget op target rfl)
      simp only [modifier, hshape]
      exact makes_combine hk shape.piece op mesh

theorem makes_modifiers (hk : kernel.Reliable) {shapes : NameMap (BoolShape α)}
    {modifiers : List (Blueprint.Modifier α)} (htargets : TargetsIn shapes modifiers)
    (mesh : Handle) :
    Makes kernel (modifiers.foldlM (modifier kernel shapes what) mesh) [mesh]
      List.singleton := by
  induction modifiers generalizing mesh with
  | nil => exact Makes.pure List.singleton mesh
  | cons m rest ih =>
      rw [List.foldlM_cons]
      refine Makes.bind (makes_modifier hk ?_ mesh) fun changed => ?_
      · rintro op target rfl
        exact htargets op target List.mem_cons_self
      · exact ih (fun op target hmem => htargets op target (List.mem_cons_of_mem _ hmem)) changed

end Mannequin.Build
