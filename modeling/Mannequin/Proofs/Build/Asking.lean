import Mannequin.Proofs.Build.Custody
import Mannequin.Proofs.Kernel.Asking

/-!
# What a build asks of a kernel

The meshes of the bones are built without bridges; then there are only bridges and
the last join. When the shapes and the bones that a character names are there, no step
of this fails by itself, on whatever kernel.
-/

namespace Mannequin

namespace Call

variable {α : Type}

/-- A call that makes a mesh, and is no bridge. -/
def Forms : Call α → Prop
  | .mesh (.bridge _ _) => False
  | .mesh _ => True
  | .edit _ => False

/-- A call that makes a bridge. -/
def Bridges : Call α → Prop
  | .mesh (.bridge _ _) => True
  | _ => False

theorem Forms.not_bridges {call : Call α} (h : call.Forms) : ¬ call.Bridges := by
  intro hbridges
  cases call with
  | edit => exact hbridges
  | mesh call =>
      cases call with
      | bridge => exact h
      | _ => exact hbridges

theorem Forms.exists_mesh {call : Call α} (h : call.Forms) : ∃ made, call = .mesh made := by
  cases call with
  | mesh made => exact ⟨made, rfl⟩
  | edit => exact h.elim

end Call

namespace Build

variable {α : Type} [Scalar α] {kernel : Kernel α} {what : String}
  {shapes : NameMap (BoolShape α)} {weight : α} {s s' : Session α}

/-! ### The mesh of a bone -/

theorem asks_deform (field : Deformation α) (mesh : Handle) :
    Asks kernel Call.Forms (deform kernel what field mesh) fun _ => True := by
  rw [deform]
  split
  · exact .pure _ trivial
  · exact .mesh trivial

theorem asks_piece (p : Piece α) :
    Asks kernel Call.Forms (piece kernel what p) fun _ => True := by
  refine Asks.bind (.mesh trivial) fun mesh _ => ?_
  cases p.field with
  | some field => exact asks_deform field mesh
  | none => exact .pure _ trivial

theorem asks_partOperations (operations : List (PartOperation α)) (mesh : Handle)
    (index : Nat) :
    Asks kernel Call.Forms (partOperations kernel what mesh index operations) fun _ => True := by
  induction operations generalizing mesh index with
  | nil => exact .pure _ trivial
  | cons operation rest ih =>
      refine Asks.bind (asks_piece operation.target) fun operand _ => ?_
      exact Asks.bind (.mesh trivial) fun combined _ => ih combined (index + 1)

theorem asks_part (p : Part α) :
    Asks kernel Call.Forms (part kernel what p) fun _ => True :=
  Asks.bind (asks_piece p.base) fun base _ => asks_partOperations p.operations base 0

omit [Scalar α] in
theorem asks_openEnds (m : BoneMesh α) (mesh : Handle) :
    Asks kernel Call.Forms (openEnds kernel what m mesh) fun _ => True := by
  rw [openEnds]
  split
  · exact .pure _ trivial
  · exact .mesh trivial

theorem asks_segment (m : BoneMesh α) :
    Asks kernel Call.Forms (segment kernel what m) fun _ => True := by
  refine Asks.bind (.mesh trivial) fun mesh _ => ?_
  exact Asks.bind (asks_deform m.field mesh) fun deformed _ => asks_openEnds m deformed

theorem asks_attachments (pieces : List (Piece α)) (index : Nat) :
    Asks kernel Call.Forms (attachments kernel what index pieces) fun _ => True := by
  induction pieces generalizing index with
  | nil => exact .pure _ trivial
  | cons p rest ih =>
      refine Asks.bind (asks_piece p) fun mesh _ => ?_
      exact Asks.bind (ih (index + 1)) fun others _ => .pure _ trivial

theorem asks_attach (pieces : List (Piece α)) (mesh : Handle) :
    Asks kernel Call.Forms (attach kernel what pieces mesh) fun _ => True := by
  rw [attach]
  split
  · exact .pure _ trivial
  · exact Asks.bind (asks_attachments pieces 0) fun parts _ => .mesh trivial

/-- A modifier whose shape is there fails only if a call is refused. -/
theorem asks_modifier {m : Blueprint.Modifier α}
    (htarget : ∀ op target, m = .boolean op target → target ∈ shapes) (mesh : Handle) :
    Asks kernel Call.Forms (modifier kernel shapes what mesh m) fun _ => True := by
  cases m with
  | bevel width segments => exact .mesh trivial
  | subdivide cuts => exact .mesh trivial
  | boolean op target =>
      obtain ⟨shape, hshape⟩ := NameMap.mem_iff_exists.mp (htarget op target rfl)
      simp only [modifier, hshape]
      exact Asks.bind (asks_piece shape.piece) fun operand _ => .mesh trivial

theorem asks_modifiers {modifiers : List (Blueprint.Modifier α)}
    (htargets : TargetsIn shapes modifiers) (mesh : Handle) :
    Asks kernel Call.Forms (modifiers.foldlM (modifier kernel shapes what) mesh)
      fun _ => True := by
  refine Asks.foldlM (fun mesh _ m hm => asks_modifier ?_ mesh) trivial
  rintro op target rfl
  exact htargets op target hm

/-- Attachments and modifiers finish a mesh. -/
theorem asks_finish {m : BoneMesh α} (htargets : TargetsIn shapes m.modifiers) (base : Handle) :
    Asks kernel Call.Forms (attach kernel what m.attachments base >>= fun attached =>
      m.modifiers.foldlM (modifier kernel shapes what) attached) fun _ => True :=
  Asks.bind (asks_attach m.attachments base) fun attached _ => asks_modifiers htargets attached

theorem asks_shape {m : BoneMesh α} (htargets : TargetsIn shapes m.modifiers) :
    Asks kernel Call.Forms (shape kernel shapes what m) fun _ => True := by
  have hbase : Asks kernel Call.Forms (m.part.elim (segment kernel what m) (part kernel what))
      fun _ => True := by
    cases m.part with
    | some p => exact asks_part p
    | none => exact asks_segment m
  exact Asks.bind hbase fun base _ => asks_finish htargets base

theorem asks_boneMesh {m : BoneMesh α} (htargets : TargetsIn shapes m.modifiers) :
    Asks kernel (fun call => ¬ call.Bridges) (boneMesh kernel shapes weight m)
      fun _ => True := by
  rw [boneMesh_eq]
  refine Asks.bind ((asks_shape htargets).mono fun call => Call.Forms.not_bridges) fun mesh _ => ?_
  exact Asks.bind (.edit id) fun _ _ => .pure _ trivial

/-! ### The meshes of all bones -/

/-- The meshes of the bones are built in order, each of them under the name of its bone. -/
theorem asks_boneMeshes {settings : Settings α} {c : Character α}
    (htargets : ∀ m ∈ c.meshes, TargetsIn c.boolShapes m.modifiers) :
    Asks kernel (fun call => ¬ call.Bridges) (boneMeshes kernel settings c)
      fun bones => bones.map BuiltMesh.bone = c.meshes.map BoneMesh.bone := by
  have hbones : ∀ m ∈ c.meshes, Asks kernel (fun call => ¬ call.Bridges)
      (boneMesh kernel c.boolShapes settings.bindWeight m >>= fun mesh =>
        pure (BuiltMesh.mk m.bone mesh)) fun b => b.bone = m.bone :=
    fun m hm => Asks.bind (asks_boneMesh (htargets m hm)) fun mesh _ => .pure _ rfl
  refine (Asks.mapM hbones).weaken fun bones hnamed => ?_
  rw [← List.forall₂_eq_eq_eq, List.forall₂_map_left_iff, List.forall₂_map_right_iff]
  exact hnamed.flip

/-! ### Bridges -/

omit [Scalar α] in
/-- A bridge between bones that have meshes leaves every bone with a mesh. -/
theorem asks_bridge {names : List String} {current : NameMap Handle} {b : Bridge}
    (hnames : ∀ bone ∈ names, bone ∈ current) (hparent : b.parent ∈ names)
    (hchild : b.child ∈ names) :
    Asks kernel (fun _ => True) (bridge kernel current b)
      fun current' => ∀ bone ∈ names, bone ∈ current' := by
  obtain ⟨parent, hp⟩ := NameMap.mem_iff_exists.mp (hnames _ hparent)
  obtain ⟨child, hc⟩ := NameMap.mem_iff_exists.mp (hnames _ hchild)
  simp only [bridge, hp, hc]
  refine Asks.bind (.mesh trivial) fun bridged _ => .pure _ fun bone hbone => ?_
  exact mem_merged.mpr (hnames bone hbone)

omit [Scalar α] in
theorem asks_bridges {names : List String} {current : NameMap Handle} {bridges : List Bridge}
    (hnames : ∀ bone ∈ names, bone ∈ current)
    (hends : ∀ b ∈ bridges, b.parent ∈ names ∧ b.child ∈ names) :
    Asks kernel (fun _ => True) (bridges.foldlM (bridge kernel) current)
      fun current' => ∀ bone ∈ names, bone ∈ current' :=
  Asks.foldlM (fun _ hkept b hb => asks_bridge hkept (hends b hb).1 (hends b hb).2) hnames

omit [Scalar α] in
theorem asks_joinAll (parts : List Handle) :
    Asks kernel Call.Forms (joinAll kernel parts) fun _ => True := by
  match parts with
  | [mesh] => exact .pure _ trivial
  | [] => exact .mesh trivial
  | first :: second :: rest => exact .mesh trivial

end Build

end Mannequin
