import Mannequin.Build.Groups
import Mannequin.Proofs.Build.Custody
import Mannequin.Proofs.Kernel.Refusing

/-!
# Refused calls of a build

Whatever is built, every step of the way heeds the kernel: the first refused call is the
last one, and the build fails with it. This asks nothing of the character, whose own faults
end the build in the same way on every kernel. A mapping of groups is carried out with the
same care, and one that cannot be planned asks nothing of the kernel.
-/

namespace Mannequin.Build

variable {α : Type} {kernel obliging : Kernel α} {what : String}
  {shapes : NameMap (BoolShape α)} {weight : α}

/-! ### The mesh of a bone -/

section

variable [Scalar α]

theorem heeds_deform (hk : obliging.Obliges kernel) (field : Deformation α) (mesh : Handle) :
    Heeds (deform kernel what field mesh) (deform obliging what field mesh) := by
  rw [deform, deform]
  split
  · exact .pure mesh
  · exact .mesh hk _

theorem heeds_piece (hk : obliging.Obliges kernel) (p : Piece α) :
    Heeds (piece kernel what p) (piece obliging what p) := by
  refine .bind (.mesh hk _) fun mesh => ?_
  cases p.field with
  | some field => exact heeds_deform hk field mesh
  | none => exact .pure mesh

theorem heeds_partOperations (hk : obliging.Obliges kernel) (operations : List (PartOperation α))
    (mesh : Handle) (index : Nat) :
    Heeds (partOperations kernel what mesh index operations)
      (partOperations obliging what mesh index operations) := by
  induction operations generalizing mesh index with
  | nil => exact .pure mesh
  | cons operation rest ih =>
      refine .bind (heeds_piece hk operation.target) fun operand => ?_
      exact .bind (.mesh hk _) fun combined => ih combined (index + 1)

theorem heeds_part (hk : obliging.Obliges kernel) (p : Part α) :
    Heeds (part kernel what p) (part obliging what p) :=
  .bind (heeds_piece hk p.base) fun base => heeds_partOperations hk p.operations base 0

omit [Scalar α] in
theorem heeds_openEnds (hk : obliging.Obliges kernel) (m : BoneMesh α) (mesh : Handle) :
    Heeds (openEnds kernel what m mesh) (openEnds obliging what m mesh) := by
  rw [openEnds, openEnds]
  split
  · exact .pure mesh
  · exact .mesh hk _

theorem heeds_segment (hk : obliging.Obliges kernel) (m : BoneMesh α) :
    Heeds (segment kernel what m) (segment obliging what m) := by
  refine .bind (.mesh hk _) fun mesh => ?_
  exact .bind (heeds_deform hk m.field mesh) fun deformed => heeds_openEnds hk m deformed

theorem heeds_attachments (hk : obliging.Obliges kernel) (pieces : List (Piece α)) (index : Nat) :
    Heeds (attachments kernel what index pieces) (attachments obliging what index pieces) := by
  induction pieces generalizing index with
  | nil => exact .pure []
  | cons p rest ih =>
      refine .bind (heeds_piece hk p) fun mesh => ?_
      exact .bind (ih (index + 1)) fun others => .pure (mesh :: others)

theorem heeds_attach (hk : obliging.Obliges kernel) (pieces : List (Piece α)) (mesh : Handle) :
    Heeds (attach kernel what pieces mesh) (attach obliging what pieces mesh) := by
  rw [attach, attach]
  split
  · exact .pure mesh
  · exact .bind (heeds_attachments hk pieces 0) fun parts => .mesh hk _

/-- A modifier whose shape is missing fails before it asks for anything. -/
theorem heeds_modifier (hk : obliging.Obliges kernel) (mesh : Handle)
    (m : Blueprint.Modifier α) :
    Heeds (modifier kernel shapes what mesh m) (modifier obliging shapes what mesh m) := by
  cases m with
  | bevel width segments => exact .mesh hk _
  | subdivide cuts => exact .mesh hk _
  | boolean op target =>
      rw [modifier, modifier]
      cases shapes.get? target with
      | none => exact .throw _
      | some shape => exact .bind (heeds_piece hk shape.piece) fun operand => .mesh hk _

theorem heeds_shape (hk : obliging.Obliges kernel) (m : BoneMesh α) :
    Heeds (shape kernel shapes what m) (shape obliging shapes what m) := by
  have hbase : Heeds (m.part.elim (segment kernel what m) (part kernel what))
      (m.part.elim (segment obliging what m) (part obliging what)) := by
    cases m.part with
    | none => exact heeds_segment hk m
    | some p => exact heeds_part hk p
  refine .bind hbase fun base => .bind (heeds_attach hk m.attachments base) fun attached => ?_
  exact .foldlM (heeds_modifier hk) m.modifiers attached

theorem heeds_boneMesh (hk : obliging.Obliges kernel) (m : BoneMesh α) :
    Heeds (boneMesh kernel shapes weight m) (boneMesh obliging shapes weight m) := by
  rw [boneMesh_eq, boneMesh_eq]
  exact .bind (heeds_shape hk m) fun mesh => .bind (.edit hk _) fun _ => .pure mesh

end

/-! ### Characters -/

theorem heeds_bridge (hk : obliging.Obliges kernel) (current : NameMap Handle) (b : Bridge) :
    Heeds (bridge kernel current b) (bridge obliging current b) := by
  rw [bridge, bridge]
  split
  · exact .bind (.mesh hk _) fun bridged => .pure _
  · exact .throw _

theorem heeds_joinAll (hk : obliging.Obliges kernel) (parts : List Handle) :
    Heeds (joinAll kernel parts) (joinAll obliging parts) := by
  match parts with
  | [mesh] => exact .pure mesh
  | [] => exact .mesh hk _
  | first :: second :: rest => exact .mesh hk _

theorem heeds_character [Scalar α] (hk : obliging.Obliges kernel) (settings : Settings α)
    (c : Character α) :
    Heeds (character kernel settings c) (character obliging settings c) := by
  have hbones : Heeds (boneMeshes kernel settings c) (boneMeshes obliging settings c) :=
    .mapM (fun m => .bind (heeds_boneMesh hk m) fun mesh => .pure _) c.meshes
  have hassemble : Heeds (assemble kernel settings c) (assemble obliging settings c) := by
    refine .bind hbones fun bones => .bind (.foldlM (heeds_bridge hk) c.bridges _) fun current => ?_
    exact .bind (heeds_joinAll hk _) fun mesh => .pure _
  rw [character, character]
  split
  · exact .throw _
  · exact .bind (.reporting hassemble) fun built => .bind (.tell _) fun _ => .pure built

/-! ### Groups -/

theorem heeds_vertexGroups (hk : obliging.Obliges kernel) (mesh : Handle)
    (mapping : NameMap String) (existing : NameSet) (settings : Settings α) :
    Heeds (vertexGroups kernel mesh mapping existing settings)
      (vertexGroups obliging mesh mapping existing settings) := by
  rw [vertexGroups, vertexGroups]
  cases Renaming.planGroups mapping existing settings.tempPrefix with
  | error fault => exact .throw _
  | ok plan =>
      have hmerge : ∀ step, Heeds (mergeGroup kernel mesh step) (mergeGroup obliging mesh step) :=
        fun step => .edit hk _
      have hrename : ∀ step,
          Heeds (renameGroup kernel mesh step) (renameGroup obliging mesh step) :=
        fun step => .edit hk _
      refine .bind (.forM hmerge plan.merges) fun _ => ?_
      refine .bind (.forM hrename plan.renames) fun _ => ?_
      simp only
      split
      · exact .bind (.tell _) fun _ => .pure plan
      · exact .pure plan

/-! ### Runs that are refused a call -/

/-- Building a character and naming groups end with the first refused call, whatever the
kernel answers and whatever the character and the mapping are like. A mapping that cannot be
planned is refused without a call. -/
theorem refusal_ends_run [Scalar α] (kernel : Kernel α) (settings : Settings α) :
    (∀ (c : Character α) (i : Nat) (call : Call α) (refusal : Refusal),
      (Building.start (character kernel settings c)).2.exchanges[i]? =
          some ⟨call, .error refusal⟩ →
        EndsAt (fun kernel => character kernel settings c) kernel i refusal) ∧
    (∀ (mesh : Handle) (mapping : NameMap String) (existing : NameSet) (i : Nat) (call : Call α)
        (refusal : Refusal),
      (Building.start (vertexGroups kernel mesh mapping existing settings)).2.exchanges[i]? =
          some ⟨call, .error refusal⟩ →
        EndsAt (fun kernel => vertexGroups kernel mesh mapping existing settings) kernel i
          refusal) ∧
    ∀ (mesh : Handle) (mapping : NameMap String) (existing : NameSet) (fault : Renaming.Fault),
      Renaming.planGroups mapping existing settings.tempPrefix = .error fault →
        Building.start (vertexGroups kernel mesh mapping existing settings) =
          (.error (Cause.error fault ""), Session.empty) := by
  refine ⟨fun c i call refusal hrefused => ?_,
    fun mesh mapping existing i call refusal hrefused => ?_,
    fun mesh mapping existing fault hfault => ?_⟩
  · exact .of_heeds (fun _ hk => heeds_character hk settings c) hrefused
  · exact .of_heeds (fun _ hk => heeds_vertexGroups hk mesh mapping existing settings) hrefused
  · rw [vertexGroups, hfault]
    rfl

/-- The second limb cannot be joined to its hook, for which the kernel gives no reason, and
the second of two merges meets a conflict. -/
theorem refusal_ends_run_limbs :
    let silent : Refusal := ⟨none, "", ""⟩
    let clash : Refusal := ⟨some .conflict, "group is locked", ""⟩
    let joinless : Kernel Float := Simulated.kernel ⟨false, some ⟨"join", 1, silent⟩⟩
    let mergeless : Kernel Float := Simulated.kernel ⟨false, some ⟨"merge", 1, clash⟩⟩
    let mapping := NameMap.ofList [("A", "C"), ("B", "C")]
    (∃ call, (Building.start (character joinless Settings.standard limbs)).2.exchanges[10]? =
        some ⟨call, .error silent⟩) ∧
      EndsAt (fun kernel => character kernel Settings.standard limbs) joinless 10 silent ∧
      (∃ unfailing : Kernel Float, unfailing.NeverFails ∧
        (Building.start (character joinless Settings.standard limbs)).2.calls <+:
          (Building.start (character unfailing Settings.standard limbs)).2.calls) ∧
      (∃ call, (Building.start (vertexGroups mergeless 1 mapping (NameSet.ofNames ["A", "B"])
        Settings.standard)).2.exchanges[1]? = some ⟨call, .error clash⟩) ∧
      EndsAt (fun kernel => vertexGroups kernel 1 mapping (NameSet.ofNames ["A", "B"])
        Settings.standard) mergeless 1 clash ∧
      Building.start (vertexGroups mergeless 1 mapping ∅ Settings.standard) =
        (.error (Cause.error (Renaming.Fault.mergeMissing "A") ""), Session.empty) := by
  intro silent clash joinless mergeless mapping
  have hjoin : (Building.start (character joinless Settings.standard limbs)).2.exchanges[10]?.map
      Exchange.reply = some (.error silent) := by
    decide +kernel
  have hmerge : (Building.start (vertexGroups mergeless 1 mapping (NameSet.ofNames ["A", "B"])
      Settings.standard)).2.exchanges[1]?.map Exchange.reply = some (.error clash) := by
    decide +kernel
  have hfault : Renaming.planGroups mapping ∅ (Settings.standard (α := Float)).tempPrefix =
      .error (.mergeMissing "A") := by
    decide +kernel
  obtain ⟨join, hjoin⟩ := Exchange.exists_call_of_reply hjoin
  obtain ⟨merge, hmerge⟩ := Exchange.exists_call_of_reply hmerge
  have hended := (refusal_ends_run joinless Settings.standard).1 limbs 10 join silent hjoin
  obtain ⟨unfailing, hunfailing, hobliges⟩ := joinless.exists_obliging
  refine ⟨⟨join, hjoin⟩, hended, ⟨unfailing, hunfailing, hended.first unfailing hobliges⟩,
    ⟨merge, hmerge⟩, ?_, ?_⟩
  · exact (refusal_ends_run mergeless Settings.standard).2.1 1 mapping _ 1 merge clash hmerge
  · exact (refusal_ends_run mergeless Settings.standard).2.2 1 mapping ∅ _ hfault

end Mannequin.Build
