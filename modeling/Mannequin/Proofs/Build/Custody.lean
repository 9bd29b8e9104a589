import Mannequin.Proofs.Build.Bridges
import Mannequin.Proofs.Kernel.Simulated
import Mannequin.Scalar.Binary64

/-!
# Building a character keeps custody of its meshes

The meshes of the bones are made and bound one after the other; each is in hand
until a bridge or the last join takes it. So no call is passed a mesh that is not
live, and one mesh is left at the end.
-/

namespace Mannequin

/-- The exchange that binds the mesh of a bone. -/
def BuiltMesh.binding {α : Type} (weight : α) (b : BuiltMesh) : Exchange α :=
  ⟨.edit (.bind b.handle b.bone weight), .ok none⟩

/-- Whether an exchange binds a mesh to a bone. -/
def Exchange.binds {α : Type} (exchange : Exchange α) : Bool :=
  match exchange.call with
  | .edit (.bind _ _ _) => true
  | _ => false

/-- An exchange about geometry binds nothing. -/
theorem Exchange.not_binds {α : Type} {exchange : Exchange α} (h : exchange.IsGeometry) :
    ¬ exchange.binds = true := by
  obtain ⟨call, hcall⟩ := h
  rw [binds, hcall]
  exact Bool.false_ne_true

theorem Session.Shapes.filter_binds {α : Type} {s s' : Session α} (h : s.Shapes s') :
    s'.exchanges.filter Exchange.binds = s.exchanges.filter Exchange.binds := by
  obtain ⟨own, hown, hgeometry⟩ := h
  have hnone : own.filter Exchange.binds = [] :=
    List.filter_eq_nil_iff.mpr fun exchange hmem => Exchange.not_binds (hgeometry exchange hmem)
  rw [hown, List.filter_append, hnone, List.append_nil]

namespace Build

variable {α : Type} [Scalar α] {kernel : Kernel α} {s s' : Session α}
  {shapes : NameMap (BoolShape α)} {weight : α} {frame : Finset Handle}

/-- A character that can be built: it has meshes, of different bones, its modifiers
combine with shapes that it has, and its bridges form a forest over its bones. -/
structure Buildable (c : Character α) : Prop where
  nonempty : c.meshes ≠ []
  distinct : (c.meshes.map BoneMesh.bone).Nodup
  targets : ∀ m ∈ c.meshes, TargetsIn c.boolShapes m.modifiers
  ends : ∀ b ∈ c.bridges, b.parent ∈ c.meshes.map BoneMesh.bone ∧
    b.child ∈ c.meshes.map BoneMesh.bone
  forest : Bridge.IsForest c.bridges

/-- The build of the mesh of a bone, from one session to another. The exchanges of
the bone are about geometry, up to the last one, which binds the mesh. -/
structure BoneRun (kernel : Kernel α) (shapes : NameMap (BoolShape α)) (weight : α)
    (m : BoneMesh α) (b : BuiltMesh) (s s' : Session α) : Prop where
  bone : b.bone = m.bone
  returns : Returns (boneMesh kernel shapes weight m) s b.handle s'
  bound : ∃ own, s'.exchanges = s.exchanges ++ own ++ [b.binding weight] ∧
    ∀ exchange ∈ own, exchange.IsGeometry

/-- The builds of the meshes of bones, one after the other. -/
inductive BoneRuns (kernel : Kernel α) (shapes : NameMap (BoolShape α)) (weight : α) :
    List (BoneMesh α) → List BuiltMesh → Session α → Session α → Prop
  | nil (s : Session α) : BoneRuns kernel shapes weight [] [] s s
  | cons {m : BoneMesh α} {b : BuiltMesh} {meshes : List (BoneMesh α)} {bones : List BuiltMesh}
      {s middle s' : Session α} (first : BoneRun kernel shapes weight m b s middle)
      (rest : BoneRuns kernel shapes weight meshes bones middle s') :
      BoneRuns kernel shapes weight (m :: meshes) (b :: bones) s s'

/-! ### The mesh of a bone -/

/-- The build of a mesh before it is bound. -/
def shape (kernel : Kernel α) (shapes : NameMap (BoolShape α)) (what : String) (m : BoneMesh α) :
    Building α Handle :=
  m.part.elim (segment kernel what m) (part kernel what) >>= fun base =>
    attach kernel what m.attachments base >>= fun attached =>
      m.modifiers.foldlM (modifier kernel shapes what) attached

theorem boneMesh_eq (kernel : Kernel α) (shapes : NameMap (BoolShape α)) (weight : α)
    (m : BoneMesh α) :
    boneMesh kernel shapes weight m =
      shape kernel shapes ("bone '" ++ m.bone ++ "'") m >>= fun mesh =>
        Building.edit kernel ("bone '" ++ m.bone ++ "'" ++ " bind") (.bind mesh m.bone weight) >>=
          fun _ => pure mesh := by
  rw [boneMesh, shape]
  cases m.part <;> simp only [Option.elim, bind_assoc]

theorem makes_shape (hk : kernel.Reliable) {what : String} {m : BoneMesh α}
    (htargets : TargetsIn shapes m.modifiers) :
    Makes kernel (shape kernel shapes what m) [] List.singleton := by
  have hbase : Makes kernel (m.part.elim (segment kernel what m) (part kernel what)) []
      List.singleton := by
    cases m.part with
    | some p => exact makes_part hk p
    | none => exact makes_segment hk m
  exact Makes.bind hbase fun base =>
    Makes.bind (makes_attach hk m.attachments base) fun attached =>
      makes_modifiers hk htargets attached

theorem exists_boneRun (hk : kernel.Reliable) (weight : α) {m : BoneMesh α}
    (htargets : TargetsIn shapes m.modifiers) (hs : Holds kernel s [] frame) :
    ∃ b s', BoneRun kernel shapes weight m b s s' ∧ Holds kernel s' [b.handle] frame := by
  obtain ⟨mesh, middle, hshape, hholds, own, hown, hgeometry⟩ := makes_shape hk htargets s frame hs
  obtain ⟨hanswer, hbound⟩ := Holds.edit hk (.bind mesh m.bone weight) hholds
  refine ⟨⟨m.bone, mesh⟩, _, ⟨rfl, ?_, own, ?_, hgeometry⟩, hbound⟩
  · rw [boneMesh_eq]
    exact returns_bind.mpr ⟨mesh, middle, hshape, returns_bind.mpr
      ⟨(), _, Building.returns_edit.mpr ⟨hanswer, rfl⟩, rfl⟩⟩
  · rw [Session.record, hown]
    rfl

/-- All meshes are in hand when they are made. -/
theorem exists_boneRuns (hk : kernel.Reliable) (weight : α) {meshes : List (BoneMesh α)}
    (htargets : ∀ m ∈ meshes, TargetsIn shapes m.modifiers) (hs : Holds kernel s [] frame) :
    ∃ bones s', BoneRuns kernel shapes weight meshes bones s s' ∧
      Holds kernel s' (bones.map BuiltMesh.handle) frame := by
  induction meshes generalizing s frame with
  | nil => exact ⟨[], s, .nil s, hs⟩
  | cons m rest ih =>
      obtain ⟨b, middle, hrun, hholds⟩ := exists_boneRun hk weight
        (htargets m List.mem_cons_self) hs
      have haside : Holds kernel middle ([] ++ [b.handle]) frame := hholds
      obtain ⟨bones, s', hruns, hrest⟩ := ih
        (fun m hm => htargets m (List.mem_cons_of_mem _ hm)) haside.shelve
      refine ⟨b :: bones, s', .cons hrun hruns, ?_⟩
      have hall := hrest.fetch (List.nodup_singleton b.handle) hholds.apart
      exact hall.perm (List.perm_append_singleton b.handle _)

namespace BoneRuns

variable {meshes : List (BoneMesh α)} {bones : List BuiltMesh}

theorem names (h : BoneRuns kernel shapes weight meshes bones s s') :
    bones.map BuiltMesh.bone = meshes.map BoneMesh.bone := by
  induction h with
  | nil => rfl
  | cons first _ ih => rw [List.map_cons, List.map_cons, first.bone, ih]

/-- Nothing is bound but the mesh of each bone, in order. -/
theorem filter_binds (h : BoneRuns kernel shapes weight meshes bones s s') :
    s'.exchanges.filter Exchange.binds =
      s.exchanges.filter Exchange.binds ++ bones.map (BuiltMesh.binding weight) := by
  induction h with
  | nil => rw [List.map_nil, List.append_nil]
  | cons first _ ih =>
      obtain ⟨own, hown, hgeometry⟩ := first.bound
      have hnone : own.filter Exchange.binds = [] :=
        List.filter_eq_nil_iff.mpr fun exchange hmem => Exchange.not_binds (hgeometry exchange hmem)
      rw [ih, hown, List.filter_append, List.filter_append, hnone, List.append_nil,
        List.map_cons, List.append_cons]
      rfl

theorem returns {settings : Settings α} {c : Character α}
    (h : BoneRuns kernel c.boolShapes settings.bindWeight meshes bones s s') :
    Returns (meshes.mapM fun m => do
      return ⟨m.bone, ← boneMesh kernel c.boolShapes settings.bindWeight m⟩) s bones s' := by
  induction h with
  | nil s => rfl
  | @cons m b meshes bones s middle s' first _ ih =>
      rw [List.mapM_cons]
      refine returns_bind.mpr ⟨b, middle, ?_, ?_⟩
      · refine returns_bind.mpr ⟨b.handle, middle, first.returns, ?_⟩
        rw [← first.bone]
        rfl
      · exact returns_bind.mpr ⟨bones, s', ih, rfl⟩

end BoneRuns

/-! ### The whole character -/

private theorem foldl_distinct (handles : List Handle) {seen : List Handle} (hs : seen.Nodup) :
    let all := handles.foldl
      (fun seen handle => if handle ∈ seen then seen else seen ++ [handle]) seen
    all.Nodup ∧ ∀ mesh, mesh ∈ all ↔ mesh ∈ seen ∨ mesh ∈ handles := by
  induction handles generalizing seen with
  | nil => exact ⟨hs, fun mesh => by simp⟩
  | cons handle rest ih =>
      rw [List.foldl_cons]
      split
      case isTrue hseen =>
        refine ⟨(ih hs).1, fun mesh => ((ih hs).2 mesh).trans ?_⟩
        rw [List.mem_cons]
        constructor
        · exact Or.imp_right .inr
        · rintro (hmem | rfl | hmem)
          · exact .inl hmem
          · exact .inl hseen
          · exact .inr hmem
      case isFalse hnew =>
        have hmore : (seen ++ [handle]).Nodup := by
          rw [List.nodup_append']
          exact ⟨hs, List.nodup_singleton handle, List.disjoint_singleton.mpr hnew⟩
        refine ⟨(ih hmore).1, fun mesh => ((ih hmore).2 mesh).trans ?_⟩
        rw [List.mem_append, List.mem_singleton, List.mem_cons, or_assoc]

theorem mem_distinct {handles : List Handle} {mesh : Handle} :
    mesh ∈ distinct handles ↔ mesh ∈ handles := by
  rw [distinct, (foldl_distinct handles List.nodup_nil).2]
  simp

theorem nodup_distinct (handles : List Handle) : (distinct handles).Nodup :=
  (foldl_distinct handles List.nodup_nil).1

omit [Scalar α] in
theorem makes_joinAll (hk : kernel.Reliable) (parts : List Handle) :
    Makes kernel (joinAll kernel parts) parts List.singleton := by
  match parts with
  | [mesh] => exact Makes.pure List.singleton mesh
  | [] => exact Makes.mesh hk (.join [])
  | first :: second :: rest => exact Makes.mesh hk (.join (first :: second :: rest))

theorem get?_built {bones : List BuiltMesh} (hnames : (bones.map BuiltMesh.bone).Nodup)
    {bone : String} {mesh : Handle} :
    (NameMap.ofList (bones.map fun b => (b.bone, b.handle))).get? bone = some mesh ↔
      ⟨bone, mesh⟩ ∈ bones := by
  have hfirst : ((bones.map fun b => (b.bone, b.handle)).map Prod.fst).Nodup := by
    rwa [List.map_map]
  rw [NameMap.get?_ofList hfirst]
  constructor
  · intro h
    obtain ⟨b, hb, heq⟩ := List.mem_map.mp (NameMap.mem_of_lookup_eq h)
    cases heq
    exact hb
  · intro h
    exact NameMap.lookup_eq_of_mem hfirst (List.mem_map.mpr ⟨⟨bone, mesh⟩, h, rfl⟩)

omit [Scalar α] in
/-- Before any bridge is made, the bones with meshes are those that were built. -/
theorem mem_built {bones : List BuiltMesh} (hnames : (bones.map BuiltMesh.bone).Nodup)
    {bone : String} :
    bone ∈ NameMap.ofList (bones.map fun b => (b.bone, b.handle)) ↔
      bone ∈ bones.map BuiltMesh.bone := by
  rw [NameMap.mem_iff_exists, List.mem_map]
  constructor
  · rintro ⟨mesh, hmesh⟩
    exact ⟨_, (get?_built hnames).mp hmesh, rfl⟩
  · rintro ⟨b, hb, rfl⟩
    exact ⟨b.handle, (get?_built hnames).mpr hb⟩

omit [Scalar α] in
/-- The meshes of the bones, before any bridge is made. -/
theorem shares_built {bones : List BuiltMesh} (hnames : (bones.map BuiltMesh.bone).Nodup)
    (hs : Holds kernel s (bones.map BuiltMesh.handle) ∅) :
    Shares kernel s (NameMap.ofList (bones.map fun b => (b.bone, b.handle))) [] := by
  refine ⟨hs.history, ?_, ?_⟩
  · intro mesh
    rw [hs.live, Finset.union_empty, List.mem_toFinset, List.mem_map]
    constructor
    · rintro ⟨b, hb, rfl⟩
      exact ⟨b.bone, (get?_built hnames).mpr hb⟩
    · rintro ⟨bone, hbone⟩
      exact ⟨⟨bone, mesh⟩, (get?_built hnames).mp hbone, rfl⟩
  · intro p q mesh hp hq
    have heq : (⟨p, mesh⟩ : BuiltMesh) = ⟨q, mesh⟩ :=
      List.inj_on_of_nodup_map hs.distinct ((get?_built hnames).mp hp)
        ((get?_built hnames).mp hq) rfl
    cases heq
    rfl

omit [Scalar α] in
/-- The meshes that are left are in hand for the last join. -/
theorem Shares.holds_parts {current : NameMap Handle} {done : List Bridge}
    {bones : List BuiltMesh} (h : Shares kernel s current done)
    (hnames : ∀ bone, bone ∈ current → bone ∈ bones.map BuiltMesh.bone) :
    Holds kernel s (distinct (bones.filterMap fun b => current.get? b.bone)) ∅ := by
  refine ⟨h.history, ?_, nodup_distinct _, fun mesh _ => Finset.notMem_empty mesh⟩
  ext mesh
  rw [h.live, Finset.union_empty, List.mem_toFinset, mem_distinct, List.mem_filterMap]
  constructor
  · rintro ⟨bone, hbone⟩
    obtain ⟨b, hb, rfl⟩ := List.mem_map.mp (hnames bone (NameMap.mem_of_get? hbone))
    exact ⟨b, hb, hbone⟩
  · rintro ⟨b, _, hbone⟩
    exact ⟨b.bone, hbone⟩

/-- A build is made up of the meshes of the bones, the bridges and the last join. -/
theorem start_character {settings : Settings α} {c : Character α} {bones : List BuiltMesh}
    {current : NameMap Handle} {mesh : Handle} {middle bridged joined : Session α}
    (hmeshes : c.meshes ≠ [])
    (hbones : Returns (boneMeshes kernel settings c) Session.empty bones middle)
    (hbridges : Returns (c.bridges.foldlM (bridge kernel)
      (NameMap.ofList (bones.map fun b => (b.bone, b.handle)))) middle current bridged)
    (hjoin : Returns (joinAll kernel (distinct (bones.filterMap fun b => current.get? b.bone)))
      bridged mesh joined) :
    Building.start (character kernel settings c) =
      (.ok ⟨mesh, bones⟩, { joined with lines := joined.lines ++ [⟨.info, summary c⟩] }) := by
  have hassemble : Returns (assemble kernel settings c) Session.empty ⟨mesh, bones⟩ joined := by
    refine returns_bind.mpr ⟨bones, middle, hbones, ?_⟩
    refine returns_bind.mpr ⟨current, bridged, hbridges, ?_⟩
    exact returns_bind.mpr ⟨mesh, joined, hjoin, rfl⟩
  change Returns (character kernel settings c) _ _ _
  rw [character, if_neg (by simpa using hmeshes)]
  exact returns_bind.mpr ⟨_, joined, Building.returns_reporting hassemble,
    returns_bind.mpr ⟨(), _, Building.returns_tell.mpr rfl, rfl⟩⟩

/-- A character that can be built is built on a reliable kernel, from an empty session.
Every call is passed live meshes, none of them twice. The mesh of each bone is bound
once, when its geometry is done, and after that there is only geometry. At the end
the mesh of the character is the one live mesh. -/
theorem character_custody (hk : kernel.Reliable) (settings : Settings α) {c : Character α}
    (hc : Buildable c) :
    ∃ built session,
      Building.start (character kernel settings c) = (.ok built, session) ∧
      (∀ before exchange after, session.exchanges = before ++ exchange :: after →
        exchange.call.Proper (Exchange.live before)) ∧
      (∃ middle, BoneRuns kernel c.boolShapes settings.bindWeight c.meshes built.bones
        Session.empty middle ∧ middle.Shapes session) ∧
      session.exchanges.filter Exchange.binds =
        built.bones.map (BuiltMesh.binding settings.bindWeight) ∧
      Exchange.live session.exchanges = {built.mesh} ∧ built.mesh ≠ Handle.invalid := by
  obtain ⟨bones, middle, hruns, hmeshes⟩ :=
    exists_boneRuns hk settings.bindWeight hc.targets (Holds.start kernel)
  have hnames := hruns.names
  have hdistinct : (bones.map BuiltMesh.bone).Nodup := hnames ▸ hc.distinct
  have hbuilt := shares_built hdistinct hmeshes
  have hmem : ∀ bone, bone ∈ NameMap.ofList (bones.map fun b => (b.bone, b.handle)) ↔
      bone ∈ c.meshes.map BoneMesh.bone := by
    intro bone
    rw [mem_built hdistinct, hnames]
  obtain ⟨current, bridged, hbridges, hshares, hshapes, hkept⟩ := hbuilt.bridges hk
    (fun b hb => by
      rw [hmem, hmem]
      exact hc.ends b hb)
    hc.forest
  have hparts : Holds kernel bridged (distinct (bones.filterMap fun b => current.get? b.bone)) ∅ :=
    hshares.holds_parts fun bone hbone => by
      rw [hnames]
      exact (hmem bone).mp ((hkept bone).mp hbone)
  obtain ⟨mesh, joined, hjoin, hholds, hmore⟩ := makes_joinAll hk _ bridged ∅ hparts
  refine ⟨⟨mesh, bones⟩, { joined with lines := joined.lines ++ [⟨.info, summary c⟩] },
    start_character hc.nonempty hruns.returns hbridges hjoin, ?_,
    ⟨middle, hruns, hshapes.trans hmore⟩, ?_, ?_, ?_⟩
  · intro before exchange after hsplit
    exact hholds.history.proper hsplit
  · exact (hshapes.trans hmore).filter_binds.trans hruns.filter_binds
  · exact hholds.live
  · intro hinvalid
    refine hk.invalid_not_live hholds.history ?_
    rw [hholds.live, ← hinvalid]
    exact Finset.mem_union_left _ (List.mem_toFinset.mpr List.mem_cons_self)

/-- A limb of unit size, with a hook attached and a hole cut into it. -/
def limb (bone : String) : BoneMesh α :=
  { bone
    parent := none
    frame := ⟨bone, .zero, ⟨0, 0, 1⟩, ⟨0, 0, 1⟩, 1, .identity⟩
    profile := ⟨.circle, 8⟩
    radius := ⟨1, 1, false⟩
    segment := ⟨.zero, .identity, .ones⟩
    field := ⟨1, 0, [], []⟩
    capStart := true
    capEnd := false
    connectStart := .segmented
    connectEnd := .segmented
    part := none
    attachments := [⟨.asset "hook", ⟨.zero, .identity, .ones⟩, none, none⟩]
    modifiers := [.boolean .difference "hole"]
    material := none }

/-- Three limbs, two of them bridged. -/
def limbs : Character α :=
  { meshes := [limb "arm", limb "hand", limb "head"]
    bridges := [⟨"arm", "hand"⟩]
    boolShapes := NameMap.insert ∅ "hole"
      ⟨"hole", ⟨.asset "hole", ⟨.zero, .identity, .ones⟩, none, none⟩, none⟩
    warnings := [] }

theorem buildable_limbs : Buildable (limbs : Character α) := by
  have hbones : (limbs : Character α).meshes.map BoneMesh.bone = ["arm", "hand", "head"] := rfl
  refine ⟨List.cons_ne_nil _ _, ?_, ?_, ?_, ?_⟩
  · rw [hbones]
    decide
  · intro m hm op target hmem
    have hmodifiers : m.modifiers = [.boolean .difference "hole"] := by
      simp only [limbs, List.mem_cons, List.not_mem_nil, or_false] at hm
      rcases hm with rfl | rfl | rfl <;> rfl
    rw [hmodifiers, List.mem_singleton] at hmem
    cases hmem
    exact NameMap.mem_insert.mpr (.inl rfl)
  · intro b hb
    rw [hbones, List.mem_singleton.mp hb]
    decide
  · refine Bridge.IsForest.concat Bridge.IsForest.nil fun hreach => ?_
    have hsame := SimpleGraph.reachable_bot.mp (Bridge.graph_nil ▸ hreach)
    exact absurd hsame (by decide)

/-- The limbs are built in place and joined. -/
theorem character_custody_limbs :
    ∃ built session,
      Building.start (character (Simulated.kernel ⟨true, none⟩) Settings.standard
        (limbs : Character Float)) = (.ok built, session) ∧
      Exchange.live session.exchanges = {built.mesh} := by
  obtain ⟨built, session, hbuild, _, _, _, hlive, _⟩ :=
    character_custody (Simulated.reliable true) Settings.standard
      (buildable_limbs : Buildable (limbs : Character Float))
  exact ⟨built, session, hbuild, hlive⟩

end Build

end Mannequin
