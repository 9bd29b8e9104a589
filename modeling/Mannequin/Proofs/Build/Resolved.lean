import Mannequin.Proofs.Build.Openings
import Mannequin.Proofs.Character.Bridges

/-!
# Building what was resolved

A resolved character has no dangling names, so its build looks nothing up in vain. It
fails only when the kernel refuses a call, and on a kernel that never fails it succeeds.
The meshes that are to be bridged are segments, and their ends are open at the bridge
before the first bridge is made.
-/

namespace Mannequin.Build

variable {α : Type} [Scalar α] {kernel : Kernel α} {settings : Settings α} {c : Character α}
  {s s' session : Session α} {built : Built}

/-! ### Whole builds -/

omit [Scalar α] in
/-- The bridges and the last join, once all bones have their meshes. -/
theorem asks_linking (kernel : Kernel α) (hc : c.Coherent) {bones : List BuiltMesh}
    (hnames : bones.map BuiltMesh.bone = c.meshes.map BoneMesh.bone) :
    Asks kernel (fun _ => True)
      (c.bridges.foldlM (bridge kernel) (NameMap.ofList (bones.map fun b => (b.bone, b.handle))) >>=
        fun current => joinAll kernel (distinct (bones.filterMap fun b => current.get? b.bone)) >>=
          fun mesh => pure (Built.mk mesh bones))
      fun built => built.bones = bones := by
  have hdistinct : (bones.map BuiltMesh.bone).Nodup := hnames ▸ hc.distinct
  have hbuilt : ∀ bone ∈ c.meshes.map BoneMesh.bone,
      bone ∈ NameMap.ofList (bones.map fun b => (b.bone, b.handle)) := by
    intro bone hbone
    rw [mem_built hdistinct, hnames]
    exact hbone
  refine Asks.bind (asks_bridges hbuilt hc.ends) fun current _ => ?_
  exact Asks.bind ((asks_joinAll _).mono fun _ _ => trivial) fun mesh _ => .pure _ rfl

/-- A character without dangling names is assembled unless a call is refused. -/
theorem asks_assemble (hc : c.Coherent) :
    Asks kernel (fun _ => True) (assemble kernel settings c) fun _ => True := by
  have hbones : Asks kernel (fun _ => True) (boneMeshes kernel settings c)
      fun bones => bones.map BuiltMesh.bone = c.meshes.map BoneMesh.bone :=
    (asks_boneMeshes hc.targets).mono fun _ _ => trivial
  exact Asks.bind hbones fun bones hnames => (asks_linking kernel hc hnames).weaken fun _ _ => trivial

theorem asks_character (hc : c.Coherent) (hmeshes : c.meshes ≠ []) :
    Asks kernel (fun _ => True) (character kernel settings c) fun _ => True := by
  have hsome : ¬ c.meshes.isEmpty = true := by simpa using hmeshes
  rw [character, if_neg hsome]
  refine Asks.bind (asks_assemble hc).reporting fun built _ => ?_
  exact Asks.bind (.tell _ _) fun _ _ => .pure _ trivial

/-- Every build has built the meshes of all bones before it made the first bridge. -/
theorem of_returns_character (hc : c.Coherent)
    (h : Returns (character kernel settings c) s built session) :
    ∃ middle, BoneRuns kernel c.boolShapes settings.bindWeight c.meshes built.bones s middle ∧
      s.Grows (fun call => ¬ call.Bridges) middle ∧ middle.exchanges <+: session.exchanges := by
  rw [character] at h
  split at h
  case isTrue => exact absurd h not_returns_throw
  case isFalse =>
    obtain ⟨_, told, hassemble, h⟩ := returns_bind.mp h
    obtain ⟨_, _, htell, h⟩ := returns_bind.mp h
    obtain ⟨rfl, rfl⟩ := returns_pure.mp h
    obtain ⟨bones, middle, hbones, hlinking⟩ :=
      returns_bind.mp (Building.of_returns_reporting hassemble)
    have hasks : Asks kernel _ (boneMeshes kernel settings c) _ := asks_boneMeshes hc.targets
    have hlinks := asks_linking kernel hc (hasks.of_returns hbones)
    obtain rfl := hlinks.of_returns hlinking
    obtain ⟨own, hown, -⟩ := hlinks.grows hlinking
    refine ⟨middle, boneRuns_of_returns hc.targets hbones, hasks.grows hbones, ?_⟩
    rw [Building.returns_tell.mp htell, hown]
    exact List.prefix_append _ _

/-! ### Bridged meshes -/

/-- In one of the runs that have built bones, before a session, the segment of a mesh was
drawn and its caps were removed except those that are kept. -/
def Opened (kernel : Kernel α) (shapes : NameMap (BoolShape α)) (weight : α)
    (bones : List BuiltMesh) (m : BoneMesh α) (keepStart keepEnd : Bool) (s : Session α) : Prop :=
  ∃ b ∈ bones, ∃ start stop, BoneRun kernel shapes weight m b start stop ∧
    Opens m keepStart keepEnd start stop ∧ stop.exchanges <+: s.exchanges

/-- The meshes that a bridge is to connect are there. They are segments, the one opened at
its end and the other at its start. -/
structure BridgeReady (kernel : Kernel α) (weight : α) (c : Character α) (bones : List BuiltMesh)
    (b : Bridge) (s : Session α) : Prop where
  parentBuilt : b.parent ∈ c.meshes.map BoneMesh.bone
  childBuilt : b.child ∈ c.meshes.map BoneMesh.bone
  parentOpened : ∀ m ∈ c.meshes, m.bone = b.parent →
    m.part = none ∧ ∃ keepStart, Opened kernel c.boolShapes weight bones m keepStart false s
  childOpened : ∀ m ∈ c.meshes, m.bone = b.child →
    m.part = none ∧ ∃ keepEnd, Opened kernel c.boolShapes weight bones m false keepEnd s

theorem opened_of_boneRuns {shapes : NameMap (BoolShape α)} {weight : α} {bones : List BuiltMesh}
    {meshes : List (BoneMesh α)} {m : BoneMesh α}
    (h : BoneRuns kernel shapes weight meshes bones s s') (hm : m ∈ meshes)
    (htargets : TargetsIn shapes m.modifiers) (hpart : m.part = none)
    (hopen : ¬ (m.capStart ∧ m.capEnd)) :
    Opened kernel shapes weight bones m m.capStart m.capEnd s' := by
  obtain ⟨b, hb, start, stop, hrun, hearlier⟩ := h.exists_run hm
  exact ⟨b, hb, start, stop, hrun, hrun.opens htargets hpart hopen, hearlier⟩

/-- Once the bones have their meshes, every bridge can be made. -/
theorem bridgeReady_of_boneRuns (hc : c.Coherent) {weight : α} {bones : List BuiltMesh}
    (h : BoneRuns kernel c.boolShapes weight c.meshes bones s s') {b : Bridge}
    (hb : b ∈ c.bridges) : BridgeReady kernel weight c bones b s' := by
  refine ⟨(hc.ends b hb).1, (hc.ends b hb).2, fun m hm hbone => ?_, fun m hm hbone => ?_⟩
  · obtain ⟨hpart, hcap⟩ := hc.openEnd b hb m hm hbone
    have hopened := opened_of_boneRuns h hm (hc.targets m hm) hpart (by simp [hcap])
    rw [hcap] at hopened
    exact ⟨hpart, m.capStart, hopened⟩
  · obtain ⟨hpart, hcap⟩ := hc.openStart b hb m hm hbone
    have hopened := opened_of_boneRuns h hm (hc.targets m hm) hpart (by simp [hcap])
    rw [hcap] at hopened
    exact ⟨hpart, m.capEnd, hopened⟩

/-! ### Resolved characters -/

/-- A resolved character with bones is built unless the kernel refuses a call: no other
failure is possible. On a kernel that never fails it is built, the meshes of its bones
first, and before the first bridge is made all bridges have their meshes ready. -/
theorem character_of_resolve {recipe : Json α} {journal journal' : Journal}
    (h : Returns (Character.resolve settings recipe) journal c journal') (hmeshes : c.meshes ≠ [])
    (kernel : Kernel α) :
    (∀ e session, Building.start (character kernel settings c) = (.error e, session) →
      Refused kernel session e) ∧
    (kernel.NeverFails → ∃ built session middle,
      Building.start (character kernel settings c) = (.ok built, session) ∧
      BoneRuns kernel c.boolShapes settings.bindWeight c.meshes built.bones Session.empty middle ∧
      (∀ exchange ∈ middle.exchanges, ¬ exchange.call.Bridges) ∧
      middle.exchanges <+: session.exchanges ∧
      ∀ b ∈ c.bridges, BridgeReady kernel settings.bindWeight c built.bones b middle) := by
  have hc := Character.coherent_of_returns_resolve h
  have hasks : Asks kernel _ (character kernel settings c) _ := asks_character hc hmeshes
  constructor
  · intro e session hfails
    have houtcome : outcome (character kernel settings c) Session.empty = (.error e, session) :=
      hfails
    have hrefused := (hasks Session.empty).2
    rw [houtcome] at hrefused
    exact hrefused
  · intro hk
    obtain ⟨built, session, hreturns⟩ := hasks.exists_returns hk Session.empty
    obtain ⟨middle, hruns, hgrows, hearlier⟩ := of_returns_character hc hreturns
    obtain ⟨own, hown, hkind⟩ := hgrows
    refine ⟨built, session, middle, hreturns, hruns, ?_, hearlier,
      fun b hb => bridgeReady_of_boneRuns hc hruns hb⟩
    rw [hown]
    exact hkind

/-- A chest that is bridged to the neck, with a hole cut into it. -/
def bust : Json ℚ :=
  .obj [
    ("bone_meshes", .obj [
      ("chest", .obj [("connect_end", .str "bridge"),
        ("modifiers", .arr [.obj [("bool", .obj [("target", .str "hole")])]])]),
      ("neck", .obj [("connect_start", .str "bridge")])]),
    ("bool_shapes", .obj [("hole", .obj [("primitive", .str "sphere"),
      ("dimensions", .arr [.int 1, .int 1, .int 1]),
      ("position", .arr [.int 0, .int 0, .int 1])])])]

/-- The bust is resolved with its bridge, and built. -/
theorem character_of_resolve_bust : ∃ c journal built session middle,
    Returns (Character.resolve Settings.standard bust) Journal.empty c journal ∧
      Building.start (character (Simulated.kernel ⟨false, none⟩) Settings.standard c) =
        (.ok built, session) ∧
      middle.exchanges <+: session.exchanges ∧
      BridgeReady (Simulated.kernel ⟨false, none⟩) Settings.standard.bindWeight c built.bones
        ⟨"chest", "neck"⟩ middle := by
  have hresolves :
      ((outcome (Character.resolve Settings.standard bust) Journal.empty).1.toOption.map fun c =>
        (c.meshes.isEmpty, c.bridges)) = some (false, [⟨"chest", "neck"⟩]) := by
    decide +kernel
  rcases houtcome : outcome (Character.resolve Settings.standard bust) Journal.empty with
    ⟨e | c, journal⟩
  · rw [houtcome] at hresolves
    cases hresolves
  · rw [houtcome] at hresolves
    obtain ⟨hempty, hbridges⟩ := Prod.mk.inj (Option.some.inj hresolves)
    have hmeshes : c.meshes ≠ [] := fun h => by simp [h] at hempty
    obtain ⟨built, session, middle, hbuild, -, -, hearlier, hready⟩ :=
      (character_of_resolve houtcome hmeshes (Simulated.kernel ⟨false, none⟩)).2
        (Simulated.neverFails false)
    refine ⟨c, journal, built, session, middle, houtcome, hbuild, hearlier, hready _ ?_⟩
    rw [hbridges]
    exact List.mem_singleton_self _

end Mannequin.Build
