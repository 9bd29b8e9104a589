import Mannequin.Proofs.Build.Links
import Mannequin.Proofs.Build.Resolved

/-!
# What bridges are made on

A kernel bridges the open end of one mesh to the open start of another. When a bridge is
asked for, its two bones share a mesh already exactly if the bridges before it connect
them, and the ends that these have used are not open any more. So the bridges of a
resolved character can all be made as they are meant exactly if no two of them have the
same parent and they do not lead in a circle.
-/

namespace Mannequin

variable {α : Type}

/-! ### Calls for bridges -/

/-- The two meshes that a call is to bridge. -/
def Exchange.bridged? (exchange : Exchange α) : Option (Handle × Handle) :=
  match exchange.call with
  | .mesh (.bridge parent child) => some (parent, child)
  | _ => none

namespace Session

variable {s s' : Session α}

/-- The meshes that bridges were asked for, in order. -/
def bridged (s : Session α) : List (Handle × Handle) := s.exchanges.filterMap Exchange.bridged?

theorem bridged_record_bridge (s : Session α) (parent child : Handle)
    (reply : Except Refusal (Option Handle)) :
    (s.record ⟨.mesh (.bridge parent child), reply⟩).bridged = s.bridged ++ [(parent, child)] := by
  rw [bridged, record, List.filterMap_append]
  rfl

theorem Grows.bridged_eq (h : s.Grows (fun call => ¬ call.Bridges) s') :
    s'.bridged = s.bridged := by
  obtain ⟨own, hown, hkind⟩ := h
  have hnone : own.filterMap Exchange.bridged? = [] := by
    refine List.filterMap_eq_nil_iff.mpr fun exchange hmem => ?_
    have hother := hkind exchange hmem
    unfold Exchange.bridged?
    split
    case h_1 heq =>
      rw [heq] at hother
      exact absurd trivial hother
    case h_2 => rfl
  rw [bridged, bridged, hown, List.filterMap_append, hnone, List.append_nil]

end Session

namespace Bridge

variable {done rest : List Bridge} {b : Bridge} {call : Handle × Handle}
  {calls : List (Handle × Handle)}

/-- A bridge can be made as it is meant: it is asked for on two meshes, and the end of its
parent and the start of its child are still open. -/
structure Fits (done : List Bridge) (b : Bridge) (call : Handle × Handle) : Prop where
  differ : call.1 ≠ call.2
  endOpen : ∀ earlier ∈ done, earlier.parent ≠ b.parent
  startOpen : ∀ earlier ∈ done, earlier.child ≠ b.child

/-- Bridges are asked for after others, one call for each, and each of them fits. -/
inductive AllFit : List Bridge → List Bridge → List (Handle × Handle) → Prop
  | nil (done : List Bridge) : AllFit done [] []
  | cons {done rest : List Bridge} {b : Bridge} {call : Handle × Handle}
      {calls : List (Handle × Handle)} (first : Fits done b call)
      (others : AllFit (done ++ [b]) rest calls) : AllFit done (b :: rest) (call :: calls)

/-- Bridges are asked for after others, one call for each. Its meshes are the same one
exactly if its bones are connected by then. -/
inductive Called : List Bridge → List Bridge → List (Handle × Handle) → Prop
  | nil (done : List Bridge) : Called done [] []
  | cons {done rest : List Bridge} {b : Bridge} {call : Handle × Handle}
      {calls : List (Handle × Handle)}
      (same : call.1 = call.2 ↔ (graph done).Reachable b.parent b.child)
      (others : Called (done ++ [b]) rest calls) : Called done (b :: rest) (call :: calls)

/-- Bridges that make up chains: none of their ends is used twice, and they do not lead in a
circle. -/
structure Chains (bridges : List Bridge) : Prop where
  parents : (bridges.map Bridge.parent).Nodup
  children : (bridges.map Bridge.child).Nodup
  acyclic : Acyclic bridges

theorem Chains.nil : Chains [] := ⟨List.nodup_nil, List.nodup_nil, acyclic_nil⟩

theorem Chains.before (h : Chains (done ++ rest)) : Chains done := by
  have hearlier : done.Sublist (done ++ rest) := List.sublist_append_left done rest
  exact ⟨h.parents.sublist (hearlier.map _), h.children.sublist (hearlier.map _),
    h.acyclic.mono hearlier.subset⟩

theorem nodup_map_concat_iff {f : Bridge → String} :
    ((done ++ [b]).map f).Nodup ↔ (done.map f).Nodup ∧ ∀ earlier ∈ done, f earlier ≠ f b := by
  rw [List.map_append, List.nodup_append']
  simp [List.disjoint_singleton]

/-- A bridge fits after chains exactly if it makes longer chains of them. -/
theorem fits_iff (hdone : Chains done)
    (same : call.1 = call.2 ↔ (graph done).Reachable b.parent b.child) :
    Fits done b call ↔ Chains (done ++ [b]) := by
  constructor
  · intro h
    have hchildren := nodup_map_concat_iff.mpr ⟨hdone.children, h.startOpen⟩
    refine ⟨nodup_map_concat_iff.mpr ⟨hdone.parents, h.endOpen⟩, hchildren, ?_⟩
    exact (acyclic_concat_iff hdone.acyclic hchildren).mpr fun hreach => h.differ (same.mpr hreach)
  · intro h
    refine ⟨fun heq => ?_, (nodup_map_concat_iff.mp h.parents).2,
      (nodup_map_concat_iff.mp h.children).2⟩
    exact (acyclic_concat_iff hdone.acyclic h.children).mp h.acyclic (same.mp heq)

/-- Bridges fit after chains exactly if all of them make up chains. -/
theorem Called.allFit_iff (h : Called done rest calls) (hdone : Chains done) :
    AllFit done rest calls ↔ Chains (done ++ rest) := by
  induction h with
  | nil done =>
      rw [List.append_nil]
      exact iff_of_true (.nil done) hdone
  | @cons done rest b call calls same _ ih =>
      rw [List.append_cons]
      constructor
      · rintro (_ | ⟨first, others⟩)
        exact (ih ((fits_iff hdone same).mp first)).mp others
      · intro hall
        exact .cons ((fits_iff hdone same).mpr hall.before) ((ih hall.before).mpr hall)

theorem Called.length_eq (h : Called done rest calls) : calls.length = rest.length := by
  induction h with
  | nil => rfl
  | cons _ _ ih => rw [List.length_cons, List.length_cons, ih]

end Bridge

namespace Build

variable {kernel : Kernel α} {s s' : Session α} {current : NameMap Handle}
  {done rest : List Bridge} {b : Bridge}

/-! ### Bones that share a mesh -/

/-- Bridges have been made on a kernel: bones share a mesh exactly if they are connected. -/
structure Merging (kernel : Kernel α) (s : Session α) (current : NameMap Handle)
    (done : List Bridge) : Prop where
  past : kernel.Past s.exchanges
  covers : Covers (Exchange.live s.exchanges) current done
  joined : ∀ b ∈ done, current.get? b.parent = current.get? b.child

theorem Shares.merging (h : Shares kernel s current []) : Merging kernel s current [] :=
  ⟨h.history.past, h.covers, fun _ hb => absurd hb List.not_mem_nil⟩

namespace Merging

theorem get?_eq (h : Merging kernel s current done) {p q : String}
    (hreach : (Bridge.graph done).Reachable p q) : current.get? p = current.get? q := by
  rw [SimpleGraph.reachable_iff_reflTransGen] at hreach
  induction hreach with
  | refl => rfl
  | tail _ hadj ih =>
      rcases Bridge.links_of_adj hadj with ⟨b, hb, rfl, rfl⟩ | ⟨b, hb, rfl, rfl⟩
      · exact ih.trans (h.joined b hb)
      · exact ih.trans (h.joined b hb).symm

theorem same_iff (h : Merging kernel s current done) {p q : String} {mesh mesh' : Handle}
    (hp : current.get? p = some mesh) (hq : current.get? q = some mesh') :
    mesh = mesh' ↔ (Bridge.graph done).Reachable p q := by
  constructor
  · rintro rfl
    exact h.covers.connected hp hq
  · intro hreach
    exact Option.some.inj (hp.symm.trans ((h.get?_eq hreach).trans hq))

/-- A bridge is made between any two bones that have meshes. -/
theorem bridge (hk : kernel.NeverFails) (hfresh : kernel.Fresh)
    (h : Merging kernel s current done) {parent child : Handle}
    (hp : current.get? b.parent = some parent) (hc : current.get? b.child = some child) :
    ∃ made, Returns (Build.bridge kernel current b) s (merged current parent child made)
        (s.record ⟨.mesh (.bridge parent child), .ok (some made)⟩) ∧
      Merging kernel (s.record ⟨.mesh (.bridge parent child), .ok (some made)⟩)
        (merged current parent child made) (done ++ [b]) := by
  obtain ⟨made, hanswer⟩ := hk.mesh s.exchanges (.bridge parent child)
  have hlive : ∀ mesh ∈ (MeshCall.bridge parent child : MeshCall α).operands,
      mesh ∈ Exchange.live s.exchanges := by
    intro mesh hmesh
    rcases List.mem_pair.mp hmesh with rfl | rfl
    · exact (h.covers.mem mesh).mpr ⟨b.parent, hp⟩
    · exact (h.covers.mem mesh).mpr ⟨b.child, hc⟩
  have hnew := (hfresh _ _ _ h.past hlive hanswer).2
  have htaken : (MeshCall.bridge parent child : MeshCall α).operands.toFinset =
      {parent, child} := by
    simp [MeshCall.operands]
  rw [htaken] at hnew
  refine ⟨made, ?_, .mesh h.past hlive hanswer, ?_, ?_⟩
  · simp only [Build.bridge, hp, hc]
    exact returns_bind.mpr ⟨made, _, Building.returns_mesh.mpr ⟨hanswer, rfl⟩, rfl⟩
  · rw [Session.record, Exchange.live_concat, Exchange.track_mesh, htaken]
    exact h.covers.merge hp hc hnew
  · intro other hother
    rw [merged, NameMap.get?_map, NameMap.get?_map]
    rcases List.mem_append.mp hother with hold | hlast
    · rw [h.joined other hold]
    · rw [List.mem_singleton.mp hlast, hp, hc]
      simp

/-- Every bridge is asked for once, on the meshes that its bones have by then. -/
theorem bridges (hk : kernel.NeverFails) (hfresh : kernel.Fresh)
    (h : Merging kernel s current done)
    (hends : ∀ b ∈ rest, b.parent ∈ current ∧ b.child ∈ current) :
    ∃ current' s' calls, Returns (rest.foldlM (Build.bridge kernel) current) s current' s' ∧
      Bridge.Called done rest calls ∧ s'.bridged = s.bridged ++ calls := by
  induction rest generalizing s current done with
  | nil => exact ⟨current, s, [], rfl, .nil done, (List.append_nil _).symm⟩
  | cons b rest ih =>
      obtain ⟨hparent, hchild⟩ := hends b List.mem_cons_self
      obtain ⟨parent, hp⟩ := NameMap.mem_iff_exists.mp hparent
      obtain ⟨child, hc⟩ := NameMap.mem_iff_exists.mp hchild
      obtain ⟨made, hfirst, hmerging⟩ := h.bridge hk hfresh hp hc
      have hnames : ∀ b ∈ rest, b.parent ∈ merged current parent child made ∧
          b.child ∈ merged current parent child made := by
        intro b hb
        rw [mem_merged, mem_merged]
        exact hends b (List.mem_cons_of_mem _ hb)
      obtain ⟨current', s', calls, hrest, hcalled, hbridged⟩ := ih hmerging hnames
      have hsame : (parent, child).1 = (parent, child).2 ↔
          (Bridge.graph done).Reachable b.parent b.child := h.same_iff hp hc
      refine ⟨current', s', (parent, child) :: calls, ?_, .cons hsame hcalled, ?_⟩
      · rw [List.foldlM_cons]
        exact returns_bind.mpr ⟨_, _, hfirst, hrest⟩
      · rw [hbridged, Session.bridged_record_bridge, List.append_assoc, List.singleton_append]

end Merging

/-! ### Resolved characters -/

variable [Scalar α] {settings : Settings α} {c : Character α}

/-- A build asks for the bridges of a character one after the other. -/
theorem called_of_start (hk : kernel.NeverFails) (hfresh : kernel.Fresh) (settings : Settings α)
    (hc : c.Coherent) :
    Bridge.Called [] c.bridges (Building.start (character kernel settings c)).2.bridged := by
  by_cases hmeshes : c.meshes = []
  · have hbridges : c.bridges = [] := by
      refine List.eq_nil_iff_forall_not_mem.mpr fun b hb => ?_
      have hparent := (hc.ends b hb).1
      rw [hmeshes] at hparent
      cases hparent
    have hempty : (Building.start (character kernel settings c)).2 = Session.empty := by
      rw [character, hmeshes]
      rfl
    rw [hempty, hbridges]
    exact .nil []
  · obtain ⟨bones, middle, hruns, hholds⟩ := exists_boneRuns (hfresh.reliable hk)
      settings.bindWeight hc.targets (Holds.start kernel)
    have hdistinct : (bones.map BuiltMesh.bone).Nodup := hruns.names ▸ hc.distinct
    have hmem : ∀ b ∈ c.bridges,
        b.parent ∈ NameMap.ofList (bones.map fun b => (b.bone, b.handle)) ∧
          b.child ∈ NameMap.ofList (bones.map fun b => (b.bone, b.handle)) := by
      intro b hb
      rw [mem_built hdistinct, mem_built hdistinct, hruns.names]
      exact hc.ends b hb
    obtain ⟨current, bridged, calls, hbridges, hcalled, hcalls⟩ :=
      (shares_built hdistinct hholds).merging.bridges hk hfresh hmem
    have hjoins : Asks kernel Call.Forms
        (joinAll kernel (distinct (bones.filterMap fun b => current.get? b.bone)))
        fun _ => True := asks_joinAll _
    obtain ⟨mesh, joined, hjoin⟩ := hjoins.exists_returns hk bridged
    have hbones : Session.empty.Grows (fun call => ¬ call.Bridges) middle :=
      (asks_boneMeshes hc.targets).grows hruns.returns
    have hlast := ((hjoins.grows hjoin).mono fun _ => Call.Forms.not_bridges).bridged_eq
    rw [start_character hmeshes hruns.returns hbridges hjoin]
    have hall : joined.bridged = calls := by
      rw [hlast, hcalls, hbones.bridged_eq]
      rfl
    exact hall.symm ▸ hcalled

/-- Of a resolved character every bridge is asked for once, and no two lead to the same
start. All of them fit exactly if no two lead from the same end and they lead in no
circle. -/
theorem allFit_iff_of_resolve {recipe : Json α} {journal journal' : Journal}
    (h : Returns (Character.resolve settings recipe) journal c journal')
    (hk : kernel.NeverFails) (hfresh : kernel.Fresh) :
    (Building.start (character kernel settings c)).2.bridged.length = c.bridges.length ∧
      (c.bridges.map Bridge.child).Nodup ∧
      (Bridge.AllFit [] c.bridges (Building.start (character kernel settings c)).2.bridged ↔
        (c.bridges.map Bridge.parent).Nodup ∧ Bridge.Acyclic c.bridges) := by
  have hcalled := called_of_start hk hfresh settings (Character.coherent_of_returns_resolve h)
  have hchildren := Character.nodup_children_of_returns_resolve h
  refine ⟨hcalled.length_eq, hchildren, (hcalled.allFit_iff .nil).trans ?_⟩
  rw [List.nil_append]
  exact ⟨fun hchains => ⟨hchains.parents, hchains.acyclic⟩,
    fun ⟨hparents, hacyclic⟩ => ⟨hparents, hchildren, hacyclic⟩⟩

/-- A chest that is bridged to the neck, which is bridged to the head. -/
def column : Json ℚ :=
  .obj [("bone_meshes", .obj [
    ("chest", .obj [("connect_end", .str "bridge")]),
    ("neck", .obj [("connect_start", .str "bridge"), ("connect_end", .str "bridge")]),
    ("head", .obj [("connect_start", .str "bridge")])])]

/-- The column is resolved and built. -/
theorem allFit_iff_of_resolve_column : ∃ c journal session,
    Returns (Character.resolve Settings.standard column) Journal.empty c journal ∧
      c.bridges = [⟨"neck", "head"⟩, ⟨"chest", "neck"⟩] ∧
      (Building.start (character (Simulated.kernel ⟨true, none⟩) Settings.standard c)).2 = session ∧
      session.bridged.length = 2 ∧
      (Bridge.AllFit [] c.bridges session.bridged ↔
        (c.bridges.map Bridge.parent).Nodup ∧ Bridge.Acyclic c.bridges) := by
  have hseen : seen (Character.resolve Settings.standard column) Journal.empty
      (fun c _ => c.bridges) = some [⟨"neck", "head"⟩, ⟨"chest", "neck"⟩] := by
    decide +kernel
  obtain ⟨c, journal, h, hbridges⟩ := exists_returns_of_seen hseen
  obtain ⟨hlength, -, hfit⟩ :=
    allFit_iff_of_resolve h (Simulated.neverFails true) (Simulated.fresh true)
  exact ⟨c, journal, _, h, hbridges, rfl, hlength.trans (by rw [hbridges]; rfl), hfit⟩

/-- Hips that both legs ask to be bridged to. -/
def straddle : Json ℚ :=
  .obj [("bone_meshes", .obj [
    ("hips", .obj [("connect_end", .str "bridge")]),
    ("upper_leg_l", .obj [("connect_start", .str "bridge")]),
    ("upper_leg_r", .obj [("connect_start", .str "bridge")])])]

/-- Both legs are bridged to the one end of the hips. -/
theorem exists_end_bridged_twice : ∃ c journal,
    Returns (Character.resolve Settings.standard straddle) Journal.empty c journal ∧
      (Simulated.kernel ⟨false, none⟩ : Kernel ℚ).NeverFails ∧
      (Simulated.kernel ⟨false, none⟩ : Kernel ℚ).Fresh ∧
      c.bridges = [⟨"hips", "upper_leg_l"⟩, ⟨"hips", "upper_leg_r"⟩] ∧
      ¬ Bridge.AllFit [] c.bridges (Building.start
        (character (Simulated.kernel ⟨false, none⟩) Settings.standard c)).2.bridged := by
  have hseen : seen (Character.resolve Settings.standard straddle) Journal.empty
      (fun c _ => c.bridges) = some [⟨"hips", "upper_leg_l"⟩, ⟨"hips", "upper_leg_r"⟩] := by
    decide +kernel
  obtain ⟨c, journal, h, hbridges⟩ := exists_returns_of_seen hseen
  refine ⟨c, journal, h, Simulated.neverFails false, Simulated.fresh false, hbridges, ?_⟩
  rw [hbridges]
  generalize (Building.start (character (Simulated.kernel ⟨false, none⟩) Settings.standard
    c)).2.bridged = calls
  rintro (_ | ⟨-, _ | ⟨hsecond, -⟩⟩)
  exact hsecond.endOpen _ List.mem_cons_self rfl

end Build

end Mannequin
