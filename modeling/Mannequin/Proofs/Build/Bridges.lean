import Mathlib.Combinatorics.SimpleGraph.Acyclic
import Mannequin.Proofs.Build.Shaping

/-!
# Bridging meshes

A bridge consumes the meshes of its two bones, and from then on both bones, and all
that shared a mesh with them, share the mesh that it made. When the bridges form a
forest, bones that a bridge is to connect are not connected before. So their
meshes differ, and every live mesh is the mesh of some bone at all times.
-/

namespace Mannequin

namespace Bridge

/-- The two bones of a bridge. -/
def ends (b : Bridge) : Sym2 String := s(b.parent, b.child)

/-- Bones as they are connected by bridges. -/
def graph (bridges : List Bridge) : SimpleGraph String :=
  SimpleGraph.fromEdgeSet {e | e ∈ bridges.map ends}

/-- Bridges form a forest: each connects two bones, no two of them the same ones, and
there are no cycles. -/
structure IsForest (bridges : List Bridge) : Prop where
  proper : ∀ b ∈ bridges, b.parent ≠ b.child
  single : (bridges.map ends).Nodup
  acyclic : (graph bridges).IsAcyclic

variable {bridges done rest : List Bridge} {b : Bridge} {p q : String}

theorem graph_adj : (graph bridges).Adj p q ↔ s(p, q) ∈ bridges.map ends ∧ p ≠ q :=
  SimpleGraph.fromEdgeSet_adj _

theorem graph_mono (h : done ⊆ bridges) : graph done ≤ graph bridges :=
  SimpleGraph.fromEdgeSet_mono fun _ he => List.map_subset ends h he

theorem reachable_of_mem (hb : b ∈ bridges) : (graph bridges).Reachable b.parent b.child := by
  by_cases hends : b.parent = b.child
  · rw [hends]
  · exact (graph_adj.mpr ⟨List.mem_map_of_mem hb, hends⟩).reachable

theorem graph_nil : graph [] = ⊥ := by
  ext p q
  rw [graph_adj]
  simp

theorem IsForest.nil : IsForest [] := by
  refine ⟨fun b hb => absurd hb List.not_mem_nil, List.nodup_nil, ?_⟩
  rw [graph_nil]
  exact SimpleGraph.isAcyclic_bot

/-- A bridge between bones that are not connected leaves a forest a forest. -/
theorem IsForest.concat (h : IsForest done)
    (hapart : ¬ (graph done).Reachable b.parent b.child) : IsForest (done ++ [b]) := by
  have hends : b.parent ≠ b.child := fun heq => hapart (heq ▸ SimpleGraph.Reachable.rfl)
  refine ⟨?_, ?_, ?_⟩
  · intro other hother
    rcases List.mem_append.mp hother with hdone | hnew
    · exact h.proper other hdone
    · rwa [List.mem_singleton.mp hnew]
  · rw [List.map_append, List.nodup_append']
    refine ⟨h.single, List.nodup_singleton b.ends, List.disjoint_singleton.mpr fun hmem => ?_⟩
    exact hapart (SimpleGraph.Adj.reachable (graph_adj.mpr ⟨hmem, hends⟩))
  · have hsup : graph (done ++ [b]) = graph done ⊔ SimpleGraph.edge b.parent b.child := by
      rw [graph, graph, SimpleGraph.edge, ← SimpleGraph.fromEdgeSet_union]
      congr 1
      ext e
      simp [ends, or_comm]
    rw [hsup]
    exact h.acyclic.sup_edge_of_not_reachable hapart

/-- In a forest a bridge connects what the bridges before it do not. -/
theorem IsForest.separate (h : IsForest (done ++ b :: rest)) :
    ¬ (graph done).Reachable b.parent b.child := by
  have hmem : b ∈ done ++ b :: rest := List.mem_append_right _ List.mem_cons_self
  have hadj : (graph (done ++ b :: rest)).Adj b.parent b.child :=
    graph_adj.mpr ⟨List.mem_map_of_mem hmem, h.proper b hmem⟩
  have hbridge := SimpleGraph.isAcyclic_iff_forall_adj_isBridge.mp h.acyclic hadj
  have hnodup := h.single
  rw [List.map_append, List.map_cons] at hnodup
  have hother : b.ends ∉ done.map ends := fun hdone =>
    (List.nodup_append'.mp hnodup).2.2 hdone List.mem_cons_self
  rw [SimpleGraph.isBridge_iff] at hbridge
  refine fun hreach => hbridge (hreach.mono ?_)
  intro p q hpq
  rw [SimpleGraph.deleteEdges_adj]
  refine ⟨graph_mono (List.subset_append_left done _) hpq, fun heq => ?_⟩
  have hends : s(p, q) = b.ends := heq
  exact hother (hends ▸ (graph_adj.mp hpq).1)

end Bridge

namespace Build

variable {α : Type} {kernel : Kernel α} {s s' : Session α}
  {current : NameMap Handle} {done rest : List Bridge} {b : Bridge}

/-- Every live mesh is that of some bone, and bones that share a mesh are connected. -/
structure Shares (kernel : Kernel α) (s : Session α) (current : NameMap Handle)
    (done : List Bridge) : Prop where
  history : kernel.History s.exchanges
  live : ∀ mesh, mesh ∈ Exchange.live s.exchanges ↔ ∃ bone, current.get? bone = some mesh
  connected : ∀ {p q mesh}, current.get? p = some mesh → current.get? q = some mesh →
    (Bridge.graph done).Reachable p q

theorem mem_merged {parent child bridged : Handle} {bone : String} :
    bone ∈ merged current parent child bridged ↔ bone ∈ current := NameMap.mem_map

theorem get?_merged {parent child bridged mesh : Handle} {bone : String} :
    (merged current parent child bridged).get? bone = some mesh ↔
      ∃ old, current.get? bone = some old ∧
        (if old = parent ∨ old = child then bridged else old) = mesh := by
  rw [merged, NameMap.get?_map, Option.map_eq_some_iff]

/-- Some meshes are those of the bones, and bones that share a mesh are connected. -/
structure Covers (meshes : Finset Handle) (current : NameMap Handle) (done : List Bridge) :
    Prop where
  mem : ∀ mesh, mesh ∈ meshes ↔ ∃ bone, current.get? bone = some mesh
  connected : ∀ {p q mesh}, current.get? p = some mesh → current.get? q = some mesh →
    (Bridge.graph done).Reachable p q

variable {meshes : Finset Handle} {parent child made : Handle}

/-- The mesh that a bridge made is that of the parent, and the other meshes stay. -/
theorem Covers.mem_merge (h : Covers meshes current done)
    (hp : current.get? b.parent = some parent) (mesh : Handle) :
    mesh ∈ insert made (meshes \ {parent, child}) ↔
      ∃ bone, (merged current parent child made).get? bone = some mesh := by
  rw [Finset.mem_insert, Finset.mem_sdiff, Finset.mem_insert, Finset.mem_singleton, h.mem]
  constructor
  · rintro (rfl | ⟨⟨bone, hbone⟩, hother⟩)
    · exact ⟨b.parent, get?_merged.mpr ⟨parent, hp, if_pos (.inl rfl)⟩⟩
    · exact ⟨bone, get?_merged.mpr ⟨mesh, hbone, if_neg hother⟩⟩
  · rintro ⟨bone, hbone⟩
    obtain ⟨old, hold, hnew⟩ := get?_merged.mp hbone
    split at hnew
    case isTrue => exact .inl hnew.symm
    case isFalse hother => exact .inr ⟨⟨bone, hnew ▸ hold⟩, hnew ▸ hother⟩

/-- Bones whose mesh is bridged are connected to the parent afterwards. -/
theorem Covers.reachable_parent (h : Covers meshes current done)
    (hp : current.get? b.parent = some parent) (hc : current.get? b.child = some child)
    {bone : String} {old : Handle} (hbone : current.get? bone = some old)
    (hbridged : old = parent ∨ old = child) :
    (Bridge.graph (done ++ [b])).Reachable bone b.parent := by
  have hlater : Bridge.graph done ≤ Bridge.graph (done ++ [b]) :=
    Bridge.graph_mono (List.subset_append_left done [b])
  have hbridge : (Bridge.graph (done ++ [b])).Reachable b.parent b.child :=
    Bridge.reachable_of_mem (List.mem_append_right _ List.mem_cons_self)
  rcases hbridged with rfl | rfl
  · exact (h.connected hbone hp).mono hlater
  · exact ((h.connected hbone hc).mono hlater).trans hbridge.symm

/-- A mesh that is new, or one of those that are bridged, takes their place. -/
theorem Covers.merge (h : Covers meshes current done) (hp : current.get? b.parent = some parent)
    (hc : current.get? b.child = some child) (hfresh : made ∉ meshes \ {parent, child}) :
    Covers (insert made (meshes \ {parent, child})) (merged current parent child made)
      (done ++ [b]) := by
  have hlater : Bridge.graph done ≤ Bridge.graph (done ++ [b]) :=
    Bridge.graph_mono (List.subset_append_left done [b])
  -- no bone had the new mesh, unless it was one of the two that were bridged
  have hunused : ∀ {bone}, current.get? bone = some made → made = parent ∨ made = child := by
    intro bone hbone
    by_contra hother
    refine hfresh (Finset.mem_sdiff.mpr ⟨(h.mem made).mpr ⟨bone, hbone⟩, ?_⟩)
    simpa using hother
  refine ⟨h.mem_merge hp, ?_⟩
  intro p q mesh hpmesh hqmesh
  obtain ⟨oldp, hpold, hpnew⟩ := get?_merged.mp hpmesh
  obtain ⟨oldq, hqold, hqnew⟩ := get?_merged.mp hqmesh
  by_cases hpjoin : oldp = parent ∨ oldp = child
  · rw [if_pos hpjoin] at hpnew
    subst hpnew
    have hqjoin : oldq = parent ∨ oldq = child := by
      by_contra hqother
      rw [if_neg hqother] at hqnew
      exact hqother (hqnew ▸ hunused (hqnew ▸ hqold))
    exact (h.reachable_parent hp hc hpold hpjoin).trans
      (h.reachable_parent hp hc hqold hqjoin).symm
  · rw [if_neg hpjoin] at hpnew
    subst hpnew
    by_cases hqjoin : oldq = parent ∨ oldq = child
    · rw [if_pos hqjoin] at hqnew
      exact absurd (hqnew ▸ hunused (hqnew ▸ hpold)) hpjoin
    · rw [if_neg hqjoin] at hqnew
      exact (h.connected hpold (hqnew ▸ hqold)).mono hlater

namespace Shares

/-- The meshes of two bones that are not connected differ, and can be bridged. -/
theorem holds (h : Shares kernel s current done) {parent child : Handle}
    (hparent : current.get? b.parent = some parent) (hchild : current.get? b.child = some child)
    (hapart : ¬ (Bridge.graph done).Reachable b.parent b.child) :
    Holds kernel s [parent, child] (Exchange.live s.exchanges \ {parent, child}) := by
  have hne : parent ≠ child := by
    rintro rfl
    exact hapart (h.connected hparent hchild)
  refine ⟨h.history, ?_, by simpa using hne, by simp⟩
  have hsubset : ({parent, child} : Finset Handle) ⊆ Exchange.live s.exchanges := by
    intro mesh hmesh
    rw [Finset.mem_insert, Finset.mem_singleton] at hmesh
    rcases hmesh with rfl | rfl
    · exact (h.live mesh).mpr ⟨b.parent, hparent⟩
    · exact (h.live mesh).mpr ⟨b.child, hchild⟩
  have htaken : [parent, child].toFinset = {parent, child} := by simp
  rw [htaken, Finset.union_sdiff_of_subset hsubset]

theorem covers (h : Shares kernel s current done) :
    Covers (Exchange.live s.exchanges) current done :=
  ⟨h.live, h.connected⟩

/-- A bridge that connects bones that were apart can be made. -/
theorem bridge (hk : kernel.Reliable) (h : Shares kernel s current done)
    (hparent : b.parent ∈ current) (hchild : b.child ∈ current)
    (hapart : ¬ (Bridge.graph done).Reachable b.parent b.child) :
    ∃ current' s', Returns (Build.bridge kernel current b) s current' s' ∧
      Shares kernel s' current' (done ++ [b]) ∧ s.Shapes s' ∧
      ∀ bone, bone ∈ current' ↔ bone ∈ current := by
  obtain ⟨parent, hp⟩ := NameMap.mem_iff_exists.mp hparent
  obtain ⟨child, hc⟩ := NameMap.mem_iff_exists.mp hchild
  obtain ⟨made, hanswer, hholds⟩ := Holds.mesh hk (.bridge parent child) (h.holds hp hc hapart)
  have hmerged := h.covers.merge hp hc (hholds.apart made List.mem_cons_self)
  have hlive : Exchange.live (s.record ⟨.mesh (.bridge parent child), .ok (some made)⟩).exchanges =
      insert made (Exchange.live s.exchanges \ {parent, child}) := hholds.live
  refine ⟨merged current parent child made, _, ?_, ⟨hholds.history, ?_, hmerged.connected⟩,
    .record s _ _, fun bone => mem_merged⟩
  · simp only [Build.bridge, hp, hc]
    exact returns_bind.mpr ⟨made, _, Building.returns_mesh.mpr ⟨hanswer, rfl⟩, rfl⟩
  · rw [hlive]
    exact hmerged.mem

/-- Bridges that form a forest over bones with meshes can be made one after the other. -/
theorem bridges (hk : kernel.Reliable) (h : Shares kernel s current done)
    (hends : ∀ b ∈ rest, b.parent ∈ current ∧ b.child ∈ current)
    (hforest : Bridge.IsForest (done ++ rest)) :
    ∃ current' s', Returns (rest.foldlM (Build.bridge kernel) current) s current' s' ∧
      Shares kernel s' current' (done ++ rest) ∧ s.Shapes s' ∧
      ∀ bone, bone ∈ current' ↔ bone ∈ current := by
  induction rest generalizing s current done with
  | nil =>
      rw [List.append_nil]
      exact ⟨current, s, rfl, h, .refl s, fun bone => Iff.rfl⟩
  | cons b rest ih =>
      obtain ⟨hparent, hchild⟩ := hends b List.mem_cons_self
      obtain ⟨middle, s₁, hfirst, hshares, hshapes, hnames⟩ :=
        h.bridge hk hparent hchild hforest.separate
      rw [List.append_cons] at hforest ⊢
      obtain ⟨current', s', hrest, hlast, hmore, hsame⟩ := ih hshares
        (fun b hb => by
          rw [hnames, hnames]
          exact hends b (List.mem_cons_of_mem _ hb))
        hforest
      refine ⟨current', s', ?_, hlast, hshapes.trans hmore, fun bone =>
        (hsame bone).trans (hnames bone)⟩
      rw [List.foldlM_cons]
      exact returns_bind.mpr ⟨middle, s₁, hfirst, hrest⟩

end Shares

end Build

end Mannequin
