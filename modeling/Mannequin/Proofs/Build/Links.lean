import Mannequin.Proofs.Build.Bridges

/-!
# Bridges as links from parents to children

When no two bridges lead to the same child, bones that are connected have a common
ancestor among the links. So a further bridge to a new child connects what was not
connected exactly if it closes no cycle of links.
-/

namespace Mannequin.Bridge

open Relation

variable {bridges done : List Bridge} {b : Bridge} {p q : String}

/-- A bridge leads from one bone to another. -/
def Links (bridges : List Bridge) (p q : String) : Prop :=
  ∃ b ∈ bridges, b.parent = p ∧ b.child = q

/-- No bone comes back to itself along the links. -/
def Acyclic (bridges : List Bridge) : Prop := ∀ bone, ¬ TransGen (Links bridges) bone bone

theorem links_mono (h : done ⊆ bridges) : Links done ≤ Links bridges := by
  rintro p q ⟨b, hb, hends⟩
  exact ⟨b, h hb, hends⟩

theorem Acyclic.mono (h : Acyclic bridges) (hsubset : done ⊆ bridges) : Acyclic done :=
  fun bone hcycle => h bone (TransGen.mono (links_mono hsubset) _ _ hcycle)

theorem acyclic_nil : Acyclic [] := by
  intro bone hcycle
  obtain ⟨_, ⟨_, hb, -⟩, -⟩ := TransGen.head'_iff.mp hcycle
  cases hb

/-- A child has one parent. -/
theorem Links.unique (hchildren : (bridges.map Bridge.child).Nodup) {p' : String}
    (h : Links bridges p q) (h' : Links bridges p' q) : p = p' := by
  obtain ⟨b, hb, rfl, hchild⟩ := h
  obtain ⟨b', hb', rfl, hchild'⟩ := h'
  rw [List.inj_on_of_nodup_map hchildren hb hb' (hchild.trans hchild'.symm)]

theorem Links.reachable (h : Links bridges p q) : (graph bridges).Reachable p q := by
  obtain ⟨b, hb, rfl, rfl⟩ := h
  exact reachable_of_mem hb

theorem reachable_of_reflTransGen (h : ReflTransGen (Links bridges) p q) :
    (graph bridges).Reachable p q := by
  induction h with
  | refl => rfl
  | tail _ hlink ih => exact ih.trans hlink.reachable

theorem links_of_adj (h : (graph bridges).Adj p q) : Links bridges p q ∨ Links bridges q p := by
  obtain ⟨b, hb, hends⟩ := List.mem_map.mp (graph_adj.mp h).1
  rcases Sym2.eq_iff.mp hends with ⟨hparent, hchild⟩ | ⟨hparent, hchild⟩
  · exact .inl ⟨b, hb, hparent, hchild⟩
  · exact .inr ⟨b, hb, hparent, hchild⟩

/-- Bones that are connected have a common ancestor. -/
theorem exists_ancestor (hchildren : (bridges.map Bridge.child).Nodup)
    (h : (graph bridges).Reachable p q) :
    ∃ ancestor, ReflTransGen (Links bridges) ancestor p ∧
      ReflTransGen (Links bridges) ancestor q := by
  rw [SimpleGraph.reachable_iff_reflTransGen] at h
  induction h with
  | refl => exact ⟨p, .refl, .refl⟩
  | @tail near far _ hadj ih =>
      obtain ⟨ancestor, hp, hnear⟩ := ih
      rcases links_of_adj hadj with hdown | hup
      · exact ⟨ancestor, hp, hnear.tail hdown⟩
      · -- the far bone is the parent of the near one: it is on the way down, or above it
        rcases ReflTransGen.cases_tail hnear with rfl | ⟨before, hbefore, hlast⟩
        · exact ⟨far, .head hup hp, .refl⟩
        · obtain rfl := hlast.unique hchildren hup
          exact ⟨ancestor, hp, hbefore⟩

/-- A way along the links that is there with one more bridge goes over this bridge, or
was there without it. -/
theorem transGen_concat (h : TransGen (Links (done ++ [b])) p q) :
    TransGen (Links done) p q ∨
      ReflTransGen (Links done) p b.parent ∧ ReflTransGen (Links done) b.child q := by
  have hlast : ∀ {r r'}, Links (done ++ [b]) r r' →
      Links done r r' ∨ b.parent = r ∧ b.child = r' := by
    rintro r r' ⟨other, hother, hends⟩
    rcases List.mem_append.mp hother with hold | hnew
    · exact .inl ⟨other, hold, hends⟩
    · exact .inr (List.mem_singleton.mp hnew ▸ hends)
  induction h with
  | single hlink =>
      rcases hlast hlink with hold | ⟨rfl, rfl⟩
      · exact .inl (.single hold)
      · exact .inr ⟨.refl, .refl⟩
  | tail _ hlink ih =>
      rcases hlast hlink with hold | ⟨rfl, rfl⟩
      · exact ih.imp (fun hway => hway.tail hold) fun ⟨hto, hfrom⟩ => ⟨hto, hfrom.tail hold⟩
      · exact .inr ⟨ih.elim TransGen.to_reflTransGen And.left, .refl⟩

/-- A bridge to a new child keeps the links without cycles exactly if it connects bones that
were apart. -/
theorem acyclic_concat_iff (hdone : Acyclic done)
    (hchildren : ((done ++ [b]).map Bridge.child).Nodup) :
    Acyclic (done ++ [b]) ↔ ¬ (graph done).Reachable b.parent b.child := by
  rw [List.map_append, List.nodup_append'] at hchildren
  obtain ⟨hbefore, -, hnew⟩ := hchildren
  constructor
  · intro hacyclic hreach
    obtain ⟨ancestor, hparent, hchild⟩ := exists_ancestor hbefore hreach
    -- nothing leads to the new child yet, so the common ancestor is the child itself
    rcases ReflTransGen.cases_tail hchild with rfl | ⟨_, _, other, hother, -, heq⟩
    · have hway : ReflTransGen (Links (done ++ [b])) b.child b.parent :=
        ReflTransGen.mono (links_mono (List.subset_append_left done [b])) _ _ hparent
      have hlink : Links (done ++ [b]) b.parent b.child :=
        ⟨b, List.mem_append_right _ List.mem_cons_self, rfl, rfl⟩
      exact hacyclic b.child (TransGen.tail' hway hlink)
    · exact hnew (heq ▸ List.mem_map_of_mem hother) List.mem_cons_self
  · intro hapart bone hcycle
    rcases transGen_concat hcycle with hold | ⟨hto, hfrom⟩
    · exact hdone bone hold
    · exact hapart (reachable_of_reflTransGen (hfrom.trans hto)).symm

end Mannequin.Bridge
