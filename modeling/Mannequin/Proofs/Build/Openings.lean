import Mannequin.Proofs.Build.Asking

/-!
# Open ends

A segment that is to have an open end is drawn first, and the caps that it does not
keep are removed at once, before anything is attached to it. Whatever run built the
meshes of the bones, this can be found in its exchanges.
-/

namespace Mannequin.Build

variable {α : Type} [Scalar α] {kernel : Kernel α} {what : String}
  {shapes : NameMap (BoolShape α)} {weight : α} {m : BoneMesh α} {s s' : Session α}

/-! ### Runs from what they return -/

/-- The mesh of a bone that is returned was built in a run of its own. -/
theorem boneRun_of_returns (htargets : TargetsIn shapes m.modifiers) {mesh : Handle}
    (h : Returns (boneMesh kernel shapes weight m) s mesh s') :
    BoneRun kernel shapes weight m ⟨m.bone, mesh⟩ s s' := by
  refine ⟨rfl, h, ?_⟩
  rw [boneMesh_eq] at h
  obtain ⟨shaped, middle, hshape, h⟩ := returns_bind.mp h
  obtain ⟨_, bound, hbind, h⟩ := returns_bind.mp h
  obtain ⟨rfl, rfl⟩ := returns_pure.mp h
  obtain ⟨own, hown, hforms⟩ := (asks_shape htargets).grows hshape
  refine ⟨own, ?_, fun exchange hmem => (hforms exchange hmem).exists_mesh⟩
  rw [(Building.returns_edit.mp hbind).2, Session.record, hown]
  rfl

theorem boneRuns_of_returns {meshes : List (BoneMesh α)} {bones : List BuiltMesh}
    (htargets : ∀ m ∈ meshes, TargetsIn shapes m.modifiers)
    (h : Returns (meshes.mapM fun m => do
      return ⟨m.bone, ← boneMesh kernel shapes weight m⟩) s bones s') :
    BoneRuns kernel shapes weight meshes bones s s' := by
  induction meshes generalizing s bones with
  | nil =>
      rw [List.mapM_nil] at h
      obtain ⟨rfl, rfl⟩ := returns_pure.mp h
      exact .nil s
  | cons m rest ih =>
      rw [List.mapM_cons] at h
      obtain ⟨b, middle, hfirst, h⟩ := returns_bind.mp h
      obtain ⟨others, middle', hothers, h⟩ := returns_bind.mp h
      obtain ⟨rfl, rfl⟩ := returns_pure.mp h
      obtain ⟨mesh, _, hmesh, hnamed⟩ := returns_bind.mp hfirst
      obtain ⟨rfl, rfl⟩ := returns_pure.mp hnamed
      exact .cons (boneRun_of_returns (htargets m List.mem_cons_self) hmesh)
        (ih (fun m hm => htargets m (List.mem_cons_of_mem _ hm)) hothers)

namespace BoneRuns

variable {meshes : List (BoneMesh α)} {bones : List BuiltMesh}

theorem keeps_exchanges (h : BoneRuns kernel shapes weight meshes bones s s') :
    s.exchanges <+: s'.exchanges := by
  induction h with
  | nil => exact List.prefix_rfl
  | cons first _ ih =>
      obtain ⟨own, hown, -⟩ := first.bound
      rw [List.append_assoc] at hown
      exact (hown ▸ List.prefix_append _ _).trans ih

/-- Every mesh has a run of its own among the runs. -/
theorem exists_run (h : BoneRuns kernel shapes weight meshes bones s s') (hm : m ∈ meshes) :
    ∃ b ∈ bones, ∃ start stop, BoneRun kernel shapes weight m b start stop ∧
      stop.exchanges <+: s'.exchanges := by
  induction h with
  | nil => cases hm
  | @cons _ b _ _ s middle s' first rest ih =>
      cases hm with
      | head => exact ⟨b, List.mem_cons_self, s, middle, first, rest.keeps_exchanges⟩
      | tail _ hm =>
          obtain ⟨other, hother, start, stop, hrun, hearlier⟩ := ih hm
          exact ⟨other, List.mem_cons_of_mem b hother, start, stop, hrun, hearlier⟩

end BoneRuns

/-! ### Segments -/

/-- Exchanges that draw the segment of a mesh: it is created, and deformed unless its
field changes nothing. -/
inductive Draws (m : BoneMesh α) : List (Exchange α) → Handle → Prop
  | straight (made : Handle) (h : m.field.IsIdentity) :
      Draws m [⟨.mesh (.create (.profile m.profile) m.segment.matrix), .ok (some made)⟩] made
  | deformed (made mesh : Handle) (h : ¬ m.field.IsIdentity) :
      Draws m [⟨.mesh (.create (.profile m.profile) m.segment.matrix), .ok (some made)⟩,
        ⟨.mesh (.deform made m.field), .ok (some mesh)⟩] mesh

/-- From one session to another the segment of a mesh is drawn, and then its caps are
removed except those that are kept. -/
def Opens (m : BoneMesh α) (keepStart keepEnd : Bool) (s s' : Session α) : Prop :=
  ∃ drawn mesh opened rest, Draws m drawn mesh ∧
    s'.exchanges = s.exchanges ++ drawn ++
      ⟨.mesh (.removeCaps mesh keepStart keepEnd), .ok (some opened)⟩ :: rest

theorem Opens.extend {keepStart keepEnd : Bool} {s'' : Session α}
    (h : Opens m keepStart keepEnd s s') (hearlier : s'.exchanges <+: s''.exchanges) :
    Opens m keepStart keepEnd s s'' := by
  obtain ⟨drawn, mesh, opened, rest, hdraws, hopened⟩ := h
  obtain ⟨more, hmore⟩ := hearlier
  refine ⟨drawn, mesh, opened, rest ++ more, hdraws, ?_⟩
  rw [← hmore, hopened, List.append_assoc, List.cons_append]

theorem opens_of_returns_segment (hopen : ¬ (m.capStart ∧ m.capEnd)) {mesh : Handle}
    (h : Returns (segment kernel what m) s mesh s') : Opens m m.capStart m.capEnd s s' := by
  obtain ⟨made, created, hcreated, hrest⟩ := returns_bind.mp h
  obtain ⟨drawn, deformed, hdeformed, hopened⟩ := returns_bind.mp hrest
  rw [openEnds, if_neg hopen] at hopened
  obtain ⟨-, rfl⟩ := Building.returns_mesh.mp hcreated
  obtain ⟨-, rfl⟩ := Building.returns_mesh.mp hopened
  by_cases hidentity : m.field.IsIdentity
  · rw [deform, if_pos hidentity] at hdeformed
    obtain ⟨rfl, rfl⟩ := returns_pure.mp hdeformed
    exact ⟨_, made, mesh, [], .straight made hidentity, rfl⟩
  · rw [deform, if_neg hidentity] at hdeformed
    obtain ⟨-, rfl⟩ := Building.returns_mesh.mp hdeformed
    refine ⟨_, drawn, mesh, [], .deformed made drawn hidentity, ?_⟩
    simp [Session.record]

/-- The run of a mesh without a part that lacks a cap opens it. -/
theorem BoneRun.opens {b : BuiltMesh} (h : BoneRun kernel shapes weight m b s s')
    (htargets : TargetsIn shapes m.modifiers) (hpart : m.part = none)
    (hopen : ¬ (m.capStart ∧ m.capEnd)) : Opens m m.capStart m.capEnd s s' := by
  have hreturns := h.returns
  rw [boneMesh_eq] at hreturns
  obtain ⟨shaped, middle, hshape, hbound⟩ := returns_bind.mp hreturns
  rw [shape, hpart] at hshape
  obtain ⟨base, drawn, hsegment, hrest⟩ := returns_bind.mp hshape
  obtain ⟨own, hown, -⟩ := (asks_finish htargets base).grows hrest
  obtain ⟨_, _, hbind, hdone⟩ := returns_bind.mp hbound
  obtain ⟨-, rfl⟩ := returns_pure.mp hdone
  obtain ⟨-, rfl⟩ := Building.returns_edit.mp hbind
  refine (opens_of_returns_segment hopen hsegment).extend ?_
  rw [Session.record, hown, List.append_assoc]
  exact List.prefix_append _ _

end Mannequin.Build
