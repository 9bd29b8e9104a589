import Mathlib.Data.Finset.Disjoint
import Mathlib.Data.Finset.SDiff
import Mathlib.Data.Finset.Lattice.Lemmas
import Mathlib.Data.List.Nodup
import Mannequin.Proofs.Kernel.Building

/-!
# Custody of meshes

A mesh is live from the answer that hands it out to the call that takes it. A call
that answers with a mesh consumes those that it is passed; binding a mesh and
naming its groups leave it live. The kernels considered here answer every call
that is passed live and different meshes, and hand out no mesh that is live
already. Work on such a kernel is described by the meshes that it takes over and
those that it gives back; all other live meshes stay as they are.
-/

namespace Mannequin

variable {α : Type}

/-- No mesh. -/
def Handle.invalid : Handle := 0

namespace EditCall

/-- The mesh that a call changes. -/
def target : EditCall α → Handle
  | bind target _ _ => target
  | renameGroup target _ _ => target
  | mergeGroup target _ _ => target

end EditCall

namespace Call

/-- The meshes that a call is passed. -/
def handles : Call α → List Handle
  | mesh call => call.operands
  | edit call => [call.target]

/-- A call is passed live meshes, and none of them twice. -/
structure Proper (live : Finset Handle) (call : Call α) : Prop where
  live : ∀ mesh ∈ call.handles, mesh ∈ live
  distinct : call.handles.Nodup

end Call

namespace Exchange

/-- The live meshes after an exchange. -/
def track (live : Finset Handle) (exchange : Exchange α) : Finset Handle :=
  match exchange.call, exchange.reply with
  | .mesh call, .ok (some made) => insert made (live \ call.operands.toFinset)
  | _, _ => live

@[simp] theorem track_mesh (live : Finset Handle) (call : MeshCall α) (made : Handle) :
    track live ⟨.mesh call, .ok (some made)⟩ = insert made (live \ call.operands.toFinset) := rfl

@[simp] theorem track_edit (live : Finset Handle) (call : EditCall α)
    (reply : Except Refusal (Option Handle)) : track live ⟨.edit call, reply⟩ = live := rfl

/-- The meshes that are live after a list of exchanges. -/
def live (exchanges : List (Exchange α)) : Finset Handle := exchanges.foldl track ∅

theorem live_concat (past : List (Exchange α)) (exchange : Exchange α) :
    live (past ++ [exchange]) = exchange.track (live past) := by
  rw [live, List.foldl_append]
  rfl

/-- An exchange that is about geometry, and not about groups and bones. -/
def IsGeometry (exchange : Exchange α) : Prop := ∃ call, exchange.call = .mesh call

end Exchange

namespace Kernel

/-- The exchanges with a kernel that can come about by proper calls. -/
inductive History (kernel : Kernel α) : List (Exchange α) → Prop
  | start : History kernel []
  | mesh {past : List (Exchange α)} {call : MeshCall α} {made : Handle}
      (earlier : History kernel past) (proper : (Call.mesh call).Proper (Exchange.live past))
      (answer : kernel.mesh past call = .ok made) :
      History kernel (past ++ [⟨.mesh call, .ok (some made)⟩])
  | edit {past : List (Exchange α)} {call : EditCall α}
      (earlier : History kernel past) (proper : (Call.edit call).Proper (Exchange.live past))
      (answer : kernel.edit past call = .ok ()) :
      History kernel (past ++ [⟨.edit call, .ok none⟩])

/-- A kernel that never fails on a proper call and hands out fresh meshes: none
that stays live, and never the invalid one. -/
structure Reliable (kernel : Kernel α) : Prop where
  mesh : ∀ {past call}, kernel.History past → (Call.mesh call).Proper (Exchange.live past) →
    ∃ made, kernel.mesh past call = .ok made ∧ made ≠ Handle.invalid ∧
      made ∉ Exchange.live past \ call.operands.toFinset
  edit : ∀ {past call}, kernel.History past → (Call.edit call).Proper (Exchange.live past) →
    kernel.edit past call = .ok ()

/-- A split of a list at one of its items, by the last item of the list. -/
private theorem split_concat {β : Type} {past before after : List β} {final item : β}
    (h : past ++ [final] = before ++ item :: after) :
    (past = before ∧ final = item) ∨ ∃ more, past = before ++ item :: more := by
  rcases List.eq_nil_or_concat after with rfl | ⟨more, other, rfl⟩
  · obtain ⟨hpast, hfinal⟩ := List.append_inj' h rfl
    exact .inl ⟨hpast, List.singleton_inj.mp hfinal⟩
  · have hsplit : past ++ [final] = (before ++ item :: more) ++ [other] := by simpa using h
    exact .inr ⟨more, (List.append_inj' hsplit rfl).1⟩

/-- In a history every call is proper when it is made. -/
theorem History.proper {kernel : Kernel α} {exchanges : List (Exchange α)}
    (h : kernel.History exchanges) {before after : List (Exchange α)} {exchange : Exchange α}
    (hsplit : exchanges = before ++ exchange :: after) :
    exchange.call.Proper (Exchange.live before) := by
  induction h generalizing after with
  | start => simp at hsplit
  | mesh _ proper _ ih =>
      rcases split_concat hsplit with ⟨rfl, rfl⟩ | ⟨more, heq⟩
      · exact proper
      · exact ih heq
  | edit _ proper _ ih =>
      rcases split_concat hsplit with ⟨rfl, rfl⟩ | ⟨more, heq⟩
      · exact proper
      · exact ih heq

/-- The invalid mesh is never live. -/
theorem Reliable.invalid_not_live {kernel : Kernel α} (hk : kernel.Reliable)
    {exchanges : List (Exchange α)} (h : kernel.History exchanges) :
    Handle.invalid ∉ Exchange.live exchanges := by
  induction h with
  | start => exact Finset.notMem_empty _
  | mesh earlier proper answer ih =>
      obtain ⟨made, hanswer, hvalid, _⟩ := hk.mesh earlier proper
      cases answer.symm.trans hanswer
      rw [Exchange.live_concat, Exchange.track_mesh, Finset.mem_insert, Finset.mem_sdiff]
      rintro (heq | ⟨hmem, _⟩)
      · exact hvalid heq.symm
      · exact ih hmem
  | edit _ _ _ ih =>
      rw [Exchange.live_concat]
      exact ih

end Kernel

/-! ### Meshes in hand -/

variable {kernel : Kernel α} {s s' s'' : Session α} {taken kept : List Handle}
  {frame : Finset Handle}

/-- Some meshes are in hand; the other live ones make up the frame. -/
structure Holds (kernel : Kernel α) (s : Session α) (taken : List Handle)
    (frame : Finset Handle) : Prop where
  history : kernel.History s.exchanges
  live : Exchange.live s.exchanges = taken.toFinset ∪ frame
  distinct : taken.Nodup
  apart : ∀ mesh ∈ taken, mesh ∉ frame

namespace Holds

/-- Nothing is live in an empty session. -/
theorem start (kernel : Kernel α) : Holds kernel Session.empty [] ∅ :=
  ⟨.start, rfl, List.nodup_nil, fun _ hmesh => nomatch hmesh⟩

theorem perm (h : Holds kernel s taken frame) (hperm : taken.Perm kept) :
    Holds kernel s kept frame := by
  refine ⟨h.history, ?_, hperm.nodup_iff.mp h.distinct, ?_⟩
  · rw [← List.toFinset_eq_of_perm _ _ hperm]
    exact h.live
  · exact fun mesh hmesh => h.apart mesh (hperm.mem_iff.mpr hmesh)

/-- Put meshes aside. -/
theorem shelve (h : Holds kernel s (taken ++ kept) frame) :
    Holds kernel s taken (kept.toFinset ∪ frame) := by
  obtain ⟨htaken, _, hdisjoint⟩ := List.nodup_append'.mp h.distinct
  refine ⟨h.history, ?_, htaken, ?_⟩
  · rw [h.live, List.toFinset_append, Finset.union_assoc]
  · intro mesh hmesh hframe
    rcases Finset.mem_union.mp hframe with hkept | hother
    · exact hdisjoint hmesh (List.mem_toFinset.mp hkept)
    · exact h.apart mesh (List.mem_append_left _ hmesh) hother

/-- Take meshes that were put aside. -/
theorem fetch (h : Holds kernel s' taken (kept.toFinset ∪ frame)) (hkept : kept.Nodup)
    (hframe : ∀ mesh ∈ kept, mesh ∉ frame) : Holds kernel s' (taken ++ kept) frame := by
  refine ⟨h.history, ?_, List.nodup_append'.mpr ⟨h.distinct, hkept, ?_⟩, ?_⟩
  · rw [h.live, List.toFinset_append, Finset.union_assoc]
  · intro mesh hmesh hother
    exact h.apart mesh hmesh (Finset.mem_union_left _ (List.mem_toFinset.mpr hother))
  · intro mesh hmesh
    rcases List.mem_append.mp hmesh with htaken | hother
    · exact fun hmem => h.apart mesh htaken (Finset.mem_union_right _ hmem)
    · exact hframe mesh hother

/-- A call is passed meshes in hand. -/
theorem proper {call : Call α} (h : Holds kernel s call.handles frame) :
    call.Proper (Exchange.live s.exchanges) := by
  refine ⟨fun mesh hmesh => ?_, h.distinct⟩
  rw [h.live]
  exact Finset.mem_union_left _ (List.mem_toFinset.mpr hmesh)

/-- A call that answers with a mesh has it in hand instead of those that it took. -/
theorem mesh (hk : kernel.Reliable) (call : MeshCall α)
    (h : Holds kernel s call.operands frame) :
    ∃ made, kernel.mesh s.exchanges call = .ok made ∧
      Holds kernel (s.record ⟨.mesh call, .ok (some made)⟩) [made] frame := by
  have hproper : (Call.mesh call).Proper (Exchange.live s.exchanges) := proper h
  obtain ⟨made, hanswer, _, hfresh⟩ := hk.mesh h.history hproper
  have hrest : Exchange.live s.exchanges \ call.operands.toFinset = frame := by
    have hdisjoint : Disjoint frame call.operands.toFinset :=
      Finset.disjoint_right.mpr fun mesh hmesh => h.apart mesh (List.mem_toFinset.mp hmesh)
    rw [h.live, Finset.union_sdiff_left, Finset.sdiff_eq_self_of_disjoint hdisjoint]
  rw [hrest] at hfresh
  refine ⟨made, hanswer, .mesh h.history hproper hanswer, ?_, List.nodup_singleton made, ?_⟩
  · rw [Session.record, Exchange.live_concat, Exchange.track_mesh, hrest]
    rfl
  · intro mesh hmesh
    rwa [List.mem_singleton.mp hmesh]

/-- A call that changes a mesh leaves it in hand. -/
theorem edit (hk : kernel.Reliable) (call : EditCall α)
    (h : Holds kernel s [call.target] frame) :
    kernel.edit s.exchanges call = .ok () ∧
      Holds kernel (s.record ⟨.edit call, .ok none⟩) [call.target] frame := by
  have hproper : (Call.edit call).Proper (Exchange.live s.exchanges) := proper h
  have hanswer := hk.edit h.history hproper
  refine ⟨hanswer, .edit h.history hproper hanswer, ?_, h.distinct, h.apart⟩
  rw [Session.record, Exchange.live_concat]
  exact h.live

end Holds

/-! ### Work with meshes -/

/-- From one session to another there are only exchanges about geometry. -/
def Session.Shapes (s s' : Session α) : Prop :=
  ∃ own, s'.exchanges = s.exchanges ++ own ∧ ∀ exchange ∈ own, exchange.IsGeometry

namespace Session.Shapes

theorem refl (s : Session α) : Shapes s s :=
  ⟨[], (List.append_nil _).symm, fun _ h => nomatch h⟩

theorem trans (h : Shapes s s') (h' : Shapes s' s'') : Shapes s s'' := by
  obtain ⟨own, hown, hgeometry⟩ := h
  obtain ⟨more, hmore, hgeometry'⟩ := h'
  refine ⟨own ++ more, by rw [hmore, hown, List.append_assoc], fun exchange hmem => ?_⟩
  rcases List.mem_append.mp hmem with hfirst | hsecond
  · exact hgeometry exchange hfirst
  · exact hgeometry' exchange hsecond

theorem record (s : Session α) (call : MeshCall α) (reply : Except Refusal (Option Handle)) :
    Shapes s (s.record ⟨.mesh call, reply⟩) := by
  refine ⟨[⟨.mesh call, reply⟩], rfl, fun exchange hmem => ?_⟩
  rw [List.mem_singleton.mp hmem]
  exact ⟨call, rfl⟩

end Session.Shapes

/-- Work that takes meshes over and gives others back. It succeeds, whatever else is
live, and all that it asks for is geometry. -/
def Makes {β : Type} (kernel : Kernel α) (work : Building α β) (taken : List Handle)
    (given : β → List Handle) : Prop :=
  ∀ s frame, Holds kernel s taken frame →
    ∃ result s', Returns work s result s' ∧ Holds kernel s' (given result) frame ∧ s.Shapes s'

namespace Makes

variable {β γ : Type} {work : Building α β} {next : β → Building α γ} {middle : β → List Handle}
  {given : γ → List Handle} {what : String}

theorem pure (given : β → List Handle) (result : β) :
    Makes kernel (Pure.pure result) (given result) given :=
  fun s _ h => ⟨result, s, rfl, h, .refl s⟩

theorem mesh (hk : kernel.Reliable) (call : MeshCall α) :
    Makes kernel (Building.mesh kernel what call) call.operands List.singleton := by
  intro s frame h
  obtain ⟨made, hanswer, hholds⟩ := h.mesh hk call
  exact ⟨made, _, Building.returns_mesh.mpr ⟨hanswer, rfl⟩, hholds, .record s call _⟩

/-- The next work takes what the first one gave, and meshes that were put aside. -/
theorem bind_keeping (kept : List Handle) (h : Makes kernel work taken middle)
    (hnext : ∀ result, Makes kernel (next result) (middle result ++ kept) given) :
    Makes kernel (work >>= next) (taken ++ kept) given := by
  intro s frame hs
  obtain ⟨first, s', hfirst, hholds, hshapes⟩ := h s _ hs.shelve
  have hkept : ∀ mesh ∈ kept, mesh ∉ frame := fun mesh hmesh =>
    hs.apart mesh (List.mem_append_right _ hmesh)
  obtain ⟨last, s'', hlast, hgiven, hmore⟩ :=
    hnext first s' frame (hholds.fetch (List.nodup_append'.mp hs.distinct).2.1 hkept)
  exact ⟨last, s'', returns_bind.mpr ⟨first, s', hfirst, hlast⟩, hgiven,
    hshapes.trans hmore⟩

theorem bind (h : Makes kernel work taken middle)
    (hnext : ∀ result, Makes kernel (next result) (middle result) given) :
    Makes kernel (work >>= next) taken given := by
  have hkeeping := bind_keeping [] h fun result => by
    rw [List.append_nil]
    exact hnext result
  rwa [List.append_nil] at hkeeping

theorem perm (h : Makes kernel work taken middle) (hperm : taken.Perm kept) :
    Makes kernel work kept middle :=
  fun s frame hs => h s frame (hs.perm hperm.symm)

end Makes

end Mannequin
