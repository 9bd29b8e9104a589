import Mannequin.Character.Bridge
import Mannequin.Proofs.Items
import Mannequin.Proofs.Journal
import Mannequin.Proofs.NameMap
import Mannequin.Proofs.Skeleton.Overlay

/-!
# How meshes are linked

Which bridges there are is decided by the meshes as they ask for them: a mesh whose parent
answers its request gets one. The passes change the meshes that they still have to look
at, but never a request that they have not come to, and so they find just these bridges.
Every mesh comes out with the ends that the bridges leave it, and a request is given up
with a warning if no bridge meets it, all requests at starts before those at ends.
-/

namespace Mannequin

namespace Bridge

variable {α : Type}

/-! ### Bridges that are asked for -/

/-- The bridge to a mesh: it asks for one at its start, and the mesh of its
parent asks for one at its end. -/
def to? (meshes : List (BoneMesh α)) (child : BoneMesh α) : Option Bridge :=
  if child.connectStart = .bridge then
    child.parent.bind fun parent =>
      (meshes.find? fun mesh => mesh.bone = parent).bind fun mesh =>
        if mesh.connectEnd = .bridge then some ⟨parent, child.bone⟩ else none
  else none

/-- The bridges between meshes, in the order of the children. -/
def all (meshes : List (BoneMesh α)) : List Bridge := meshes.filterMap (to? meshes)

/-- The mesh of a child asks for a bridge at its start, and its parent's mesh for one at
its end. -/
def Asked (meshes : List (BoneMesh α)) (b : Bridge) : Prop :=
  ∃ child ∈ meshes, child.bone = b.child ∧ child.connectStart = .bridge ∧
    child.parent = some b.parent ∧
      ∃ parent ∈ meshes, parent.bone = b.parent ∧ parent.connectEnd = .bridge

/-- A mesh asks for a bridge at its start and gets none. -/
def StartUnmet (bridges : List Bridge) (mesh : BoneMesh α) : Prop :=
  mesh.connectStart = .bridge ∧ ∀ b ∈ bridges, b.child ≠ mesh.bone

/-- A mesh asks for a bridge at its end and gets none. -/
def EndUnmet (bridges : List Bridge) (mesh : BoneMesh α) : Prop :=
  mesh.connectEnd = .bridge ∧ ∀ b ∈ bridges, b.parent ≠ mesh.bone

instance (bridges : List Bridge) (mesh : BoneMesh α) : Decidable (StartUnmet bridges mesh) :=
  inferInstanceAs (Decidable (_ ∧ _))

instance (bridges : List Bridge) (mesh : BoneMesh α) : Decidable (EndUnmet bridges mesh) :=
  inferInstanceAs (Decidable (_ ∧ _))

/-- A mesh with the ends that the bridges leave it. -/
def settle (bridges : List Bridge) (mesh : BoneMesh α) : BoneMesh α :=
  { mesh with
    capStart := mesh.capStart && bridges.all fun b => b.child ≠ mesh.bone
    capEnd := mesh.capEnd && bridges.all fun b => b.parent ≠ mesh.bone
    connectStart := if StartUnmet bridges mesh then .segmented else mesh.connectStart
    connectEnd := if EndUnmet bridges mesh then .segmented else mesh.connectEnd }

/-- The warnings for requests that are given up, those at a start first. -/
def warnings (bridges : List Bridge) (meshes : List (BoneMesh α)) : List Warning :=
  ((meshes.filter fun mesh => StartUnmet bridges mesh).map fun mesh => ⟨mesh.bone, noParent⟩) ++
  (meshes.filter fun mesh => EndUnmet bridges mesh).map fun mesh => ⟨mesh.bone, noChild⟩

variable {meshes : List (BoneMesh α)} {bridges : List Bridge} {b : Bridge} {mesh child : BoneMesh α}

theorem of_to?_eq_some (h : to? meshes child = some b) :
    b.child = child.bone ∧ child.connectStart = .bridge ∧ child.parent = some b.parent ∧
      ∃ parent ∈ meshes, parent.bone = b.parent ∧ parent.connectEnd = .bridge := by
  unfold to? at h
  split at h
  case isFalse => cases h
  case isTrue hstart =>
    obtain ⟨name, hname, h⟩ := Option.bind_eq_some_iff.mp h
    obtain ⟨parent, hparent, h⟩ := Option.bind_eq_some_iff.mp h
    split at h
    case isFalse => cases h
    case isTrue hend =>
      cases h
      refine ⟨rfl, hstart, hname, parent, List.mem_of_find?_eq_some hparent, ?_, hend⟩
      simpa using List.find?_some hparent

/-- Both meshes of a bridge have asked for it. -/
theorem of_mem_all (h : b ∈ all meshes) :
    (∃ parent ∈ meshes, parent.bone = b.parent ∧ parent.connectEnd = .bridge) ∧
      ∃ child ∈ meshes, child.bone = b.child ∧ child.connectStart = .bridge := by
  obtain ⟨child, hchild, hto⟩ := List.mem_filterMap.mp h
  obtain ⟨hbone, hstart, -, hparent⟩ := of_to?_eq_some hto
  exact ⟨hparent, child, hchild, hbone.symm, hstart⟩

/-- At most one bridge leads to a mesh. -/
theorem nodup_children_all (h : (meshes.map BoneMesh.bone).Nodup) :
    ((all meshes).map Bridge.child).Nodup := by
  rw [List.Nodup, List.pairwise_map] at h ⊢
  rw [all, List.pairwise_filterMap]
  refine h.imp fun hne b hb b' hb' => ?_
  rw [(of_to?_eq_some hb).1, (of_to?_eq_some hb').1]
  exact hne

/-- Bridges stand in the order of the meshes that they lead to. -/
theorem sublist_children_all (meshes : List (BoneMesh α)) :
    ((all meshes).map Bridge.child).Sublist (meshes.map BoneMesh.bone) := by
  suffices h : ∀ l : List (BoneMesh α),
      ((l.filterMap (to? meshes)).map Bridge.child).Sublist (l.map BoneMesh.bone) from h meshes
  intro l
  induction l with
  | nil => exact .refl _
  | cons child rest ih =>
      rw [List.filterMap_cons, List.map_cons]
      cases hto : to? meshes child with
      | none => exact ih.cons _
      | some b =>
          rw [List.map_cons, (of_to?_eq_some hto).1]
          exact ih.cons_cons _

/-- A mesh gets a bridge exactly if its parent answers its request. -/
theorem to?_eq_some_iff (hnames : (meshes.map BoneMesh.bone).Nodup) :
    to? meshes child = some b ↔
      b.child = child.bone ∧ child.connectStart = .bridge ∧ child.parent = some b.parent ∧
        ∃ parent ∈ meshes, parent.bone = b.parent ∧ parent.connectEnd = .bridge := by
  refine ⟨of_to?_eq_some, ?_⟩
  rintro ⟨hchild, hstart, hparent, parent, hmem, hbone, hend⟩
  have hfind : (meshes.find? fun mesh => mesh.bone = b.parent) = some parent :=
    hbone ▸ find?_eq_some_of_nodup hnames hmem
  rw [to?, if_pos hstart, hparent, Option.bind_some, hfind, Option.bind_some, if_pos hend,
    ← hchild]

theorem mem_all_iff (hnames : (meshes.map BoneMesh.bone).Nodup) :
    b ∈ all meshes ↔ Asked meshes b := by
  rw [all, List.mem_filterMap]
  refine exists_congr fun child => and_congr_right fun _ => ?_
  rw [to?_eq_some_iff hnames, eq_comm (a := child.bone)]

/-- A bridge leads to a mesh of the list exactly if the mesh gets one. -/
theorem exists_child_iff (hnames : (meshes.map BoneMesh.bone).Nodup) (hmesh : mesh ∈ meshes) :
    (∃ b ∈ all meshes, b.child = mesh.bone) ↔ ∃ b, to? meshes mesh = some b := by
  constructor
  · rintro ⟨b, hb, hbone⟩
    obtain ⟨child, hchild, hto⟩ := List.mem_filterMap.mp hb
    have hsame : child.bone = mesh.bone := (of_to?_eq_some hto).1.symm.trans hbone
    obtain rfl := List.inj_on_of_nodup_map hnames hchild hmesh hsame
    exact ⟨b, hto⟩
  · rintro ⟨b, hto⟩
    exact ⟨b, List.mem_filterMap.mpr ⟨mesh, hmesh, hto⟩, (of_to?_eq_some hto).1⟩

theorem startUnmet_iff (hnames : (meshes.map BoneMesh.bone).Nodup) (hmesh : mesh ∈ meshes) :
    StartUnmet (all meshes) mesh ↔ mesh.connectStart = .bridge ∧ to? meshes mesh = none := by
  rw [StartUnmet, Option.eq_none_iff_forall_ne_some]
  refine and_congr_right fun _ => ?_
  have hiff := not_congr (exists_child_iff hnames hmesh)
  push Not at hiff
  exact hiff

/-! ### The first pass -/

/-- A mesh after its turn in the first pass. -/
def started (meshes : List (BoneMesh α)) (mesh : BoneMesh α) : BoneMesh α :=
  { mesh with
    capStart := mesh.capStart && (to? meshes mesh).isNone
    connectStart :=
      if mesh.connectStart = .bridge ∧ to? meshes mesh = none then .segmented
      else mesh.connectStart }

/-- A mesh whose end is open if a bridge leads from it. -/
def opened (bridges : List Bridge) (mesh : BoneMesh α) : BoneMesh α :=
  { mesh with capEnd := mesh.capEnd && bridges.all fun b => b.parent ≠ mesh.bone }

/-- The meshes in the first pass, some of them done and the others not. -/
def halfway (meshes done todo : List (BoneMesh α)) : Linking α :=
  { meshes := (done.map (started meshes) ++ todo).map (opened (done.filterMap (to? meshes)))
    met := meshes.map fun mesh =>
      (done.filterMap (to? meshes)).any fun b => b.parent = mesh.bone
    bridges := done.filterMap (to? meshes) }

/-- What decides whether a mesh answers a request. -/
def offer (mesh : BoneMesh α) : String × ConnectMode := (mesh.bone, mesh.connectEnd)

theorem offers_halfway (meshes done todo : List (BoneMesh α)) :
    (halfway meshes done todo).meshes.map offer = (done ++ todo).map offer := by
  rw [halfway, List.map_map, List.map_append, List.map_map, List.map_append]
  rfl

theorem bones_of_offers {l l' : List (BoneMesh α)} (h : l.map offer = l'.map offer) :
    l.map BoneMesh.bone = l'.map BoneMesh.bone := by
  have hfst := congrArg (List.map Prod.fst) h
  rwa [List.map_map, List.map_map] at hfst

/-- An answer comes from the mesh of the parent, at the place where it stands. -/
theorem answer?_eq_some_iff (hnames : (meshes.map BoneMesh.bone).Nodup) {parent : Option String}
    {j : Nat} :
    answer? (NameMap.positions (meshes.map BoneMesh.bone)) meshes parent = some (j, mesh) ↔
      parent = some mesh.bone ∧ meshes[j]? = some mesh ∧ mesh.connectEnd = .bridge := by
  rw [answer?, Option.bind_eq_some_iff]
  constructor
  · rintro ⟨name, hname, h⟩
    obtain ⟨i, hi, h⟩ := Option.bind_eq_some_iff.mp h
    obtain ⟨found, hfound, h⟩ := Option.bind_eq_some_iff.mp h
    split at h
    case isFalse => cases h
    case isTrue hend =>
      cases h
      rw [NameMap.get?_positions hnames, List.getElem?_map, hfound, Option.map_some,
        Option.some.injEq] at hi
      exact ⟨hi ▸ hname, hfound, hend⟩
  · rintro ⟨hparent, hmesh, hend⟩
    have hplace : (NameMap.positions (meshes.map BoneMesh.bone)).get? mesh.bone = some j := by
      rw [NameMap.get?_positions hnames, List.getElem?_map, hmesh, Option.map_some]
    refine ⟨mesh.bone, hparent, ?_⟩
    rw [hplace, Option.bind_some, hmesh, Option.bind_some, if_pos hend]

/-- Meshes that offer the same give the same answers. -/
theorem exists_answer_iff (hnames : (meshes.map BoneMesh.bone).Nodup) {current : List (BoneMesh α)}
    (hoffers : current.map offer = meshes.map offer) (hstart : child.connectStart = .bridge) :
    (∃ j parent, parent.bone = b.parent ∧
      answer? (NameMap.positions (meshes.map BoneMesh.bone)) current child.parent =
        some (j, parent)) ∧ b.child = child.bone ↔ to? meshes child = some b := by
  have hbones := bones_of_offers hoffers
  rw [to?_eq_some_iff hnames, ← hbones]
  have hmem : ∀ {l l' : List (BoneMesh α)} (mesh : BoneMesh α), l.map offer = l'.map offer →
      mesh ∈ l → ∃ other ∈ l', other.bone = mesh.bone ∧ other.connectEnd = mesh.connectEnd := by
    intro l l' mesh heq hmesh
    obtain ⟨other, hother, hsame⟩ := List.mem_map.mp (heq ▸ List.mem_map_of_mem (f := offer) hmesh)
    obtain ⟨hbone, hend⟩ := Prod.mk.inj hsame
    exact ⟨other, hother, hbone, hend⟩
  constructor
  · rintro ⟨⟨j, parent, hbone, hanswer⟩, hchild⟩
    obtain ⟨hparent, hplace, hend⟩ := (answer?_eq_some_iff (hbones ▸ hnames)).mp hanswer
    obtain ⟨other, hother, hbone', hend'⟩ := hmem parent hoffers (List.mem_of_getElem? hplace)
    exact ⟨hchild, hstart, hbone ▸ hparent, other, hother, hbone'.trans hbone, hend'.trans hend⟩
  · rintro ⟨hchild, -, hparent, parent, hparentMem, hbone, hend⟩
    obtain ⟨other, hother, hbone', hend'⟩ := hmem parent hoffers.symm hparentMem
    obtain ⟨j, hplace⟩ := List.mem_iff_getElem?.mp hother
    refine ⟨⟨j, other, hbone'.trans hbone, ?_⟩, hchild⟩
    refine (answer?_eq_some_iff (hbones ▸ hnames)).mpr ⟨?_, hplace, hend'.trans hend⟩
    rw [hparent, hbone', hbone]

theorem getElem?_halfway (meshes done : List (BoneMesh α)) (child : BoneMesh α)
    (todo : List (BoneMesh α)) :
    (halfway meshes done (child :: todo)).meshes[done.length]? =
      some (opened (done.filterMap (to? meshes)) child) := by
  rw [halfway, List.getElem?_map, List.getElem?_append_right (by simp), List.length_map,
    Nat.sub_self, List.getElem?_cons_zero, Option.map_some]

/-- Changing the mesh that has its turn changes nothing before it and nothing after it. -/
theorem modify_halfway (meshes done : List (BoneMesh α)) (child : BoneMesh α)
    (todo : List (BoneMesh α)) (bridges : List Bridge) (f : BoneMesh α → BoneMesh α) :
    ((done.map (started meshes) ++ child :: todo).map (opened bridges)).modify done.length f =
      (done.map (started meshes)).map (opened bridges) ++
        f (opened bridges child) :: todo.map (opened bridges) := by
  have hmiddle := modify_middle ((done.map (started meshes)).map (opened bridges))
    (opened bridges child) (todo.map (opened bridges)) f
  rw [List.length_map, List.length_map] at hmiddle
  rw [List.map_append, List.map_cons, hmiddle]

theorem opened_concat (bridges : List Bridge) (b : Bridge) (mesh : BoneMesh α) :
    opened (bridges ++ [b]) mesh =
      if mesh.bone = b.parent then { opened bridges mesh with capEnd := false }
      else opened bridges mesh := by
  by_cases hbone : mesh.bone = b.parent
  · simp [opened, hbone]
  · simp [opened, hbone, Ne.symm hbone]

/-- A mesh that asks for nothing is left as it is. -/
theorem halfway_of_not_asking {done todo : List (BoneMesh α)}
    (hstart : child.connectStart ≠ .bridge) :
    halfway meshes (done ++ [child]) todo = halfway meshes done (child :: todo) := by
  have hto : to? meshes child = none := if_neg hstart
  have hsame : started meshes child = child := by
    rw [started, hto, if_neg fun hboth => hstart hboth.1, Option.isNone_none, Bool.and_true]
  simp only [halfway, List.filterMap_append, List.filterMap_cons, hto, List.filterMap_nil,
    List.append_nil, List.map_append, List.map_cons, List.map_nil, hsame, List.append_assoc,
    List.singleton_append]

/-- A request that is not answered is given up, and nothing else changes. -/
theorem halfway_of_unanswered {done todo : List (BoneMesh α)}
    (hstart : child.connectStart = .bridge) (hto : to? meshes child = none) :
    halfway meshes (done ++ [child]) todo =
      { halfway meshes done (child :: todo) with
        meshes := (halfway meshes done (child :: todo)).meshes.modify done.length
          fun mesh => { mesh with connectStart := .segmented } } := by
  have hturn : opened (done.filterMap (to? meshes)) (started meshes child) =
      { opened (done.filterMap (to? meshes)) child with connectStart := .segmented } := by
    rw [started, hto, if_pos ⟨hstart, rfl⟩, Option.isNone_none, Bool.and_true]
    rfl
  rw [halfway, halfway, modify_halfway]
  simp only [List.filterMap_append, List.filterMap_cons, hto, List.filterMap_nil,
    List.append_nil, List.map_append, List.map_cons, List.map_nil, hturn, List.append_assoc,
    List.singleton_append]

/-- Opening the end of a parent where it stands opens it for one more bridge. -/
theorem modify_opened {l : List (BoneMesh α)} (hl : (l.map BoneMesh.bone).Nodup)
    (bridges : List Bridge) {j : Nat} {parent : BoneMesh α} (hj : l[j]? = some parent)
    (hparent : parent.bone = b.parent) :
    (l.map (opened bridges)).modify j (fun mesh => { mesh with capEnd := false }) =
      l.map (opened (bridges ++ [b])) := by
  rw [modify_map_eq hl hj]
  refine List.map_congr_left fun mesh _ => ?_
  rw [opened_concat, hparent]

/-- Noting a bridge for its parent where it stands notes one more bridge. -/
theorem modify_met {l : List (BoneMesh α)} (hl : (l.map BoneMesh.bone).Nodup)
    (bridges : List Bridge) {j : Nat} {parent : BoneMesh α} (hj : l[j]? = some parent)
    (hparent : parent.bone = b.parent) :
    (l.map fun mesh => bridges.any fun b => b.parent = mesh.bone).modify j (fun _ => true) =
      l.map fun mesh => (bridges ++ [b]).any fun b => b.parent = mesh.bone := by
  rw [modify_map_eq hl hj]
  refine List.map_congr_left fun mesh _ => ?_
  rw [List.any_append, List.any_cons, List.any_nil, Bool.or_false, ← hparent]
  by_cases hsame : mesh.bone = parent.bone
  · simp [hsame]
  · simp [hsame, Ne.symm hsame]

/-- A request that is answered opens both ends, and is noted for the parent. -/
theorem halfway_of_answered (hnames : (meshes.map BoneMesh.bone).Nodup)
    {done todo : List (BoneMesh α)} (hsplit : meshes = done ++ child :: todo)
    (hto : to? meshes child = some b) {j : Nat} {parent : BoneMesh α}
    (hj : (halfway meshes done (child :: todo)).meshes[j]? = some parent)
    (hparent : parent.bone = b.parent) :
    halfway meshes (done ++ [child]) todo =
      { meshes := ((halfway meshes done (child :: todo)).meshes.modify j
          fun mesh => { mesh with capEnd := false }).modify done.length
            fun mesh => { mesh with capStart := false }
        met := (halfway meshes done (child :: todo)).met.modify j fun _ => true
        bridges := (halfway meshes done (child :: todo)).bridges ++ [b] } := by
  have hbridges : (done ++ [child]).filterMap (to? meshes) =
      done.filterMap (to? meshes) ++ [b] := by
    rw [List.filterMap_append, List.filterMap_cons, hto, List.filterMap_nil]
  have hplain : ((done.map (started meshes) ++ child :: todo).map BoneMesh.bone) =
      meshes.map BoneMesh.bone := by
    rw [hsplit, List.map_append, List.map_append, List.map_map]
    rfl
  have hturn : opened (done.filterMap (to? meshes) ++ [b]) (started meshes child) =
      { opened (done.filterMap (to? meshes) ++ [b]) child with capStart := false } := by
    rw [started, hto, if_neg fun hboth => Option.some_ne_none b hboth.2, Option.isNone_some,
      Bool.and_false]
    rfl
  rw [halfway, List.getElem?_map] at hj
  obtain ⟨before, hbefore, rfl⟩ := Option.map_eq_some_iff.mp hj
  -- The parent stands at the same place in the list that the pass started with.
  have hplace : (meshes.map BoneMesh.bone)[j]? = some before.bone := by
    rw [← hplain, List.getElem?_map, hbefore, Option.map_some]
  rw [List.getElem?_map] at hplace
  obtain ⟨standing, hstanding, hbone⟩ := Option.map_eq_some_iff.mp hplace
  rw [halfway, Linking.mk.injEq]
  refine ⟨?_, ?_, hbridges⟩
  · rw [halfway, modify_opened (hplain ▸ hnames) _ hbefore hparent, modify_halfway, ← hturn,
      hbridges, List.map_append, List.map_append, List.map_append, List.append_assoc]
    rfl
  · rw [halfway, modify_met hnames _ hstanding (hbone.trans hparent), hbridges]

/-- The meshes whose requests at their starts are not answered. -/
def unanswered (meshes l : List (BoneMesh α)) : List (BoneMesh α) :=
  l.filter fun mesh => mesh.connectStart = .bridge ∧ to? meshes mesh = none

/-- One step of the first pass gives the mesh that has its turn what the first pass gives it. -/
theorem outcome_linkStart (hnames : (meshes.map BoneMesh.bone).Nodup)
    {done todo : List (BoneMesh α)} (hsplit : meshes = done ++ child :: todo)
    (journal : Journal) :
    outcome (linkStart (NameMap.positions (meshes.map BoneMesh.bone))
        (halfway meshes done (child :: todo)) done.length) journal =
      (.ok (halfway meshes (done ++ [child]) todo),
        journal.warned ((unanswered meshes [child]).map fun mesh => ⟨mesh.bone, noParent⟩)) := by
  have hoffers : (halfway meshes done (child :: todo)).meshes.map offer = meshes.map offer := by
    rw [offers_halfway, hsplit]
  rw [linkStart, getElem?_halfway]
  by_cases hstart : child.connectStart = .bridge
  · have hiff := fun b => exists_answer_iff (b := b) hnames hoffers hstart
    simp only [if_pos (show (opened _ child).connectStart = .bridge from hstart)]
    rw [show (opened (done.filterMap (to? meshes)) child).parent = child.parent from rfl]
    cases hanswer : answer? (NameMap.positions (meshes.map BoneMesh.bone))
        (halfway meshes done (child :: todo)).meshes child.parent with
    | none =>
        have hto : to? meshes child = none := by
          refine Option.eq_none_iff_forall_ne_some.mpr fun b hb => ?_
          obtain ⟨⟨j, parent, -, hsome⟩, -⟩ := (hiff b).mpr hb
          rw [hanswer] at hsome
          cases hsome
        have hlost : unanswered meshes [child] = [child] := by
          simp [unanswered, hstart, hto]
        rw [halfway_of_unanswered hstart hto, hlost]
        rfl
    | some found =>
        obtain ⟨j, parent⟩ := found
        have hto : to? meshes child = some ⟨parent.bone, child.bone⟩ :=
          (hiff ⟨parent.bone, child.bone⟩).mp ⟨⟨j, parent, rfl, hanswer⟩, rfl⟩
        have hkept : unanswered meshes [child] = [] := by
          simp [unanswered, hto]
        have hplace := ((answer?_eq_some_iff (bones_of_offers hoffers ▸ hnames)).mp
          (bones_of_offers hoffers ▸ hanswer)).2.1
        rw [halfway_of_answered hnames hsplit hto hplace rfl, hkept, List.map_nil,
          Journal.warned_nil]
        rfl
  · have hkept : unanswered meshes [child] = [] := by
      simp [unanswered, hstart]
    simp only [if_neg (show ¬ (opened _ child).connectStart = .bridge from hstart)]
    rw [halfway_of_not_asking hstart, hkept, List.map_nil, Journal.warned_nil]
    rfl

/-! ### The second pass -/

/-- A mesh after its turn in the second pass. -/
def finished (bridges : List Bridge) (mesh : BoneMesh α) : BoneMesh α :=
  { mesh with connectEnd := if EndUnmet bridges mesh then .segmented else mesh.connectEnd }

/-- The meshes whose requests at their ends no bridge meets. -/
def endsUnmet (bridges : List Bridge) (l : List (BoneMesh α)) : List (BoneMesh α) :=
  l.filter fun mesh => EndUnmet bridges mesh

/-- The meshes in the second pass, some of them done and the others not. -/
def closing (bridges : List Bridge) (done todo : List (BoneMesh α)) : Linking α :=
  { meshes := done.map (finished bridges) ++ todo
    met := (done ++ todo).map fun mesh => bridges.any fun b => b.parent = mesh.bone
    bridges }

theorem endUnmet_iff : EndUnmet bridges mesh ↔
    mesh.connectEnd = .bridge ∧ (bridges.any fun b => b.parent = mesh.bone) = false := by
  simp [EndUnmet]

theorem outcome_linkEnd (bridges : List Bridge) (done : List (BoneMesh α)) (mesh : BoneMesh α)
    (todo : List (BoneMesh α)) (journal : Journal) :
    outcome (linkEnd (closing bridges done (mesh :: todo)) done.length) journal =
      (.ok (closing bridges (done ++ [mesh]) todo),
        journal.warned ((endsUnmet bridges [mesh]).map fun mesh => ⟨mesh.bone, noChild⟩)) := by
  have hplace : (closing bridges done (mesh :: todo)).meshes[done.length]? = some mesh := by
    rw [closing, List.getElem?_append_right (by simp), List.length_map, Nat.sub_self,
      List.getElem?_cons_zero]
  have hmet : (closing bridges done (mesh :: todo)).met[done.length]? =
      some (bridges.any fun b => b.parent = mesh.bone) := by
    rw [closing, List.getElem?_map, List.getElem?_append_right (Nat.le_refl _), Nat.sub_self,
      List.getElem?_cons_zero, Option.map_some]
  have hnext : closing bridges (done ++ [mesh]) todo =
      { closing bridges done (mesh :: todo) with
        meshes := done.map (finished bridges) ++ finished bridges mesh :: todo } := by
    simp [closing]
  rw [linkEnd, hplace]
  simp only [hmet, ne_eq, Option.some.injEq, Bool.not_eq_true, ← endUnmet_iff]
  by_cases hunmet : EndUnmet bridges mesh
  · have hlost : endsUnmet bridges [mesh] = [mesh] := by
      simp [endsUnmet, hunmet]
    have hmiddle := modify_middle (done.map (finished bridges)) mesh todo
      fun mesh => { mesh with connectEnd := .segmented }
    rw [List.length_map] at hmiddle
    rw [if_pos hunmet, hlost, hnext, finished, if_pos hunmet, ← hmiddle]
    rfl
  · have hkept : endsUnmet bridges [mesh] = [] := by
      simp [endsUnmet, hunmet]
    rw [if_neg hunmet, hkept, List.map_nil, Journal.warned_nil, hnext, finished, if_neg hunmet]
    rfl

/-! ### Both passes -/

/-- The first pass has come to a mesh, and has told what it has given up. -/
def Starting (meshes : List (BoneMesh α)) (journal : Journal) (done todo : List (BoneMesh α))
    (l : Linking α) (told : Journal) : Prop :=
  meshes = done ++ todo ∧ l = halfway meshes done todo ∧
    told = journal.warned ((unanswered meshes done).map fun mesh => ⟨mesh.bone, noParent⟩)

theorem returns_linkStarts (hnames : (meshes.map BoneMesh.bone).Nodup) (journal : Journal) :
    Returns ((List.range meshes.length).foldlM
        (linkStart (NameMap.positions (meshes.map BoneMesh.bone))) (halfway meshes [] meshes))
      journal (halfway meshes meshes [])
      (journal.warned ((unanswered meshes meshes).map fun mesh => ⟨mesh.bone, noParent⟩)) := by
  have hfirst : Starting meshes journal [] meshes (halfway meshes [] meshes) journal :=
    ⟨rfl, rfl, (journal.warned_nil).symm⟩
  obtain ⟨l, journal', h, -, rfl, rfl⟩ := exists_returns_positions
    (fun done child todo l told hcome => by
      obtain ⟨hsplit, rfl, rfl⟩ := hcome
      refine ⟨_, _, outcome_linkStart hnames hsplit _, by simpa using hsplit, rfl, ?_⟩
      rw [Journal.warned_warned, ← List.map_append, unanswered, unanswered, unanswered,
        List.filter_append]) hfirst
  exact h

/-- The second pass has come to a mesh, and has told what it has given up. -/
def Closing (bridges : List Bridge) (journal : Journal) (done todo : List (BoneMesh α))
    (l : Linking α) (told : Journal) : Prop :=
  l = closing bridges done todo ∧
    told = journal.warned ((endsUnmet bridges done).map fun mesh => ⟨mesh.bone, noChild⟩)

theorem returns_linkEnds (bridges : List Bridge) (l : List (BoneMesh α)) (journal : Journal) :
    Returns ((List.range l.length).foldlM linkEnd (closing bridges [] l)) journal
      (closing bridges l [])
      (journal.warned ((endsUnmet bridges l).map fun mesh => ⟨mesh.bone, noChild⟩)) := by
  have hfirst : Closing bridges journal [] l (closing bridges [] l) journal :=
    ⟨rfl, (journal.warned_nil).symm⟩
  obtain ⟨ended, journal', h, rfl, rfl⟩ := exists_returns_positions
    (fun done mesh todo l told hcome => by
      obtain ⟨rfl, rfl⟩ := hcome
      refine ⟨_, _, outcome_linkEnd bridges done mesh todo _, rfl, ?_⟩
      rw [Journal.warned_warned, ← List.map_append, endsUnmet, endsUnmet, endsUnmet,
        List.filter_append]) hfirst
  exact h

/-- What both passes make of a mesh is the mesh with the ends that the bridges leave it. -/
theorem settle_eq (hnames : (meshes.map BoneMesh.bone).Nodup) (hmesh : mesh ∈ meshes) :
    settle (all meshes) mesh =
      finished (all meshes) (opened (all meshes) (started meshes mesh)) := by
  have hcap : ((all meshes).all fun b => b.child ≠ mesh.bone) = (to? meshes mesh).isNone := by
    rw [Bool.eq_iff_iff, List.all_eq_true, Option.isNone_iff_eq_none,
      Option.eq_none_iff_forall_ne_some]
    have hiff := not_congr (exists_child_iff hnames hmesh)
    push Not at hiff
    simpa using hiff
  rw [settle, hcap]
  simp only [startUnmet_iff hnames hmesh]
  rfl

/-- Linking meshes finds the bridges that are asked for, settles every mesh between them and
gives the requests up that they do not meet. -/
theorem returns_link (hnames : (meshes.map BoneMesh.bone).Nodup) (journal : Journal) :
    Returns (link meshes) journal ⟨meshes.map (settle (all meshes)), all meshes⟩
      (journal.warned (warnings (all meshes) meshes)) := by
  have hstart : (⟨meshes, meshes.map fun _ => false, []⟩ : Linking α) = halfway meshes [] meshes := by
    have hopened : (opened [] : BoneMesh α → BoneMesh α) = id := by
      funext mesh
      simp [opened]
    simp [halfway, hopened]
  have hmiddle : halfway meshes meshes [] = closing (all meshes) []
      ((meshes.map (started meshes)).map (opened (all meshes))) := by
    rw [halfway, closing, List.append_nil, List.map_nil, List.nil_append]
    simp only [List.map_map]
    rfl
  have hlength : meshes.length =
      ((meshes.map (started meshes)).map (opened (all meshes))).length := by
    rw [List.length_map, List.length_map]
  have hmeshes : meshes.map (settle (all meshes)) =
      (closing (all meshes) ((meshes.map (started meshes)).map (opened (all meshes))) []).meshes := by
    rw [closing, List.append_nil, List.map_map, List.map_map]
    exact List.map_congr_left fun mesh hmesh => settle_eq hnames hmesh
  have hwarnings : warnings (all meshes) meshes =
      ((unanswered meshes meshes).map fun mesh => ⟨mesh.bone, noParent⟩) ++
        (endsUnmet (all meshes) ((meshes.map (started meshes)).map (opened (all meshes)))).map
          fun mesh => ⟨mesh.bone, noChild⟩ := by
    rw [warnings, unanswered, endsUnmet, List.map_map, List.filter_map, List.map_map]
    congr 2
    refine List.filter_congr fun mesh hmesh => ?_
    simp only [startUnmet_iff hnames hmesh]
  rw [hmeshes, hwarnings, ← Journal.warned_warned]
  refine returns_bind.mpr ⟨halfway meshes meshes [],
    journal.warned ((unanswered meshes meshes).map fun mesh => ⟨mesh.bone, noParent⟩), ?_, ?_⟩
  · rw [hstart]
    exact returns_linkStarts hnames journal
  · refine returns_bind.mpr ⟨closing (all meshes)
      ((meshes.map (started meshes)).map (opened (all meshes))) [], _, ?_, rfl⟩
    rw [hmiddle, hlength]
    exact returns_linkEnds _ _ _

/-! ### What linking answers -/

/-- The bridges between linked meshes are those that were asked for, in the order of the
children. The meshes are as they were, but for the caps at bridges and for requests that
no bridge meets; so the ends that still ask are the ends of bridges. -/
structure Answers (meshes : List (BoneMesh α)) (linked : Linked α) : Prop where
  order : (linked.bridges.map Bridge.child).Sublist (meshes.map BoneMesh.bone)
  asked : ∀ b, b ∈ linked.bridges ↔ Asked meshes b
  settled : linked.meshes = meshes.map (settle linked.bridges)
  starts : ∀ mesh ∈ linked.meshes,
    mesh.connectStart = .bridge ↔ ∃ b ∈ linked.bridges, b.child = mesh.bone
  ends : ∀ mesh ∈ linked.meshes,
    mesh.connectEnd = .bridge ↔ ∃ b ∈ linked.bridges, b.parent = mesh.bone

/-- An end still asks if it has asked and is not given up. -/
theorem given_up_eq_bridge_iff {p : Prop} [Decidable p] {mode : ConnectMode} :
    (if p then .segmented else mode) = ConnectMode.bridge ↔ mode = .bridge ∧ ¬ p := by
  split
  case isTrue hp => exact ⟨fun h => absurd h (by decide), fun h => absurd hp h.2⟩
  case isFalse hp => exact ⟨fun h => ⟨h, hp⟩, And.left⟩

/-- A settled mesh asks at its start exactly if a bridge leads to it. -/
theorem connectStart_settle_iff (hnames : (meshes.map BoneMesh.bone).Nodup)
    (hmesh : mesh ∈ meshes) :
    (settle (all meshes) mesh).connectStart = .bridge ↔
      ∃ b ∈ all meshes, b.child = mesh.bone := by
  change (if StartUnmet (all meshes) mesh then _ else mesh.connectStart) = ConnectMode.bridge ↔ _
  rw [given_up_eq_bridge_iff, startUnmet_iff hnames hmesh, exists_child_iff hnames hmesh]
  constructor
  · rintro ⟨hstart, hkept⟩
    exact Option.ne_none_iff_exists'.mp fun hnone => hkept ⟨hstart, hnone⟩
  · rintro ⟨b, hto⟩
    refine ⟨(of_to?_eq_some hto).2.1, fun hunmet => ?_⟩
    exact Option.some_ne_none b (hto.symm.trans hunmet.2)

/-- A settled mesh asks at its end exactly if a bridge leads from it. -/
theorem connectEnd_settle_iff (hnames : (meshes.map BoneMesh.bone).Nodup)
    (hmesh : mesh ∈ meshes) :
    (settle (all meshes) mesh).connectEnd = .bridge ↔
      ∃ b ∈ all meshes, b.parent = mesh.bone := by
  change (if EndUnmet (all meshes) mesh then _ else mesh.connectEnd) = ConnectMode.bridge ↔ _
  rw [given_up_eq_bridge_iff, EndUnmet]
  constructor
  · rintro ⟨hend, hkept⟩
    by_contra hnone
    push Not at hnone
    exact hkept ⟨hend, hnone⟩
  · rintro ⟨b, hb, hbone⟩
    obtain ⟨⟨parent, hparent, hname, hend⟩, -⟩ := of_mem_all hb
    obtain rfl := List.inj_on_of_nodup_map hnames hparent hmesh (hname.trans hbone)
    exact ⟨hend, fun hunmet => hunmet.2 b hb hbone⟩

theorem answers_all (hnames : (meshes.map BoneMesh.bone).Nodup) :
    Answers meshes ⟨meshes.map (settle (all meshes)), all meshes⟩ where
  order := sublist_children_all meshes
  asked _ := mem_all_iff hnames
  settled := rfl
  starts := List.forall_mem_map.mpr fun _ hmesh => connectStart_settle_iff hnames hmesh
  ends := List.forall_mem_map.mpr fun _ hmesh => connectEnd_settle_iff hnames hmesh

/-- Linking meshes of different bones always succeeds. It answers what they ask for, and
tells nothing but one warning for every request that it gives up. -/
theorem link_answers (hnames : (meshes.map BoneMesh.bone).Nodup) (journal : Journal) :
    ∃ linked, Returns (link meshes) journal linked
        (journal.warned (warnings linked.bridges meshes)) ∧
      Answers meshes linked :=
  ⟨_, returns_link hnames journal, answers_all hnames⟩

/-- A plain segment that asks at its ends. Its numbers mean nothing, since linking looks at
none of them. -/
def plain (bone : String) (parent : Option String) (connectStart connectEnd : ConnectMode) :
    BoneMesh ℕ :=
  { bone, parent, connectStart, connectEnd
    frame := ⟨bone, ⟨0, 0, 0⟩, ⟨0, 0, 1⟩, ⟨0, 0, 1⟩, 1, ⟨0, 0, 0, 1⟩⟩
    profile := ⟨.circle, 12⟩
    radius := ⟨1, 1, false⟩
    segment := ⟨⟨0, 0, 0⟩, ⟨0, 0, 0, 1⟩, ⟨1, 1, 1⟩⟩
    field := ⟨1, 0, [], []⟩
    capStart := true
    capEnd := true
    part := none
    attachments := []
    modifiers := []
    material := none }

/-- Two siblings on a parent that asks its own parent, which stands behind all of them; the
toe's request fails, but its own child is answered. -/
def leg : List (BoneMesh ℕ) :=
  [plain "foot_a" (some "shin") .bridge .segmented,
   plain "foot_b" (some "shin") .bridge .bridge,
   plain "nail" (some "toe") .bridge .segmented,
   plain "shin" (some "thigh") .bridge .bridge,
   plain "thigh" none .bridge .bridge,
   plain "toe" (some "foot_a") .bridge .bridge]

theorem link_answers_leg :
    (leg.map BoneMesh.bone).Nodup ∧
      ∃ linked, Returns (link leg) Journal.empty linked
          (Journal.empty.warned
            [⟨"thigh", noParent⟩, ⟨"toe", noParent⟩, ⟨"foot_b", noChild⟩]) ∧
        linked.bridges = [⟨"shin", "foot_a"⟩, ⟨"shin", "foot_b"⟩, ⟨"toe", "nail"⟩,
          ⟨"thigh", "shin"⟩] ∧
        Answers leg linked := by
  have hnames : (leg.map BoneMesh.bone).Nodup := by decide
  obtain ⟨linked, hlinked, hanswers⟩ := link_answers hnames Journal.empty
  have hbridges : linked.bridges = all leg := by
    rw [(hlinked.unique (returns_link hnames _)).1]
  refine ⟨hnames, linked, ?_, ?_, hanswers⟩
  · convert hlinked using 2
    rw [hbridges]
    decide
  · rw [hbridges]
    decide

end Bridge

end Mannequin
