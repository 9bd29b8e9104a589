import Mannequin.Proofs.Items
import Mannequin.Proofs.Skeleton
import Mannequin.Proofs.Skeleton.Parents
import Mannequin.Skeleton.Table

/-!
# Tables and skeletons

The tables that work in place keeps are always those of a skeleton. Every operation comes
to the tables of the skeleton that is added to or assembled in one piece, and tells the
same; so what is known of skeletons holds of tables, and the three tables stay in step.
-/

namespace Mannequin

variable {α : Type}

namespace Skeleton

/-- The tables of a skeleton. -/
def table (s : Skeleton α) : BoneTable α := ⟨s.bones, s.frames, NameMap.positions s.names⟩

variable {s : Skeleton α} {name : String}

theorem getElem?_names (s : Skeleton α) (i : Nat) :
    s.names[i]? = s.joints[i]?.map fun joint => joint.bone.name := by
  rw [names, bones, List.map_map, List.getElem?_map]
  rfl

/-- A joint that is found has a place, which is that of its name. -/
theorem joint?_eq_some_iff (hs : s.names.Nodup) {joint : Joint α} :
    s.joint? name = some joint ↔
      ∃ i, (NameMap.positions s.names).get? name = some i ∧ s.joints[i]? = some joint := by
  have hnames : (s.joints.map fun joint => joint.bone.name).Nodup := by
    rwa [names, bones, List.map_map] at hs
  rw [joint?]
  constructor
  · intro h
    obtain ⟨i, hi⟩ := List.mem_iff_getElem?.mp (List.mem_of_find?_eq_some h)
    have hname : joint.bone.name = name := by simpa using List.find?_some h
    refine ⟨i, ?_, hi⟩
    rw [NameMap.get?_positions hs, getElem?_names, hi, Option.map_some, hname]
  · rintro ⟨i, hi, hjoint⟩
    rw [NameMap.get?_positions hs, getElem?_names, hjoint, Option.map_some,
      Option.some.injEq] at hi
    obtain rfl := hi
    exact find?_eq_some_of_nodup hnames (List.mem_of_getElem? hjoint)

/-- Joints are found through the places of their names. -/
theorem joint?_eq_bind (hs : s.names.Nodup) (name : String) :
    s.joint? name = ((NameMap.positions s.names).get? name).bind fun i => s.joints[i]? := by
  refine Option.ext fun joint => ?_
  rw [joint?_eq_some_iff hs, Option.bind_eq_some_iff]

theorem bone?_table (hs : s.names.Nodup) (name : String) : s.table.bone? name = s.bone? name := by
  rw [BoneTable.bone?, bone?, joint?_eq_bind hs, Option.map_bind]
  simp only [table, bones, List.getElem?_map]
  rfl

theorem frame?_table (hs : s.names.Nodup) (name : String) :
    s.table.frame? name = s.frame? name := by
  rw [BoneTable.frame?, frame?, joint?_eq_bind hs, Option.map_bind]
  simp only [table, frames, List.getElem?_map]
  rfl

theorem mem_positions_iff {names : List String} (hnames : names.Nodup) :
    name ∈ NameMap.positions names ↔ name ∈ names := by
  rw [NameMap.mem_iff_exists, List.mem_iff_getElem?]
  exact exists_congr fun i => NameMap.get?_positions hnames

theorem contains_table (hs : s.names.Nodup) (name : String) :
    s.table.contains name = s.contains name := by
  rw [Bool.eq_iff_iff, contains_iff]
  exact mem_positions_iff hs

end Skeleton

namespace BoneTable

open Skeleton (table)

variable {β : Type} {s s' : Skeleton α} {bone : Bone α} {desk : Desk α}

/-! ### Work that follows a plan -/

theorem outcome_get_bind (next : Desk α → Tabling α β) (desk : Desk α) :
    outcome (get >>= next) desk = outcome (next desk) desk := rfl

theorem outcome_edit (change : BoneTable α → BoneTable α) (desk : Desk α) :
    outcome (edit change) desk = (.ok (), { desk with table := change desk.table }) := rfl

theorem outcome_edit_bind (change : BoneTable α → BoneTable α) (next : Unit → Tabling α β)
    (desk : Desk α) : outcome (edit change >>= next) desk =
      outcome (next ()) { desk with table := change desk.table } := rfl

theorem outcome_aside (work : Journaled β) (desk : Desk α) :
    outcome (aside work) desk =
      ((outcome work desk.journal).1, { desk with journal := (outcome work desk.journal).2 }) := rfl

/-- Work on the tables of a skeleton comes to the tables of the skeleton that a plan comes
to, or fails where the plan fails, and tells the same. -/
def Follows (work : Tabling α Unit) (s : Skeleton α) (plan : Journaled (Skeleton α)) : Prop :=
  ∀ journal, match outcome plan journal with
    | (.ok s', told) => s'.names.Nodup ∧
        outcome work ⟨s.table, journal⟩ = (.ok (), ⟨s'.table, told⟩)
    | (.error e, told) => ∃ left, outcome work ⟨s.table, journal⟩ = (.error e, ⟨left, told⟩)

theorem follows_pure (hs : s.names.Nodup) : Follows (pure ()) s (pure s) :=
  fun _ => ⟨hs, rfl⟩

theorem Follows.bind {work : Tabling α Unit} {next : Unit → Tabling α Unit}
    {plan : Journaled (Skeleton α)} {rest : Skeleton α → Journaled (Skeleton α)}
    (h : Follows work s plan)
    (hnext : ∀ s' journal told, Returns plan journal s' told → s'.names.Nodup →
      Follows (next ()) s' (rest s')) :
    Follows (work >>= next) s (plan >>= rest) := by
  intro journal
  have hfirst := h journal
  rw [outcome_bind]
  rcases hplan : outcome plan journal with ⟨e | s', told⟩
  · rw [hplan] at hfirst
    obtain ⟨left, hwork⟩ := hfirst
    exact ⟨left, by rw [outcome_bind, hwork]⟩
  · rw [hplan] at hfirst
    obtain ⟨hs', hwork⟩ := hfirst
    have hrest := hnext s' journal told hplan hs' told
    rw [outcome_bind, hwork]
    exact hrest

theorem Follows.of_returns {work : Tabling α Unit} {plan : Journaled (Skeleton α)}
    (h : ∀ journal, ∃ s' told, Returns plan journal s' told ∧ s'.names.Nodup ∧
      Returns work ⟨s.table, journal⟩ () ⟨s'.table, told⟩) : Follows work s plan := by
  intro journal
  obtain ⟨s', told, hplan, hs', hwork⟩ := h journal
  rw [show outcome plan journal = _ from hplan]
  exact ⟨hs', hwork⟩

/-- Work and plan go on with what both have read. -/
theorem follows_lift {read : Except Error β} {work : β → Tabling α Unit}
    {plan : β → Journaled (Skeleton α)} (h : ∀ b, read = .ok b → Follows (work b) s (plan b)) :
    Follows (liftM read >>= work) s (liftM read >>= plan) := by
  intro journal
  cases read with
  | error e => exact ⟨s.table, rfl⟩
  | ok b => exact h b rfl journal

theorem follows_aside {read : Journaled β} {work : β → Tabling α Unit}
    {plan : β → Journaled (Skeleton α)} (h : ∀ b, Follows (work b) s (plan b)) :
    Follows (aside read >>= work) s (read >>= plan) := by
  intro journal
  rw [outcome_bind, outcome_bind, outcome_aside]
  rcases hread : outcome read journal with ⟨e | b, told⟩
  · exact ⟨s.table, rfl⟩
  · exact h b told

/-- Work that is done item by item follows a plan that goes through the items. -/
theorem follows_forM {γ : Type} {work : γ → Tabling α Unit}
    {plan : Skeleton α → γ → Journaled (Skeleton α)}
    (h : ∀ (s : Skeleton α) (c : γ), s.names.Nodup → Follows (work c) s (plan s c)) (l : List γ)
    (hs : s.names.Nodup) : Follows (l.forM work) s (l.foldlM plan s) := by
  induction l generalizing s with
  | nil => exact follows_pure hs
  | cons c rest ih =>
      rw [List.foldlM_cons]
      exact (h s c hs).bind fun s' _ _ _ hs' => ih hs'

/-! ### Bones that lose their parents -/

/-- The tables after some bones have been settled among all names, and some have not. -/
def halfSettled (s : Skeleton α) (done todo : List (Bone α)) : BoneTable α :=
  { s.table with bones := done.map (Skeleton.settled s.names) ++ todo }

/-- The place of a name that has one is not touched when its bone loses its parent. -/
theorem outcome_dropParent (desk : Desk α) {name : String} {i : Nat}
    (h : desk.table.positions.get? name = some i) :
    outcome (dropParent name) desk = (.ok (), { desk with table := { desk.table with
      bones := desk.table.bones.modify i fun bone => { bone with parent := none } } }) := by
  have hkept : desk.table.positions.insertNew name 0 = desk.table.positions :=
    if_pos (NameMap.mem_of_get? h)
  rw [dropParent, outcome_edit_bind, hkept, outcome_edit]
  simp only [h, Option.getD_some]

/-- One step settles the bone that has its turn, and tells what it tells. -/
theorem outcome_settleParent (hs : s.names.Nodup) {done todo : List (Bone α)}
    (hsplit : s.bones = done ++ bone :: todo) (journal : Journal) :
    outcome (settleParent bone) ⟨halfSettled s done (bone :: todo), journal⟩ =
      (.ok (), ⟨halfSettled s (done ++ [bone]) todo,
        journal.warned (Skeleton.missingParent s.names bone.name bone.parent).toList⟩) := by
  have hnext : halfSettled s (done ++ [bone]) todo =
      { s.table with
        bones := done.map (Skeleton.settled s.names) ++
          Skeleton.settled s.names bone :: todo } := by
    simp [halfSettled]
  have hcontains : ∀ name, (halfSettled s done (bone :: todo)).contains name = true ↔
      name ∈ s.names := fun name => Skeleton.mem_positions_iff hs
  rw [hnext, settleParent]
  split
  case h_1 hparent =>
    have hknown : ∀ parent, bone.parent = some parent → parent ∈ s.names :=
      fun parent h => absurd (hparent.symm.trans h) (Option.some_ne_none parent).symm
    obtain ⟨hsame, hsilent⟩ := Skeleton.settled_of_known hknown
    rw [hsame, hsilent, Option.toList_none, Journal.warned_nil]
    rfl
  case h_2 parent hparent =>
    rw [outcome_get_bind]
    by_cases hin : parent ∈ s.names
    · have hknown : ∀ other, bone.parent = some other → other ∈ s.names :=
        fun other h => Option.some.inj (hparent.symm.trans h) ▸ hin
      obtain ⟨hsame, hsilent⟩ := Skeleton.settled_of_known hknown
      rw [if_pos ((hcontains parent).mpr hin), hsame, hsilent, Option.toList_none,
        Journal.warned_nil]
      rfl
    · have hplace : (NameMap.positions s.names).get? bone.name = some done.length := by
        rw [NameMap.get?_positions hs, Skeleton.names, hsplit, List.map_append, List.map_cons,
          List.getElem?_append_right (by simp), List.length_map, Nat.sub_self,
          List.getElem?_cons_zero]
      have hmiddle := modify_middle (done.map (Skeleton.settled s.names)) bone todo
        fun bone => { bone with parent := none }
      rw [List.length_map] at hmiddle
      obtain ⟨hlost, htold⟩ := Skeleton.settled_of_unknown hparent hin
      rw [if_neg fun h => hin ((hcontains parent).mp h), hlost, htold, ← hmiddle, outcome_bind,
        outcome_aside, Skeleton.reportParent_eq_warn, Journaled.outcome_warn]
      exact outcome_dropParent ⟨halfSettled s done (bone :: todo), journal.warned _⟩ hplace

theorem returns_settleParents (hs : s.names.Nodup) {done todo : List (Bone α)}
    (hsplit : s.bones = done ++ todo) (journal : Journal) :
    Returns (todo.forM settleParent) ⟨halfSettled s done todo, journal⟩ ()
      ⟨halfSettled s s.bones [], journal.warned (todo.filterMap fun bone =>
        Skeleton.missingParent s.names bone.name bone.parent)⟩ := by
  induction todo generalizing done journal with
  | nil =>
      rw [List.append_nil] at hsplit
      rw [hsplit, List.filterMap_nil, Journal.warned_nil]
      rfl
  | cons bone rest ih =>
      have htold : (Skeleton.missingParent s.names bone.name bone.parent).toList ++
          (rest.filterMap fun bone => Skeleton.missingParent s.names bone.name bone.parent) =
          (bone :: rest).filterMap fun bone =>
            Skeleton.missingParent s.names bone.name bone.parent := by
        rw [List.filterMap_cons]
        cases Skeleton.missingParent s.names bone.name bone.parent <;> rfl
      rw [← htold, ← Journal.warned_warned]
      refine returns_bind.mpr ⟨(), _, outcome_settleParent hs hsplit journal, ?_⟩
      exact ih (by rw [hsplit, List.append_assoc, List.singleton_append]) _

/-- Settling bone by bone in place settles the skeleton. -/
theorem follows_settleParents (hs : s.names.Nodup) :
    Follows (s.bones.forM settleParent) s s.settleParents := by
  have hdone : halfSettled s s.bones [] = s.settle.table := by
    rw [halfSettled, List.append_nil, Skeleton.table, Skeleton.table, s.bones_settle,
      s.frames_settle, s.names_settle]
  refine .of_returns fun journal => ⟨s.settle, _, Skeleton.returns_settleParents s journal,
    by rwa [s.names_settle], ?_⟩
  rw [← hdone]
  exact returns_settleParents hs (List.nil_append s.bones).symm journal

/-! ### Bones that are added -/

/-- The tables of a skeleton with one joint more. -/
theorem table_concat (s : Skeleton α) (bone : Bone α) (frame : BoneFrame α) :
    Skeleton.table ⟨s.joints ++ [⟨bone, frame⟩]⟩ =
      ⟨s.bones ++ [bone], s.frames ++ [frame],
        s.table.positions.insert bone.name s.bones.length⟩ := by
  rw [table, Skeleton.bones, Skeleton.frames, Skeleton.names, Skeleton.bones, List.map_append,
    List.map_append, List.map_append]
  simp [table, Skeleton.bones, Skeleton.frames, Skeleton.names]

variable [Scalar α]

/-- A bone that is added to the tables is added to the skeleton, and one that is refused
is refused before any table is touched. -/
theorem outcome_add (hs : s.names.Nodup) (bone : Bone α) (epsilon : α) (journal : Journal) :
    outcome (add bone epsilon) ⟨s.table, journal⟩ =
      match s.add bone epsilon with
      | .ok s' => (.ok (), ⟨s'.table, journal⟩)
      | .error e => (.error e, ⟨s.table, journal⟩) := by
  rw [add, outcome_get_bind, Skeleton.contains_table hs, Skeleton.add]
  by_cases hknown : s.contains bone.name
  · rw [if_pos hknown, if_pos hknown]
    rfl
  · rw [if_neg hknown, if_neg hknown]
    cases hframe : BoneFrame.ofEnds bone.name bone.head bone.tail epsilon with
    | error e => rfl
    | ok frame =>
        change _ = (_, (⟨Skeleton.table ⟨s.joints ++ [⟨bone, frame⟩]⟩, journal⟩ : Desk α))
        rw [table_concat]
        rfl

theorem follows_add (hs : s.names.Nodup) (bone : Bone α) (epsilon : α) :
    Follows (add bone epsilon) s (liftM (s.add bone epsilon)) := by
  intro journal
  have hadd := outcome_add hs bone epsilon journal
  cases hplan : s.add bone epsilon with
  | error e =>
      rw [hplan] at hadd
      exact ⟨s.table, hadd⟩
  | ok s' =>
      rw [hplan] at hadd
      exact ⟨Skeleton.nodup_names_of_add hs hplan, hadd⟩

theorem follows_addAll (hs : s.names.Nodup) (bones : List (Bone α)) (epsilon : α) :
    Follows (bones.forM fun bone => add bone epsilon) s (liftM (s.addAll bones epsilon)) := by
  induction bones generalizing s with
  | nil => exact follows_pure hs
  | cons bone rest ih =>
      have hsplit : (liftM (s.addAll (bone :: rest) epsilon) : Journaled (Skeleton α)) =
          liftM (s.add bone epsilon) >>= fun s' => liftM (s'.addAll rest epsilon) := by
        rw [Skeleton.addAll, List.foldlM_cons]
        cases s.add bone epsilon <;> rfl
      rw [hsplit]
      exact (follows_add hs bone epsilon).bind fun s' _ _ _ hs' => ih hs'

theorem follows_addMirror (hs : s.names.Nodup) (epsilon : α) (name mirror : String) :
    Follows (addMirror epsilon name mirror) s (s.addMirror epsilon name mirror) := by
  have hcontains : s.table.contains = s.contains := funext (Skeleton.contains_table hs)
  intro journal
  rw [addMirror, outcome_get_bind, Skeleton.addMirror]
  simp only [Skeleton.bone?_table hs, hcontains]
  cases s.bone? mirror with
  | none => exact ⟨hs, rfl⟩
  | some source => exact follows_add hs (s.mirrorBone name source) epsilon journal

/-! ### Skeletons that are loaded -/

theorem follows_assemble (base : List (Bone α)) (entries : List (BoneEntry α)) (epsilon : α) :
    Follows (assemble base entries epsilon) Skeleton.empty
      (Skeleton.assemble base entries epsilon) := by
  refine follows_lift fun bones _ => ?_
  have hempty : (Skeleton.empty : Skeleton α).names.Nodup := List.nodup_nil
  refine (follows_addAll hempty bones epsilon).bind fun plain _ _ hplain hnames => ?_
  obtain ⟨hbones, -⟩ := Skeleton.of_addAll_eq_ok hempty (returns_lift.mp hplain).1
  obtain rfl : plain.bones = bones := hbones
  refine (follows_settleParents hnames).bind fun settled _ _ _ hsettled => ?_
  exact follows_forM (fun s entry hs => follows_addMirror hs epsilon entry.1 entry.2) _ hsettled

omit [Scalar α] in
/-- Work on new tables that follows a plan comes to the tables of the skeleton that is
planned; if it fails, the tables at hand stay as they are. -/
theorem outcome_afresh {work : Tabling α Unit} {plan : Journaled (Skeleton α)}
    (h : Follows work Skeleton.empty plan) (desk : Desk α) :
    outcome (afresh work) desk =
      match outcome plan desk.journal with
      | (.ok s', told) => (.ok (), ⟨s'.table, told⟩)
      | (.error e, told) => (.error e, ⟨desk.table, told⟩) := by
  have hwork := h desk.journal
  have hrun : outcome (afresh work) desk =
      match outcome work ⟨empty, desk.journal⟩ with
      | (.ok (), done) => (.ok (), done)
      | (.error e, failed) => (.error e, { desk with journal := failed.journal }) := rfl
  rw [hrun]
  rcases hplan : outcome plan desk.journal with ⟨e | s', told⟩
  · rw [hplan] at hwork
    obtain ⟨left, hleft⟩ := hwork
    rw [show outcome work ⟨empty, desk.journal⟩ = _ from hleft]
  · rw [hplan] at hwork
    rw [show outcome work ⟨empty, desk.journal⟩ = _ from hwork.2]

theorem follows_ofList (list : Json α) (epsilon : α) :
    Follows (do
      let entries ← Skeleton.readEntries list
      assemble [] entries epsilon) Skeleton.empty (Skeleton.ofList list epsilon) :=
  follows_lift fun entries _ => follows_assemble [] entries epsilon

theorem follows_ofRecipe (preset list : Json α) (epsilon : α) :
    Follows (do
      let given ← aside (Skeleton.outline preset list)
      assemble given.base given.entries epsilon) Skeleton.empty
      (Skeleton.ofRecipe preset list epsilon) :=
  follows_aside fun given => follows_assemble given.base given.entries epsilon

/-! ### Operations -/

/-- The skeleton that an operation makes of a skeleton. -/
def Operation.plan (s : Skeleton α) : Operation α → Journaled (Skeleton α)
  | .add bone epsilon => liftM (s.add bone epsilon)
  | .loadList list epsilon => Skeleton.ofList list epsilon
  | .loadRecipe preset list epsilon => Skeleton.ofRecipe preset list epsilon

/-- An operation comes to the tables of the skeleton that is planned, or fails and leaves
all tables as they are. -/
theorem outcome_perform (hs : s.names.Nodup) (operation : Operation α) (journal : Journal) :
    outcome operation.perform ⟨s.table, journal⟩ =
      match outcome (operation.plan s) journal with
      | (.ok s', told) => (.ok (), ⟨s'.table, told⟩)
      | (.error e, told) => (.error e, ⟨s.table, told⟩) := by
  cases operation with
  | add bone epsilon =>
      have hlift : outcome (liftM (s.add bone epsilon) : Journaled (Skeleton α)) journal =
          (s.add bone epsilon, journal) := rfl
      rw [Operation.perform, Operation.plan, outcome_add hs, hlift]
      cases s.add bone epsilon <;> rfl
  | loadList list epsilon => exact outcome_afresh (follows_ofList list epsilon) _
  | loadRecipe preset list epsilon => exact outcome_afresh (follows_ofRecipe preset list epsilon) _

theorem nodup_framed_of_plan {operation : Operation α} {journal told : Journal}
    (hs : s.names.Nodup) (hframed : s.Framed)
    (h : Returns (operation.plan s) journal s' told) : s'.names.Nodup ∧ s'.Framed := by
  cases operation with
  | add bone epsilon =>
      have hadd := (returns_lift.mp h).1
      exact ⟨Skeleton.nodup_names_of_add hs hadd, hframed.add hadd⟩
  | loadList list epsilon =>
      obtain ⟨entries, -, hassemble⟩ := Skeleton.of_returns_ofList h
      obtain ⟨_, -, hsettles⟩ := Skeleton.settles_of_returns_assemble hassemble
      exact ⟨hsettles.nodup, Skeleton.framed_assemble hassemble⟩
  | loadRecipe preset list epsilon =>
      obtain ⟨_, _, _, -, -, hassemble⟩ := Skeleton.of_returns_ofRecipe h
      obtain ⟨_, -, hsettles⟩ := Skeleton.settles_of_returns_assemble hassemble
      exact ⟨hsettles.nodup, Skeleton.framed_assemble hassemble⟩

/-- Whatever operations come to, they come to the tables of some skeleton. -/
theorem exists_table_performAll (operations : List (Operation α)) (journal : Journal)
    (hs : s.names.Nodup) (hframed : s.Framed) :
    ∃ (s' : Skeleton α) (told : Journal), s'.names.Nodup ∧ s'.Framed ∧
      Operation.performAll operations ⟨s.table, journal⟩ = ⟨s'.table, told⟩ := by
  induction operations generalizing s journal with
  | nil => exact ⟨s, journal, hs, hframed, rfl⟩
  | cons operation rest ih =>
      have hfirst := outcome_perform hs operation journal
      have hnext : Operation.performAll (operation :: rest) ⟨s.table, journal⟩ =
          Operation.performAll rest (outcome operation.perform ⟨s.table, journal⟩).2 := rfl
      rw [hnext, hfirst]
      rcases hplan : outcome (operation.plan s) journal with ⟨e | s', told⟩
      · exact ih told hs hframed
      · obtain ⟨hs', hframed'⟩ := nodup_framed_of_plan hs hframed hplan
        exact ih told hs' hframed'

/-! ### Tables in step -/

/-- The tables say the same: names differ, each has the place of its bone, every bone has
the frame of its ends at its place, and a name is found in all of them or in none. -/
structure InStep (t : BoneTable α) : Prop where
  length : t.frames.length = t.bones.length
  distinct : (t.bones.map Bone.name).Nodup
  places : ∀ name i, t.positions.get? name = some i ↔ t.bones[i]?.map Bone.name = some name
  framed : ∀ (i : ℕ) bone frame, t.bones[i]? = some bone → t.frames[i]? = some frame →
    ∃ epsilon, BoneFrame.ofEnds bone.name bone.head bone.tail epsilon = .ok frame
  absent : ∀ name, t.contains name = false → t.bone? name = none ∧ t.frame? name = none
  present : ∀ name, t.contains name = true → ∃ (i : ℕ) (bone : Bone α) (frame : BoneFrame α),
    bone.name = name ∧ t.bones[i]? = some bone ∧ t.frames[i]? = some frame ∧
      t.bone? name = some bone ∧ t.frame? name = some frame

theorem inStep_table (hs : s.names.Nodup) (hframed : s.Framed) : s.table.InStep where
  length := by rw [table, Skeleton.frames, Skeleton.bones, List.length_map, List.length_map]
  distinct := hs
  places name i := by
    rw [show s.table.positions.get? name = some i ↔ _ from NameMap.get?_positions hs,
      Skeleton.names, List.getElem?_map]
    rfl
  framed i bone frame hbone hframe := by
    rw [table, Skeleton.bones, List.getElem?_map] at hbone
    rw [table, Skeleton.frames, List.getElem?_map] at hframe
    obtain ⟨joint, hjoint, rfl⟩ := Option.map_eq_some_iff.mp hbone
    rw [hjoint, Option.map_some, Option.some.injEq] at hframe
    obtain rfl := hframe
    exact hframed joint (List.mem_of_getElem? hjoint)
  absent name hname := by
    rw [Skeleton.contains_table hs] at hname
    have hnone : s.joint? name = none := by simpa [Skeleton.contains] using hname
    rw [Skeleton.bone?_table hs, Skeleton.frame?_table hs, Skeleton.bone?, Skeleton.frame?, hnone]
    exact ⟨rfl, rfl⟩
  present name hname := by
    rw [Skeleton.contains_table hs] at hname
    obtain ⟨joint, hjoint⟩ := Option.isSome_iff_exists.mp hname
    obtain ⟨i, -, hi⟩ := (Skeleton.joint?_eq_some_iff hs).mp hjoint
    refine ⟨i, joint.bone, joint.frame, by simpa using List.find?_some hjoint, ?_, ?_, ?_, ?_⟩
    · rw [table, Skeleton.bones, List.getElem?_map, hi, Option.map_some]
    · rw [table, Skeleton.frames, List.getElem?_map, hi, Option.map_some]
    · rw [Skeleton.bone?_table hs, Skeleton.bone?, hjoint, Option.map_some]
    · rw [Skeleton.frame?_table hs, Skeleton.frame?, hjoint, Option.map_some]

/-- After any operations on empty tables, some of which may have failed, the tables are in
step; and one more operation, if it fails, leaves all of them as they are. -/
theorem performAll_inStep (operations : List (Operation α)) (journal : Journal) :
    (Operation.performAll operations ⟨empty, journal⟩).table.InStep ∧
      ∀ (operation : Operation α) e after,
        outcome operation.perform (Operation.performAll operations ⟨empty, journal⟩) =
          (.error e, after) →
        after.table = (Operation.performAll operations ⟨empty, journal⟩).table := by
  obtain ⟨s, told, hs, hframed, hreached⟩ :=
    exists_table_performAll operations journal (s := Skeleton.empty) List.nodup_nil
      Skeleton.framed_empty
  change Operation.performAll operations ⟨empty, journal⟩ = _ at hreached
  rw [hreached]
  refine ⟨inStep_table hs hframed, fun operation e after hfails => ?_⟩
  have hperform := outcome_perform hs operation told
  rw [hfails] at hperform
  rcases hplan : outcome (operation.plan s) told with ⟨e' | s', told'⟩
  · rw [hplan] at hperform
    rw [(Prod.mk.inj hperform).2]
  · rw [hplan] at hperform
    cases hperform

/-- Two arms and a hand, with a name that is taken in between. -/
def armOperations : List (Operation ℚ) :=
  [.add ⟨"arm_l", none, ⟨1, 0, 1⟩, ⟨5, 0, 1⟩⟩ (1 / 1000),
   .add ⟨"arm_l", none, ⟨2, 0, 1⟩, ⟨5, 0, 1⟩⟩ (1 / 1000),
   .loadList Skeleton.arms (1 / 1000)]

/-- The second image has the name of the first. -/
def twins : Json ℚ :=
  .arr [
    .obj [("bone", .str "leg_l"), ("head", .arr [.int 1, .int 0, .int 1]),
      ("tail", .arr [.int 1, .int 0, .int 0]), ("parent", .str "pelvis")],
    .obj [("bone", .str "leg_r"), ("mirror", .str "leg_l")],
    .obj [("bone", .str "leg_r"), ("mirror", .str "leg_l")]]

theorem performAll_inStep_arms :
    (Operation.performAll armOperations ⟨empty, Journal.empty⟩).table.InStep ∧
      ∃ e after, outcome (Operation.loadList twins (1 / 1000)).perform
          (Operation.performAll armOperations ⟨empty, Journal.empty⟩) = (.error e, after) ∧
        after.table.bones.map Bone.name = ["arm_l", "hand_r", "arm_r"] := by
  obtain ⟨hstep, hkept⟩ := performAll_inStep armOperations Journal.empty
  have hfails : (outcome (Operation.loadList twins (1 / 1000)).perform
      (Operation.performAll armOperations ⟨empty, Journal.empty⟩)).1.isOk = false := by
    decide +kernel
  rcases houtcome : outcome (Operation.loadList twins (1 / 1000)).perform
      (Operation.performAll armOperations ⟨empty, Journal.empty⟩) with ⟨e | done, after⟩
  · refine ⟨hstep, e, after, rfl, ?_⟩
    rw [hkept _ e after houtcome]
    decide +kernel
  · rw [houtcome] at hfails
    cases hfails

end BoneTable

end Mannequin
