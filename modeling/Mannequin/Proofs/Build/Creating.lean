import Mannequin.Proofs.Build.Custody
import Mannequin.Proofs.Character.Sizes

/-!
# What a build creates

A build creates the segment or the part of each bone, then what is attached to it, then the
shapes that its modifiers combine with, bone by bone. A piece that has a field is deformed
with it as soon as it has been created, before anything else is asked of the kernel, and only
a field that passes for the identity is left out. This is so on every kernel, and also as far
as a build gets that fails.
-/

namespace Mannequin

variable {α β γ : Type} [Scalar α]

/-! ### Pieces in the order of the build -/

/-- The segment of a mesh as a piece. -/
def BoneMesh.segmentPiece (m : BoneMesh α) : Piece α :=
  ⟨.profile m.profile, m.segment, some m.field, m.material⟩

/-- The piece that a modifier combines a mesh with. -/
def operand? (shapes : NameMap (BoolShape α)) : Blueprint.Modifier α → Option (Piece α)
  | .boolean _ target => (shapes.get? target).map BoolShape.piece
  | _ => none

/-- What is created for a mesh. -/
def BoneMesh.creations (m : BoneMesh α) (shapes : NameMap (BoolShape α)) : List (Piece α) :=
  m.part.elim [m.segmentPiece] Part.pieces ++
    (m.attachments ++ m.modifiers.filterMap (operand? shapes))

omit [Scalar α] in
/-- What is created for a mesh is its segment or belongs to it, or it is a shape that one of
its modifiers combines with. -/
theorem BoneMesh.of_mem_creations {m : BoneMesh α} {shapes : NameMap (BoolShape α)} {p : Piece α}
    (h : p ∈ m.creations shapes) :
    p = m.segmentPiece ∨ p ∈ m.pieces ∨
      ∃ name shape, shapes.get? name = some shape ∧ p = shape.piece := by
  rw [BoneMesh.creations, List.mem_append, List.mem_append] at h
  rw [BoneMesh.pieces, List.mem_append]
  rcases h with hbase | hattached | hoperand
  · cases hpart : m.part with
    | none =>
        rw [hpart] at hbase
        exact .inl (List.mem_singleton.mp hbase)
    | some part =>
        rw [hpart] at hbase
        exact .inr (.inl (.inl hbase))
  · exact .inr (.inl (.inr hattached))
  · obtain ⟨modifier, -, hfound⟩ := List.mem_filterMap.mp hoperand
    cases modifier with
    | bevel width segments => cases hfound
    | subdivide cuts => cases hfound
    | boolean op target =>
        obtain ⟨shape, hshape, rfl⟩ := Option.map_eq_some_iff.mp hfound
        exact .inr (.inr ⟨target, shape, hshape, rfl⟩)

/-- What is created for a character. -/
def Character.creations (c : Character α) : List (Piece α) :=
  c.meshes.flatMap fun m => m.creations c.boolShapes

/-! ### Exchanges that create pieces -/

/-- The answered creation of a piece. -/
def Piece.creation (p : Piece α) (made : Handle) : Exchange α :=
  ⟨.mesh (.create p.form p.world.matrix), .ok (some made)⟩

/-- Whether an exchange is an answered creation. -/
def Exchange.creates : Exchange α → Bool
  | ⟨.mesh (.create _ _), .ok _⟩ => true
  | _ => false

omit [Scalar α] in
theorem Exchange.exists_eq_of_creates {exchange : Exchange α} {made : Handle}
    (h : (exchange.creates, exchange.reply.toOption) = (true, some (some made))) :
    ∃ form world, exchange = ⟨.mesh (.create form world), .ok (some made)⟩ := by
  obtain ⟨call, reply⟩ := exchange
  obtain ⟨hcreates, hreply⟩ := Prod.mk.inj h
  obtain rfl : reply = .ok (some made) := by
    cases reply <;> cases hreply
    rfl
  match call, hcreates with
  | .mesh (.create form world), _ => exact ⟨form, world, rfl⟩

/-- Exchanges in which pieces are created one after the other, each with its deformation right
after it, unless it has a field that passes for the identity or none. -/
inductive Creates : List (Exchange α) → List (Piece α) → Prop
  | none : Creates [] []
  | other {exchange : Exchange α} {rest : List (Exchange α)} {pieces : List (Piece α)}
      (h : exchange.creates = false) (hrest : Creates rest pieces) :
      Creates (exchange :: rest) pieces
  | undeformed {rest : List (Exchange α)} {pieces : List (Piece α)} (p : Piece α) (made : Handle)
      (h : ∀ field ∈ p.field, field.IsIdentity) (hrest : Creates rest pieces) :
      Creates (p.creation made :: rest) (p :: pieces)
  | deformed {rest : List (Exchange α)} {pieces : List (Piece α)} (p : Piece α) (made : Handle)
      (field : Deformation α) (reply : Except Refusal (Option Handle))
      (h : p.field = some field) (hrest : Creates rest pieces) :
      Creates (p.creation made :: ⟨.mesh (.deform made field), reply⟩ :: rest) (p :: pieces)

namespace Creates

variable {exchanges exchanges' : List (Exchange α)} {pieces pieces' : List (Piece α)}

theorem single {exchange : Exchange α} (h : exchange.creates = false) : Creates [exchange] [] :=
  .other h .none

theorem append (h : Creates exchanges pieces) (h' : Creates exchanges' pieces') :
    Creates (exchanges ++ exchanges') (pieces ++ pieces') := by
  induction h with
  | none => exact h'
  | other hother _ ih => exact .other hother ih
  | undeformed p made hfield _ ih => exact .undeformed p made hfield ih
  | deformed p made field reply hfield _ ih => exact .deformed p made field reply hfield ih

theorem countP_creates (h : Creates exchanges pieces) :
    exchanges.countP Exchange.creates = pieces.length := by
  induction h with
  | none => rfl
  | other hother _ ih => rw [List.countP_cons_of_neg (Bool.not_eq_true _ ▸ hother), ih]
  | undeformed p made _ _ ih => rw [List.countP_cons_of_pos rfl, ih, List.length_cons]
  | deformed p made field reply _ _ ih =>
      rw [List.countP_cons_of_pos rfl, List.countP_cons_of_neg Bool.false_ne_true, ih,
        List.length_cons]

/-- What is created at some place of the exchanges is the piece whose turn it is. If it has a
field, it is deformed with it next, or the field passes for the identity. -/
theorem exists_piece (h : Creates exchanges pieces) {i : Nat} {form : Form} {world : Mat4 α}
    {made : Handle} (hi : exchanges[i]? = some ⟨.mesh (.create form world), .ok (some made)⟩) :
    ∃ p, pieces[(exchanges.take i).countP Exchange.creates]? = some p ∧ p.form = form ∧
      p.world.matrix = world ∧ ∀ field ∈ p.field,
        (∃ reply, exchanges[i + 1]? = some ⟨.mesh (.deform made field), reply⟩) ∨
          field.IsIdentity := by
  induction h generalizing i with
  | none => cases hi
  | other hother _ ih =>
      cases i with
      | zero =>
          rw [List.getElem?_cons_zero, Option.some.injEq] at hi
          rw [hi] at hother
          cases hother
      | succ i =>
          rw [List.take_succ_cons, List.countP_cons_of_neg (Bool.not_eq_true _ ▸ hother)]
          exact ih hi
  | undeformed p made' hfield _ ih =>
      cases i with
      | zero =>
          cases hi
          exact ⟨p, rfl, rfl, rfl, fun field hmem => .inr (hfield field hmem)⟩
      | succ i =>
          rw [List.take_succ_cons, List.countP_cons_of_pos rfl]
          exact ih hi
  | deformed p made' field reply hfield _ ih =>
      match i with
      | 0 =>
          cases hi
          refine ⟨p, rfl, rfl, rfl, fun field' hmem => .inl ⟨reply, ?_⟩⟩
          rw [hfield] at hmem
          cases hmem
          rfl
      | 1 => cases hi
      | i + 2 =>
          rw [List.take_succ_cons, List.take_succ_cons, List.countP_cons_of_pos rfl,
            List.countP_cons_of_neg Bool.false_ne_true]
          exact ih hi

end Creates

/-- How far work has come in creating pieces: to the end, unless it has failed. -/
def Reached (result : Except Error β) (created pieces : List (Piece α)) : Prop :=
  match result with
  | .ok _ => created = pieces
  | .error _ => created <+: pieces

omit [Scalar α] in
theorem Reached.isPrefix {result : Except Error β} {created pieces : List (Piece α)}
    (h : Reached result created pieces) : created <+: pieces := by
  cases result with
  | ok =>
      obtain rfl : created = pieces := h
      exact List.prefix_refl created
  | error => exact h

omit [Scalar α] in
theorem Reached.append {result : Except Error β} {created pieces : List (Piece α)}
    (h : Reached result created pieces) (before : List (Piece α)) :
    Reached result (before ++ created) (before ++ pieces) := by
  cases result with
  | ok => exact congrArg (before ++ ·) h
  | error => exact (List.prefix_append_right_inj before).mpr h

/-- Work creates pieces in their order. If it fails, it has created the first ones of them. -/
def Creating (work : Building α β) (pieces : List (Piece α)) : Prop :=
  ∀ s, ∃ own created, (outcome work s).2.exchanges = s.exchanges ++ own ∧ Creates own created ∧
    Reached (outcome work s).1 created pieces

namespace Creating

variable {kernel : Kernel α} {what what' : String} {work : Building α β}
  {next : β → Building α γ} {pieces pieces' : List (Piece α)}

theorem pure (b : β) : Creating (Pure.pure b : Building α β) [] :=
  fun _ => ⟨[], [], (List.append_nil _).symm, .none, rfl⟩

theorem throw (e : Error) : Creating (throw e : Building α β) [] :=
  fun _ => ⟨[], [], (List.append_nil _).symm, .none, List.prefix_refl _⟩

theorem tell (line : Line) : Creating (Building.tell line : Building α Unit) [] :=
  fun _ => ⟨[], [], (List.append_nil _).symm, .none, rfl⟩

theorem mesh {call : MeshCall α} (h : ∀ reply, Exchange.creates ⟨.mesh call, reply⟩ = false) :
    Creating (Building.mesh kernel what call) [] := by
  intro s
  rw [Building.outcome_mesh]
  cases kernel.mesh s.exchanges call with
  | ok made => exact ⟨_, [], rfl, .single (h _), rfl⟩
  | error refusal => exact ⟨_, [], rfl, .single (h _), List.prefix_refl _⟩

theorem edit (call : EditCall α) : Creating (Building.edit kernel what call) [] := by
  intro s
  rw [Building.outcome_edit]
  cases kernel.edit s.exchanges call with
  | ok => exact ⟨_, [], rfl, .single rfl, rfl⟩
  | error refusal => exact ⟨_, [], rfl, .single rfl, List.prefix_refl _⟩

/-- A piece that is created is deformed next, unless there is nothing to deform. -/
theorem formed (p : Piece α) :
    Creating (Building.mesh kernel what (.create p.form p.world.matrix) >>= fun made =>
      p.field.elim (Pure.pure made) fun field => Build.deform kernel what' field made) [p] := by
  intro s
  rw [outcome_bind, Building.outcome_mesh]
  cases kernel.mesh s.exchanges (.create p.form p.world.matrix) with
  | error refusal => exact ⟨_, [], rfl, .single rfl, List.nil_prefix⟩
  | ok made =>
      have hplain : (∀ field ∈ p.field, field.IsIdentity) →
          Creates [p.creation made] [p] := fun h => .undeformed p made h .none
      simp only
      cases hfield : p.field with
      | none => exact ⟨_, [p], rfl, hplain (by simp [hfield]), rfl⟩
      | some field =>
          rw [Option.elim_some, Build.deform]
          split
          case isTrue hidentity =>
            exact ⟨_, [p], rfl, hplain (by simp [hfield, hidentity]), rfl⟩
          case isFalse =>
            have hgrown : ∀ reply, ((s.record (p.creation made)).record
                ⟨.mesh (.deform made field), reply⟩).exchanges =
                s.exchanges ++ [p.creation made, ⟨.mesh (.deform made field), reply⟩] :=
              fun _ => List.append_assoc ..
            have hcreates : ∀ reply,
                Creates [p.creation made, ⟨.mesh (.deform made field), reply⟩] [p] :=
              fun reply => .deformed p made field reply hfield .none
            change ∃ own created, (outcome _ (s.record (p.creation made))).2.exchanges = _ ∧ _ ∧
              Reached (outcome _ (s.record (p.creation made))).1 created [p]
            rw [Building.outcome_mesh]
            cases kernel.mesh (s.record (p.creation made)).exchanges (.deform made field) with
            | ok deformed => exact ⟨_, [p], hgrown _, hcreates _, rfl⟩
            | error refusal => exact ⟨_, [p], hgrown _, hcreates _, List.prefix_refl _⟩

theorem bind (h : Creating work pieces) (hnext : ∀ b, Creating (next b) pieces') :
    Creating (work >>= next) (pieces ++ pieces') := by
  intro s
  obtain ⟨own, created, hown, hcreates, hreached⟩ := h s
  rw [outcome_bind]
  rcases houtcome : outcome work s with ⟨e | b, middle⟩
  · rw [houtcome] at hown hreached
    exact ⟨own, created, hown, hcreates, List.IsPrefix.trans hreached (List.prefix_append _ _)⟩
  · rw [houtcome] at hown hreached
    obtain rfl : created = pieces := hreached
    obtain ⟨more, created', hmore, hcreates', hreached'⟩ := hnext b middle
    exact ⟨own ++ more, created ++ created', by rw [hmore, hown, List.append_assoc],
      hcreates.append hcreates', hreached'.append created⟩

/-- What creates nothing can follow. -/
theorem bind_rest (h : Creating work pieces) (hnext : ∀ b, Creating (next b) []) :
    Creating (work >>= next) pieces :=
  List.append_nil pieces ▸ bind h hnext

theorem reporting (h : Creating work pieces) : Creating (Building.reporting work) pieces := by
  intro s
  have hwork := h s
  rw [Building.outcome_reporting]
  rcases houtcome : outcome work s with ⟨e | result, s'⟩ <;> rw [houtcome] at hwork <;> exact hwork

/-- Steps that are made for the items of a list create the pieces of the items in turn. -/
theorem foldlM {step : β → γ → Building α β} {created : γ → List (Piece α)}
    (hstep : ∀ b c, Creating (step b c) (created c)) (l : List γ) (start : β) :
    Creating (l.foldlM step start) (l.flatMap created) := by
  induction l generalizing start with
  | nil => exact pure start
  | cons c rest ih =>
      rw [List.foldlM_cons, List.flatMap_cons]
      exact bind (hstep start c) fun b => ih b

theorem mapM {task : γ → Building α β} {created : γ → List (Piece α)}
    (htask : ∀ c, Creating (task c) (created c)) (l : List γ) :
    Creating (l.mapM task) (l.flatMap created) := by
  induction l with
  | nil => exact pure []
  | cons c rest ih =>
      rw [List.mapM_cons, List.flatMap_cons]
      exact bind (htask c) fun first => bind_rest ih fun others => pure (first :: others)

end Creating

namespace Build

variable {kernel : Kernel α} {what : String} {shapes : NameMap (BoolShape α)} {weight : α}

/-! ### The mesh of a bone -/

theorem creating_piece (p : Piece α) : Creating (piece kernel what p) [p] := by
  have hpiece : piece kernel what p =
      Building.mesh kernel what (.create p.form p.world.matrix) >>= fun made =>
        p.field.elim (pure made) fun field => deform kernel what field made := by
    rw [piece]
    cases p.field <;> rfl
  rw [hpiece]
  exact .formed p

theorem creating_partOperations (operations : List (PartOperation α)) (mesh : Handle)
    (index : Nat) :
    Creating (partOperations kernel what mesh index operations)
      (operations.map PartOperation.target) := by
  induction operations generalizing mesh index with
  | nil => exact .pure mesh
  | cons operation rest ih =>
      rw [List.map_cons, ← List.singleton_append]
      refine .bind (creating_piece operation.target) fun operand => ?_
      exact .bind (.mesh fun _ => rfl) fun combined => ih combined (index + 1)

theorem creating_part (p : Part α) : Creating (part kernel what p) p.pieces :=
  .bind (creating_piece p.base) fun base => creating_partOperations p.operations base 0

theorem creating_segment (m : BoneMesh α) : Creating (segment kernel what m) [m.segmentPiece] := by
  have hends : ∀ mesh, Creating (openEnds kernel what m mesh) [] := by
    intro mesh
    rw [openEnds]
    split
    · exact .pure mesh
    · exact .mesh fun _ => rfl
  rw [segment, ← bind_assoc]
  exact .bind_rest (.formed m.segmentPiece) hends

theorem creating_attachments (pieces : List (Piece α)) (index : Nat) :
    Creating (attachments kernel what index pieces) pieces := by
  induction pieces generalizing index with
  | nil => exact .pure []
  | cons p rest ih =>
      rw [← List.singleton_append]
      refine .bind (creating_piece p) fun mesh => ?_
      exact .bind_rest (ih (index + 1)) fun others => .pure (mesh :: others)

theorem creating_attach (pieces : List (Piece α)) (mesh : Handle) :
    Creating (attach kernel what pieces mesh) pieces := by
  rw [attach]
  split
  case isTrue hnone =>
    rw [List.isEmpty_iff.mp hnone]
    exact .pure mesh
  case isFalse =>
    exact .bind_rest (creating_attachments pieces 0) fun parts => .mesh fun _ => rfl

theorem creating_modifier (mesh : Handle) (m : Blueprint.Modifier α) :
    Creating (modifier kernel shapes what mesh m) (operand? shapes m).toList := by
  cases m with
  | bevel width segments => exact .mesh fun _ => rfl
  | subdivide cuts => exact .mesh fun _ => rfl
  | boolean op target =>
      rw [modifier, operand?]
      cases shapes.get? target with
      | none => exact .throw _
      | some shape =>
          exact .bind_rest (creating_piece shape.piece) fun operand => .mesh fun _ => rfl

theorem creating_shape (m : BoneMesh α) :
    Creating (shape kernel shapes what m) (m.creations shapes) := by
  have hbase : Creating (m.part.elim (segment kernel what m) (part kernel what))
      (m.part.elim [m.segmentPiece] Part.pieces) := by
    cases m.part with
    | none => exact creating_segment m
    | some p => exact creating_part p
  refine .bind hbase fun base => .bind (creating_attach m.attachments base) fun attached => ?_
  rw [List.filterMap_eq_flatMap_toList]
  exact .foldlM creating_modifier m.modifiers attached

theorem creating_boneMesh (m : BoneMesh α) :
    Creating (boneMesh kernel shapes weight m) (m.creations shapes) := by
  rw [boneMesh_eq]
  exact .bind_rest (creating_shape m) fun mesh => .bind (.edit _) fun _ => .pure mesh

/-! ### Characters -/

theorem creating_bridge (current : NameMap Handle) (b : Bridge) :
    Creating (bridge kernel current b) [] := by
  rw [bridge]
  split
  · exact .bind (.mesh fun _ => rfl) fun bridged => .pure _
  · exact .throw _

theorem creating_bridges (bridges : List Bridge) (built : NameMap Handle) :
    Creating (bridges.foldlM (bridge kernel) built) [] := by
  have hnone : bridges.flatMap (fun _ => ([] : List (Piece α))) = [] :=
    List.flatMap_eq_nil_iff.mpr fun _ _ => rfl
  rw [← hnone]
  exact .foldlM creating_bridge bridges built

theorem creating_joinAll (parts : List Handle) : Creating (joinAll kernel parts) [] := by
  match parts with
  | [mesh] => exact .pure mesh
  | [] => exact .mesh fun _ => rfl
  | first :: second :: rest => exact .mesh fun _ => rfl

/-- A build creates the pieces of the character in their order. -/
theorem creating_character (settings : Settings α) (c : Character α) :
    Creating (character kernel settings c) c.creations := by
  have hbones : Creating (boneMeshes kernel settings c) c.creations :=
    .mapM (fun m => .bind_rest (creating_boneMesh m) fun mesh => .pure _) c.meshes
  have hassemble : Creating (assemble kernel settings c) c.creations := by
    refine .bind_rest hbones fun bones => .bind (creating_bridges c.bridges _) fun current => ?_
    exact .bind (creating_joinAll _) fun mesh => .pure _
  rw [character]
  split
  case isTrue hnone =>
    have hcreations : c.creations = [] := by
      rw [Character.creations, List.isEmpty_iff.mp hnone, List.flatMap_nil]
    rw [hcreations]
    exact .throw _
  case isFalse =>
    exact .bind_rest (.reporting hassemble) fun built => .bind (.tell _) fun _ => .pure built

end Build

end Mannequin
