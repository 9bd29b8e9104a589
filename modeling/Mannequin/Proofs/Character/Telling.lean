import Mannequin.Proofs.Character.Resolution
import Mannequin.Proofs.Skeleton.Assembly
import Mannequin.Scalar.Binary64

/-!
# The warnings of a character and the lines of its log

A soft problem is told twice, as a warning that the character comes with and as a line of
the log. No work on a character tells one without the other: whatever is told while it
goes on, the lines that warn are those of the warnings, each once and in their order, even
if the work fails half way. So the log of a recipe that is resolved can be read off its
character, the warnings of the skeleton first.
-/

namespace Mannequin

variable {α β γ : Type}

/-! ### Journals that are carried on -/

/-- The lines that warn, among the lines of a log. -/
def warningLines (lines : List Line) : List Line := lines.filter fun line => line.level = .warn

/-- A journal grows to another one by some warnings, with other lines between theirs. -/
structure Journal.GrowsTo (journal journal' : Journal) (told : List Warning) : Prop where
  warnings : journal'.warnings = journal.warnings ++ told
  lines : ∃ lines, journal'.lines = journal.lines ++ lines ∧
    warningLines lines = told.map Warning.line

namespace Journal.GrowsTo

variable {journal middle journal' : Journal} {first second : List Warning}

theorem refl (journal : Journal) : journal.GrowsTo journal [] where
  warnings := (List.append_nil _).symm
  lines := ⟨[], (List.append_nil _).symm, rfl⟩

theorem trans (hfirst : journal.GrowsTo middle first)
    (hsecond : middle.GrowsTo journal' second) : journal.GrowsTo journal' (first ++ second) where
  warnings := by rw [hsecond.warnings, hfirst.warnings, List.append_assoc]
  lines := by
    obtain ⟨before, hbefore, hfirstLines⟩ := hfirst.lines
    obtain ⟨after, hafter, hsecondLines⟩ := hsecond.lines
    refine ⟨before ++ after, ?_, ?_⟩
    · rw [hafter, hbefore, List.append_assoc]
    · rw [warningLines, List.filter_append, ← warningLines, ← warningLines, hfirstLines,
        hsecondLines, List.map_append]

/-- The warnings that a journal grows by are those behind the earlier ones. -/
theorem drop_warnings (h : journal.GrowsTo journal' first) :
    journal'.warnings.drop journal.warnings.length = first := by
  rw [h.warnings, List.drop_left]

end Journal.GrowsTo

/-! ### Work that tells alike -/

/-- Work that never tells a warning without its line, nor a line that warns without its
warning, whether it succeeds or fails. -/
def TellsAlike (work : Journaled β) : Prop :=
  ∀ journal : Journal, ∃ warnings, journal.GrowsTo (outcome work journal).2 warnings

namespace TellsAlike

variable {work : Journaled β} {next : β → Journaled γ}

/-- Work that tells alike does so when it succeeds. -/
theorem grows (h : TellsAlike work) {journal journal' : Journal} {result : β}
    (hreturns : Returns work journal result journal') :
    ∃ warnings, journal.GrowsTo journal' warnings := by
  have hjournal := h journal
  rwa [hreturns] at hjournal

protected theorem pure (b : β) : TellsAlike (pure b) :=
  fun journal => ⟨[], .refl journal⟩

theorem lift (read : Except Error β) : TellsAlike (liftM read) :=
  fun journal => ⟨[], .refl journal⟩

theorem warn (bone reason : String) : TellsAlike (Journaled.warn bone reason) := fun _ =>
  ⟨[⟨bone, reason⟩], rfl, [Warning.line ⟨bone, reason⟩], rfl, rfl⟩

theorem info (text : String) : TellsAlike (Journaled.info text) := fun _ =>
  ⟨[], (List.append_nil _).symm, [⟨.info, text⟩], rfl, rfl⟩

theorem warnings : TellsAlike Journaled.warnings := fun journal => ⟨[], .refl journal⟩

theorem ite {p : Prop} [Decidable p] {other : Journaled β} (hwork : TellsAlike work)
    (hother : TellsAlike other) : TellsAlike (if p then work else other) := by
  split
  case isTrue => exact hwork
  case isFalse => exact hother

theorem bind (hwork : TellsAlike work) (hnext : ∀ b, TellsAlike (next b)) :
    TellsAlike (work >>= next) := by
  intro journal
  obtain ⟨first, hfirst⟩ := hwork journal
  rw [outcome_bind]
  rcases houtcome : outcome work journal with ⟨_ | b, middle⟩
  case error =>
    rw [houtcome] at hfirst
    exact ⟨first, hfirst⟩
  case ok =>
    rw [houtcome] at hfirst
    obtain ⟨second, hsecond⟩ := hnext b middle
    exact ⟨first ++ second, hfirst.trans hsecond⟩

/-- A step made on a condition tells alike, whether it is made or not. -/
theorem guarded {p : Prop} [Decidable p] {step : Journaled Unit} {next : Unit → Journaled β}
    (hstep : TellsAlike step) (hnext : TellsAlike (next ())) :
    TellsAlike (if p then step >>= next else next ()) :=
  .ite (hstep.bind fun _ => hnext) hnext

theorem filterMapM {f : β → Journaled (Option γ)} (hf : ∀ b, TellsAlike (f b)) (l : List β) :
    TellsAlike (l.filterMapM f) := by
  induction l with
  | nil => exact .pure []
  | cons b rest ih =>
      rw [List.filterMapM_cons]
      refine (hf b).bind fun o => ?_
      cases o with
      | none => exact ih
      | some c => exact ih.bind fun results => .pure (c :: results)

theorem mapM {f : β → Journaled γ} (hf : ∀ b, TellsAlike (f b)) (l : List β) :
    TellsAlike (l.mapM f) := by
  induction l with
  | nil => exact .pure []
  | cons b rest ih =>
      rw [List.mapM_cons]
      exact (hf b).bind fun c => ih.bind fun results => .pure (c :: results)

theorem foldlM {f : γ → β → Journaled γ} (hf : ∀ c b, TellsAlike (f c b)) (l : List β) (c : γ) :
    TellsAlike (l.foldlM f c) := by
  induction l generalizing c with
  | nil => exact .pure c
  | cons b rest ih =>
      rw [List.foldlM_cons]
      exact (hf c b).bind ih

end TellsAlike

/-! ### Skeletons -/

namespace Skeleton

variable [Scalar α]

omit [Scalar α] in
theorem tellsAlike_settleParent (names : List String) (bone : Bone α) :
    TellsAlike (settleParent names bone) := by
  unfold settleParent
  split
  case h_1 => exact .pure bone
  case h_2 parent _ =>
    rw [reportParent_eq_warn]
    exact .ite (.pure bone) ((TellsAlike.warn bone.name _).bind fun _ => .pure _)

omit [Scalar α] in
theorem tellsAlike_settleParents (s : Skeleton α) : TellsAlike s.settleParents := by
  refine (TellsAlike.mapM (fun joint => ?_) s.joints).bind fun _ => .pure _
  exact (tellsAlike_settleParent s.names joint.bone).bind fun _ => .pure _

theorem tellsAlike_addMirror (epsilon : α) (s : Skeleton α) (name mirror : String) :
    TellsAlike (addMirror epsilon s name mirror) := by
  unfold addMirror
  split
  case h_1 =>
    rw [reportSource_eq_warn]
    exact (TellsAlike.warn name _).bind fun _ => .pure s
  case h_2 => exact .lift _

theorem tellsAlike_assemble (base : List (Bone α)) (entries : List (BoneEntry α)) (epsilon : α) :
    TellsAlike (assemble base entries epsilon) :=
  (TellsAlike.lift _).bind fun _ => (TellsAlike.lift _).bind fun plain =>
    (tellsAlike_settleParents plain).bind fun settled =>
      .foldlM (fun s (name, mirror) => tellsAlike_addMirror epsilon s name mirror) _ settled

theorem tellsAlike_outline (preset list : Json α) : TellsAlike (outline preset list) := by
  refine .ite ?alone (.ite ((TellsAlike.info _).bind fun _ => (TellsAlike.pure _).bind ?standard)
    ((TellsAlike.lift _).bind ?named))
  case alone => exact (TellsAlike.lift _).bind fun _ => .pure _
  -- Wherever the name of the preset is from, its bones are taken in the same way.
  all_goals
    intro name
    dsimp only
    split
    case h_1 => exact .lift _
    case h_2 => exact (TellsAlike.lift _).bind fun _ => .pure _

theorem tellsAlike_ofRecipe (preset list : Json α) (epsilon : α) :
    TellsAlike (ofRecipe preset list epsilon) :=
  (tellsAlike_outline preset list).bind fun given =>
    tellsAlike_assemble given.base given.entries epsilon

end Skeleton

/-! ### Bridges -/

namespace Bridge

theorem tellsAlike_linkStart (positions : NameMap Nat) (l : Linking α) (i : Nat) :
    TellsAlike (linkStart positions l i) := by
  unfold linkStart
  split
  case h_1 => exact .pure l
  case h_2 child _ =>
    refine .ite ?_ (.pure l)
    split
    case h_1 => exact .pure _
    case h_2 => exact (TellsAlike.warn child.bone noParent).bind fun _ => .pure _

theorem tellsAlike_linkEnd (l : Linking α) (i : Nat) : TellsAlike (linkEnd l i) := by
  unfold linkEnd
  split
  case h_1 => exact .pure l
  case h_2 mesh _ =>
    exact .ite ((TellsAlike.warn mesh.bone noChild).bind fun _ => .pure _) (.pure l)

theorem tellsAlike_link (meshes : List (BoneMesh α)) : TellsAlike (link meshes) :=
  (TellsAlike.foldlM (tellsAlike_linkStart _) _ _).bind fun _ =>
    (TellsAlike.foldlM tellsAlike_linkEnd _ _).bind fun _ => .pure _

end Bridge

/-! ### Characters -/

namespace Character

theorem tellsAlike_dropBridges (bone : String) (mesh : Blueprint.BoneMesh α) :
    TellsAlike (dropBridges bone mesh) := by
  refine .ite ?_ (.pure mesh)
  refine .guarded (.warn bone partStart) ?_
  exact .guarded (.warn bone partEnd) (.pure _)

variable [Scalar α]

theorem tellsAlike_resolveMesh (context : Context α) (bone : String) (definition : Json α) :
    TellsAlike (resolveMesh context bone definition) := by
  refine (TellsAlike.lift _).bind fun read => (tellsAlike_dropBridges bone read).bind fun mesh => ?_
  split
  case h_1 => exact (TellsAlike.lift _).bind fun _ => .pure _
  case h_2 =>
    refine .guarded (.lift _) ?_
    exact (TellsAlike.warn bone notFound).bind fun _ => .pure none

theorem tellsAlike_resolveOn (skeleton : Skeleton α) (settings : Settings α) (recipe : Json α) :
    TellsAlike (resolveOn skeleton settings recipe) := by
  refine TellsAlike.warnings.bind fun earlier => (TellsAlike.lift _).bind fun _ => ?_
  refine (TellsAlike.lift _).bind fun definitions => .guarded (.lift _) ?_
  refine (TellsAlike.lift _).bind fun shapes => (TellsAlike.lift _).bind fun slots => ?_
  refine (TellsAlike.lift _).bind fun boolShapes => ?_
  refine (TellsAlike.filterMapM (fun entry => ?_) _).bind fun placed => ?_
  · exact tellsAlike_resolveMesh _ entry.1 entry.2
  · refine (Bridge.tellsAlike_link placed).bind fun linked => ?_
    refine TellsAlike.warnings.bind fun told => ?_
    exact (TellsAlike.info _).bind fun _ => .pure _

/-- A recipe tells alike even if it is refused in the end. -/
theorem tellsAlike_resolve (settings : Settings α) (recipe : Json α) :
    TellsAlike (resolve settings recipe) := by
  refine TellsAlike.warnings.bind fun earlier => (TellsAlike.lift _).bind fun _ => ?_
  refine (Skeleton.tellsAlike_ofRecipe _ _ _).bind fun skeleton => ?_
  refine TellsAlike.warnings.bind fun told => ?_
  exact (tellsAlike_resolveOn skeleton settings recipe).bind fun resolved => .pure _

variable {skeleton : Skeleton α} {settings : Settings α} {recipe : Json α}
  {character : Character α} {journal journal' : Journal}

/-- A character that is resolved on a skeleton comes with just the warnings that are told. -/
theorem growsTo_of_returns_resolveOn
    (h : Returns (resolveOn skeleton settings recipe) journal character journal') :
    journal.GrowsTo journal' character.warnings := by
  obtain ⟨warnings, htold⟩ := (tellsAlike_resolveOn skeleton settings recipe).grows h
  obtain ⟨_, _, _, _, _, -, -, rfl⟩ := parts_of_returns_resolveOn h
  rwa [htold.drop_warnings]

/-- The lines that warn while a recipe is resolved are those of the warnings that its
character comes with, each once and in their order. First are those about the skeleton, then
those about what is resolved on it. -/
theorem warningLines_of_returns_resolve
    (h : Returns (resolve settings recipe) journal character journal') :
    ∃ skeleton early middle resolved,
      Returns (Skeleton.ofRecipe (recipe.member "skeleton_preset") (recipe.member "skeleton")
        settings.degenerateEpsilon) journal skeleton middle ∧
      Returns (resolveOn skeleton settings recipe) middle resolved journal' ∧
      journal.GrowsTo middle early ∧ middle.GrowsTo journal' resolved.warnings ∧
      character = { resolved with warnings := early ++ resolved.warnings } ∧
      ∃ lines, journal'.lines = journal.lines ++ lines ∧
        warningLines lines = character.warnings.map fun warning =>
          ⟨.warn, "bone '" ++ warning.bone ++ "': " ++ warning.reason⟩ := by
  obtain ⟨skeleton, resolved, middle, hskeleton, hresolved, rfl⟩ := parts_of_returns_resolve h
  obtain ⟨early, hearly⟩ := (Skeleton.tellsAlike_ofRecipe _ _ _).grows hskeleton
  have hlate := growsTo_of_returns_resolveOn hresolved
  rw [hearly.drop_warnings]
  exact ⟨skeleton, early, middle, resolved, hskeleton, hresolved, hearly, hlate, rfl,
    (hearly.trans hlate).lines⟩

/-- A puppet whose arm hangs on a bone that is not there, with an ear that mirrors none, a
mesh for a bone that it lacks, a hand whose part has no open ends, and an arm that no
other mesh meets. -/
def puppet : Json Float :=
  let point (x y z : Int) : Json Float := .arr [.int x, .int y, .int z]
  let cube : Json Float :=
    .obj [("primitive", .str "cube"), ("dimensions", point 1 1 2)]
  .obj [
    ("skeleton", .arr [
      .obj [("bone", .str "arm"), ("head", point 0 0 0), ("tail", point 0 0 4),
        ("parent", .str "trunk")],
      .obj [("bone", .str "ear_r"), ("mirror", .str "ear_l")],
      .obj [("bone", .str "hand"), ("head", point 0 0 4), ("tail", point 0 0 5),
        ("parent", .str "arm")]]),
    ("bone_meshes", .obj [
      ("arm", .obj [("connect_end", .str "bridge")]),
      ("hand", .obj [("connect_start", .str "bridge"), ("part", .obj [("base", cube)])]),
      ("tail", .obj [])])]

theorem warningLines_of_returns_resolve_puppet : ∃ character journal,
    Returns (resolve Settings.standard puppet) Journal.empty character journal ∧
      warningLines journal.lines = [
        ⟨.warn, "bone 'arm': parent 'trunk' not found"⟩,
        ⟨.warn, "bone 'ear_r': mirror source 'ear_l' not found"⟩,
        ⟨.warn, "bone 'hand': connect_start='bridge' is ignored when part is set"⟩,
        ⟨.warn, "bone 'tail': bone not found in skeleton; mesh skipped"⟩,
        ⟨.warn, "bone 'arm': connect_end='bridge' has no child mesh bridging its start; " ++
          "kept segmented"⟩] ∧
      ∃ skeleton early middle resolved,
        Returns (Skeleton.ofRecipe (puppet.member "skeleton_preset") (puppet.member "skeleton")
          Settings.standard.degenerateEpsilon) Journal.empty skeleton middle ∧
        Returns (resolveOn skeleton Settings.standard puppet) middle resolved journal ∧
        early = [⟨"arm", "parent 'trunk' not found"⟩,
          ⟨"ear_r", "mirror source 'ear_l' not found"⟩] ∧
        Journal.empty.GrowsTo middle early ∧ middle.GrowsTo journal resolved.warnings ∧
        character = { resolved with warnings := early ++ resolved.warnings } := by
  have hseen : seen (resolve Settings.standard puppet) Journal.empty (fun character _ =>
      character.warnings) =
      some [⟨"arm", "parent 'trunk' not found"⟩, ⟨"ear_r", "mirror source 'ear_l' not found"⟩,
        ⟨"hand", partStart⟩, ⟨"tail", notFound⟩, ⟨"arm", Bridge.noChild⟩] := by
    decide +kernel
  have hseenEarly : seen (Skeleton.ofRecipe (puppet.member "skeleton_preset")
      (puppet.member "skeleton") Settings.standard.degenerateEpsilon) Journal.empty
      (fun _ middle => middle.warnings) =
      some [⟨"arm", "parent 'trunk' not found"⟩, ⟨"ear_r", "mirror source 'ear_l' not found"⟩] := by
    decide +kernel
  obtain ⟨character, journal, hreturns, hwarnings⟩ := exists_returns_of_seen hseen
  obtain ⟨skeleton, middle, hskeleton, hmiddle⟩ := exists_returns_of_seen hseenEarly
  obtain ⟨_, early, _, resolved, hskeleton', hresolved, hearly, hlate, hcharacter, lines, hlines,
    hwarn⟩ := warningLines_of_returns_resolve hreturns
  obtain ⟨rfl, rfl⟩ := hskeleton.unique hskeleton'
  rw [Journal.empty, List.nil_append] at hlines
  refine ⟨character, journal, hreturns, ?_, skeleton, early, middle, resolved, hskeleton, hresolved,
    hearly.warnings.symm.trans hmiddle, hearly, hlate, hcharacter⟩
  rw [hlines, hwarn, hwarnings]
  decide

end Character

end Mannequin
