import Mannequin.Build.Groups
import Mannequin.Kernel.Simulated
import Mannequin.Proofs.Kernel.Building
import Mannequin.Proofs.Renaming.Grouping

/-!
# Groups on a kernel gather their weights

The exchanges of a mapping that is carried out on a mesh are those of its plan.
Read as changes of weighted groups, each finds the groups that it needs when its
turn comes, and together they gather the weights as the mapping says.
-/

namespace Mannequin

open Renaming

variable {α : Type} {M : Type} [AddCommMonoid M]

namespace Exchange

/-- The weights of the groups after an exchange. -/
def weigh (held : NameMap M) (exchange : Exchange α) : NameMap M :=
  match exchange.call, exchange.reply with
  | .edit (.renameGroup _ source dest), .ok _ => Step.carry ⟨source, dest⟩ held
  | .edit (.mergeGroup _ source dest), .ok _ => Merge.pour ⟨source, dest⟩ held
  | _, _ => held

/-- A merge finds its source. A renaming finds its source, and its new name is free. -/
def Finds (held : NameMap M) (exchange : Exchange α) : Prop :=
  match exchange.call with
  | .edit (.renameGroup _ source dest) => source ∈ held ∧ dest ∉ held
  | .edit (.mergeGroup _ source _) => source ∈ held
  | _ => True

/-- Every exchange finds its groups when its turn comes. -/
def AllFind : List (Exchange α) → NameMap M → Prop
  | [], _ => True
  | exchange :: rest, held => exchange.Finds held ∧ AllFind rest (exchange.weigh held)

end Exchange

namespace Renaming

/-- The exchange of a merge on a mesh. -/
def Merge.exchange (mesh : Handle) (step : Merge) : Exchange α :=
  ⟨.edit (.mergeGroup mesh step.source step.target), .ok none⟩

/-- The exchange of a renaming step on a mesh. -/
def Step.exchange (mesh : Handle) (step : Step) : Exchange α :=
  ⟨.edit (.renameGroup mesh step.source step.target), .ok none⟩

/-- The exchanges of a plan on a mesh. -/
def GroupPlan.exchanges (mesh : Handle) (plan : GroupPlan) : List (Exchange α) :=
  plan.merges.map (Merge.exchange mesh) ++ plan.renames.map (Step.exchange mesh)

end Renaming

namespace Build

variable {kernel : Kernel α} {mesh : Handle} {mapping : NameMap String} {existing : NameSet}
  {settings : Settings α} {plan : GroupPlan} {s s' : Session α}

/-- Work on groups that succeeds has made the exchanges of its plan. -/
theorem exchanges_vertexGroups (h : Returns
    (vertexGroups kernel mesh mapping existing settings) s plan s') :
    planGroups mapping existing settings.tempPrefix = .ok plan ∧
      s'.exchanges = s.exchanges ++ plan.exchanges mesh := by
  rw [vertexGroups] at h
  cases hplan : planGroups mapping existing settings.tempPrefix with
  | error fault =>
      rw [hplan] at h
      exact absurd h not_returns_throw
  | ok planned =>
      simp only [hplan, returns_bind] at h
      obtain ⟨_, merged, hmerges, _, renamed, hrenames, hlast⟩ := h
      have hfirst := Building.exchanges_forM (Merge.exchange mesh)
        (fun _ _ _ hedit => (Building.returns_edit.mp hedit).2) hmerges
      have hsecond := Building.exchanges_forM (Step.exchange mesh)
        (fun _ _ _ hedit => (Building.returns_edit.mp hedit).2) hrenames
      have hend : planned = plan ∧ renamed.exchanges = s'.exchanges := by
        split at hlast
        · obtain ⟨_, told, htell, hpure⟩ := returns_bind.mp hlast
          obtain ⟨rfl, rfl⟩ := returns_pure.mp hpure
          rw [Building.returns_tell.mp htell]
          exact ⟨rfl, rfl⟩
        · obtain ⟨rfl, rfl⟩ := returns_pure.mp hlast
          exact ⟨rfl, rfl⟩
      obtain ⟨rfl, hsame⟩ := hend
      rw [← hsame, hsecond, hfirst, List.append_assoc]
      exact ⟨rfl, rfl⟩

/-- A plan that is made can be carried out on a kernel that refuses no change. -/
theorem exists_returns_vertexGroups (mesh : Handle)
    (hkernel : ∀ exchanges call, kernel.edit exchanges call = .ok ())
    (hplan : planGroups mapping existing settings.tempPrefix = .ok plan) (s : Session α) :
    ∃ s', Returns (vertexGroups kernel mesh mapping existing settings) s plan s' := by
  have hedit : ∀ what call s, ∃ s', Returns (Building.edit kernel what call) s () s' :=
    fun what call s => ⟨_, Building.returns_edit.mpr ⟨hkernel s.exchanges call, rfl⟩⟩
  obtain ⟨merged, hmerges⟩ := exists_returns_forM (f := mergeGroup kernel mesh)
    (fun _ _ => hedit _ _ _) plan.merges s
  obtain ⟨renamed, hrenames⟩ := exists_returns_forM (f := renameGroup kernel mesh)
    (fun _ _ => hedit _ _ _) plan.renames merged
  rw [vertexGroups, hplan]
  simp only [returns_bind]
  split
  · exact ⟨_, (), merged, hmerges, (), renamed, hrenames,
      returns_bind.mpr ⟨(), _, Building.returns_tell.mpr rfl, rfl⟩⟩
  · exact ⟨renamed, (), merged, hmerges, (), renamed, hrenames, rfl⟩

end Build

/-! ### Exchanges as changes of weighted groups -/

namespace Exchange

variable {l l' : List (Exchange α)} {held : NameMap M} {mesh : Handle}

theorem allFind_append : AllFind (l ++ l') held ↔
    AllFind l held ∧ AllFind l' (l.foldl weigh held) := by
  induction l generalizing held with
  | nil => simp [AllFind]
  | cons exchange rest ih => rw [List.cons_append, AllFind, AllFind, ih, and_assoc,
      List.foldl_cons]

theorem foldl_weigh_merges (steps : List Merge) (held : NameMap M) :
    (steps.map (Merge.exchange (α := α) mesh)).foldl weigh held = Merge.pourAll steps held := by
  rw [List.foldl_map]
  rfl

theorem foldl_weigh_renames (steps : List Step) (held : NameMap M) :
    (steps.map (Step.exchange (α := α) mesh)).foldl weigh held = Step.carryAll steps held := by
  rw [List.foldl_map]
  rfl

theorem allFind_merges {steps : List Merge} (h : Merge.AllFound steps held) :
    AllFind (steps.map (Merge.exchange (α := α) mesh)) held := by
  induction steps generalizing held with
  | nil => trivial
  | cons step rest ih => exact ⟨h.1, ih h.2⟩

theorem allFind_renames {steps : List Step} (h : Step.AllSafe steps held) :
    AllFind (steps.map (Step.exchange (α := α) mesh)) held := by
  induction steps generalizing held with
  | nil => trivial
  | cons step rest ih => exact ⟨⟨h.1.present, h.1.free⟩, ih h.2⟩

end Exchange

/-- Giving the groups of a mesh the names of a mapping makes the exchanges of a plan.
Each finds its groups when its turn comes. In the end every group is there that the
mapping leaves or makes, with its own weight unless that moved away and those of all
groups that moved to it. -/
theorem Build.vertexGroups_gathers {kernel : Kernel α} {mesh : Handle}
    {mapping : NameMap String} {held : NameMap M} {settings : Settings α} {plan : GroupPlan}
    {s s' : Session α} (h : Returns
      (vertexGroups kernel mesh mapping held.domain settings) s plan s') :
    s'.exchanges = s.exchanges ++ plan.exchanges mesh ∧
      Exchange.AllFind (plan.exchanges (α := α) mesh) held ∧
      Gathers mapping held ((plan.exchanges (α := α) mesh).foldl Exchange.weigh held) := by
  obtain ⟨hplan, hexchanges⟩ := exchanges_vertexGroups h
  obtain ⟨hfound, hsafe, hgathers⟩ := planGroups_gathers hplan
  refine ⟨hexchanges, ?_, ?_⟩
  · rw [GroupPlan.exchanges, Exchange.allFind_append, Exchange.foldl_weigh_merges]
    exact ⟨Exchange.allFind_merges hfound, Exchange.allFind_renames hsafe⟩
  · rw [GroupPlan.exchanges, List.foldl_append, Exchange.foldl_weigh_merges,
      Exchange.foldl_weigh_renames]
    exact hgathers

/-- Two groups are merged into one that is there, a third takes the name that one of
them leaves, and two others trade places. -/
theorem Build.vertexGroups_gathers_mixed :
    let mapping := NameMap.ofList
      [("A", "C"), ("B", "C"), ("C", "C"), ("D", "A"), ("E", "F"), ("F", "E")]
    let held := NameMap.ofList [("A", 1), ("B", 2), ("C", 4), ("D", 8), ("E", 16), ("F", 32)]
    let settings : Settings ℕ := ⟨"t_", 0, 1, false, 8⟩
    ∃ plan s', Returns
        (vertexGroups (Simulated.kernel ⟨false, none⟩) 1 mapping held.domain settings)
        Session.empty plan s' ∧
      (s'.exchanges.foldl Exchange.weigh held).get? "C" = some 7 ∧
      (s'.exchanges.foldl Exchange.weigh held).get? "A" = some 8 ∧
      "B" ∉ s'.exchanges.foldl Exchange.weigh held := by
  intro mapping held settings
  have hkernel : ∀ exchanges call,
      (Simulated.kernel ⟨false, none⟩ : Kernel ℕ).edit exchanges call = .ok () :=
    fun _ _ => rfl
  have hplan : planGroups mapping held.domain settings.tempPrefix = .ok
      ⟨[⟨"A", "C"⟩, ⟨"B", "C"⟩],
        [⟨"E", "t_E"⟩, ⟨"F", "t_F"⟩, ⟨"D", "A"⟩, ⟨"t_E", "F"⟩, ⟨"t_F", "E"⟩]⟩ := by
    decide +kernel
  obtain ⟨s', hreturns⟩ := exists_returns_vertexGroups 1 hkernel hplan Session.empty
  obtain ⟨hexchanges, -, hgathers⟩ := vertexGroups_gathers hreturns
  rw [Session.empty, List.nil_append] at hexchanges
  refine ⟨_, s', hreturns, ?_, ?_, ?_⟩
  · rw [hexchanges, hgathers.weight "C" ((hgathers.present "C").mpr (.inl (by decide +kernel)))]
    decide +kernel
  · have hsource : mapping.get? "D" = some "A" := by decide +kernel
    rw [hexchanges, hgathers.weight "A"
      ((hgathers.present "A").mpr (.inr ⟨"D", hsource, by decide⟩))]
    decide +kernel
  · have hnone : sourcesOf mapping "B" = [] := by decide +kernel
    rw [hexchanges, hgathers.present]
    rintro (⟨-, hstays⟩ | ⟨source, hsource⟩)
    · exact hstays (by decide +kernel)
    · exact List.ne_nil_of_mem (mem_sourcesOf.mpr hsource) hnone

end Mannequin
