import Mathlib.Algebra.BigOperators.Group.List.Basic
import Mannequin.Proofs.Renaming.Plan

/-!
# Merging groups with weights

A group holds a weight, and weights can be added. Merging a group into another
one adds its weight there and drops it. A mapping is carried out by merges and
then by renaming steps; at the end every group holds what it had, unless it moved
away, and what all groups had that moved to it.
-/

namespace Mannequin.Renaming

variable {M : Type} [AddCommMonoid M]

namespace Merge

/-- The weights after a merge: that of the source is added to the target, which
is made if it is not there, and the source is dropped. -/
def pour (step : Merge) (held : NameMap M) : NameMap M :=
  match held.get? step.source with
  | some weight =>
    let rest := held.erase step.source
    rest.insert step.target ((rest.get? step.target).getD 0 + weight)
  | none => held

/-- The weights after a list of merges. -/
def pourAll (steps : List Merge) (held : NameMap M) : NameMap M :=
  steps.foldl (fun held step => step.pour held) held

/-- Every merge finds its source when its turn comes. -/
def AllFound : List Merge → NameMap M → Prop
  | [], _ => True
  | step :: rest, held => step.source ∈ held ∧ AllFound rest (step.pour held)

@[simp] theorem pourAll_nil (held : NameMap M) : pourAll [] held = held := rfl

@[simp] theorem pourAll_cons (step : Merge) (rest : List Merge) (held : NameMap M) :
    pourAll (step :: rest) held = pourAll rest (step.pour held) := rfl

end Merge

/-- The weight of a group; a group that is not there has none. -/
def weightOf (held : NameMap M) (name : String) : M := (held.get? name).getD 0

theorem weightOf_of_not_mem {held : NameMap M} {name : String} (h : name ∉ held) :
    weightOf held name = 0 := by
  rw [weightOf, NameMap.not_mem_iff.mp h, Option.getD_none]

theorem get?_eq_some_weightOf {held : NameMap M} {name : String} (h : name ∈ held) :
    held.get? name = some (weightOf held name) := by
  obtain ⟨weight, hweight⟩ := NameMap.mem_iff_exists.mp h
  rw [weightOf, hweight, Option.getD_some]

namespace Merge

theorem get?_pour {step : Merge} {held : NameMap M} (hsource : step.source ∈ held)
    (hne : step.source ≠ step.target) (name : String) :
    (step.pour held).get? name =
      if name = step.target then some (weightOf held name + weightOf held step.source)
      else if name = step.source then none
      else held.get? name := by
  rw [pour, get?_eq_some_weightOf hsource]
  simp only [NameMap.get?_insert, NameMap.get?_erase, if_neg (Ne.symm hne)]
  by_cases h : name = step.target
  · rw [if_pos h, if_pos h, h, weightOf, weightOf]
  · rw [if_neg h, if_neg h]

theorem mem_pour {step : Merge} {held : NameMap M} (hsource : step.source ∈ held)
    (hne : step.source ≠ step.target) {name : String} :
    name ∈ step.pour held ↔ name = step.target ∨ name ≠ step.source ∧ name ∈ held := by
  rw [NameMap.mem_def, get?_pour hsource hne]
  by_cases htarget : name = step.target
  · simp [htarget]
  · by_cases hname : name = step.source
    · simp [hname, hne]
    · simp [htarget, hname, NameMap.mem_def]

theorem weightOf_pour {step : Merge} {held : NameMap M} (hsource : step.source ∈ held)
    (hne : step.source ≠ step.target) {name : String} (hname : name ≠ step.source) :
    weightOf (step.pour held) name =
      weightOf held name + if step.target = name then weightOf held step.source else 0 := by
  rw [weightOf, get?_pour hsource hne, if_neg hname]
  by_cases h : name = step.target
  · rw [if_pos h, if_pos h.symm, Option.getD_some]
  · rw [if_neg h, if_neg (Ne.symm h), add_zero, weightOf]

theorem apply_domain {step : Merge} {held : NameMap M}
    (hsource : step.source ∈ held) (hne : step.source ≠ step.target) :
    Merge.apply held.domain step = (step.pour held).domain := by
  apply NameSet.ext_mem
  intro name
  rw [Merge.apply, NameSet.mem_add, NameMap.mem_erase, NameMap.mem_domain, NameMap.mem_domain,
    mem_pour hsource hne]

/-- Merges that can be made in any order: their sources are there and differ, and
none of them is the target of a merge. -/
structure Independent (steps : List Merge) (held : NameMap M) : Prop where
  present : ∀ step ∈ steps, step.source ∈ held
  distinct : (steps.map Merge.source).Nodup
  apart : ∀ step ∈ steps, ∀ other ∈ steps, step.source ≠ other.target

namespace Independent

variable {step : Merge} {rest steps : List Merge} {held : NameMap M} {name : String}

omit [AddCommMonoid M] in
theorem head_ne (h : Independent (step :: rest) held) : step.source ≠ step.target :=
  h.apart step List.mem_cons_self step List.mem_cons_self

omit [AddCommMonoid M] in
theorem head_present (h : Independent (step :: rest) held) : step.source ∈ held :=
  h.present step List.mem_cons_self

omit [AddCommMonoid M] in
theorem source_ne_head (h : Independent (step :: rest) held) {other : Merge}
    (hother : other ∈ rest) : other.source ≠ step.source := fun heq =>
  (List.nodup_cons.mp h.distinct).1 (List.mem_map.mpr ⟨other, hother, heq⟩)

theorem tail (h : Independent (step :: rest) held) : Independent rest (step.pour held) := by
  refine ⟨?_, (List.nodup_cons.mp h.distinct).2, ?_⟩
  · intro other hother
    have hmem := h.present other (List.mem_cons_of_mem _ hother)
    exact (mem_pour h.head_present h.head_ne).mpr (.inr ⟨h.source_ne_head hother, hmem⟩)
  · intro first hfirst second hsecond
    exact h.apart first (List.mem_cons_of_mem _ hfirst) second (List.mem_cons_of_mem _ hsecond)

theorem allFound (h : Independent steps held) : AllFound steps held := by
  induction steps generalizing held with
  | nil => trivial
  | cons step rest ih => exact ⟨h.head_present, ih h.tail⟩

theorem foldl_apply_domain (h : Independent steps held) :
    steps.foldl Merge.apply held.domain = (pourAll steps held).domain := by
  induction steps generalizing held with
  | nil => rfl
  | cons step rest ih =>
      rw [List.foldl_cons, apply_domain h.head_present h.head_ne, ih h.tail, pourAll_cons]

/-- The groups after all merges: the sources are gone, the targets are there. -/
theorem mem_pourAll (h : Independent steps held) :
    name ∈ pourAll steps held ↔
      (∃ step ∈ steps, step.target = name) ∨ name ∈ held ∧ ∀ step ∈ steps, step.source ≠ name := by
  induction steps generalizing held with
  | nil => simp
  | cons step rest ih =>
      rw [pourAll_cons, ih h.tail, mem_pour h.head_present h.head_ne]
      have happart : name = step.target → ∀ other ∈ rest, other.source ≠ name := by
        rintro rfl other hother
        exact h.apart other (List.mem_cons_of_mem _ hother) step List.mem_cons_self
      simp only [List.mem_cons, exists_eq_or_imp, forall_eq_or_imp]
      constructor
      · rintro (htarget | ⟨heq | ⟨hne, hmem⟩, hrest⟩)
        · exact .inl (.inr htarget)
        · exact .inl (.inl heq.symm)
        · exact .inr ⟨hmem, Ne.symm hne, hrest⟩
      · rintro ((heq | htarget) | ⟨hmem, hne, hrest⟩)
        · exact .inr ⟨.inl heq.symm, happart heq.symm⟩
        · exact .inl htarget
        · exact .inr ⟨.inr ⟨Ne.symm hne, hmem⟩, hrest⟩

/-- A group that is no source ends with its own weight and those of all sources
that are merged into it. -/
theorem weightOf_pourAll (h : Independent steps held)
    (hname : ∀ step ∈ steps, step.source ≠ name) :
    weightOf (pourAll steps held) name = weightOf held name +
      ((steps.filter fun step => step.target = name).map fun step =>
        weightOf held step.source).sum := by
  induction steps generalizing held with
  | nil => simp
  | cons step rest ih =>
      have hhead := hname step List.mem_cons_self
      have hrest := ih h.tail fun other hother => hname other (List.mem_cons_of_mem _ hother)
      -- the sources to come have their weights still
      have hsources : ((rest.filter fun other => other.target = name).map fun other =>
          weightOf (step.pour held) other.source) =
          (rest.filter fun other => other.target = name).map fun other =>
            weightOf held other.source := by
        refine List.map_congr_left fun other hother => ?_
        have hmem := (List.mem_filter.mp hother).1
        have htarget : step.target ≠ other.source :=
          Ne.symm (h.apart other (List.mem_cons_of_mem _ hmem) step List.mem_cons_self)
        rw [weightOf_pour h.head_present h.head_ne (h.source_ne_head hmem), if_neg htarget,
          add_zero]
      rw [pourAll_cons, hrest, hsources,
        weightOf_pour h.head_present h.head_ne (Ne.symm hhead), add_assoc]
      by_cases htarget : step.target = name
      · rw [if_pos htarget, List.filter_cons_of_pos (by simpa using htarget), List.map_cons,
          List.sum_cons]
      · rw [if_neg htarget, List.filter_cons_of_neg (by simpa using htarget), zero_add]

/-- A group that is no source and no target keeps what it holds. -/
theorem get?_pourAll_of_apart (h : Independent steps held)
    (hsource : ∀ step ∈ steps, step.source ≠ name) (htarget : ∀ step ∈ steps, step.target ≠ name) :
    (pourAll steps held).get? name = held.get? name := by
  have hnone : (steps.filter fun step => step.target = name) = [] := by
    rw [List.filter_eq_nil_iff]
    intro step hstep heq
    exact htarget step hstep (of_decide_eq_true heq)
  have hweight := h.weightOf_pourAll hsource
  rw [hnone, List.map_nil, List.sum_nil, add_zero] at hweight
  have hmem : name ∈ pourAll steps held ↔ name ∈ held := by
    rw [h.mem_pourAll]
    constructor
    · rintro (⟨step, hstep, heq⟩ | ⟨hheld, _⟩)
      · exact absurd heq (htarget step hstep)
      · exact hheld
    · exact fun hheld => .inr ⟨hheld, hsource⟩
  by_cases hheld : name ∈ held
  · rw [get?_eq_some_weightOf hheld, get?_eq_some_weightOf (hmem.mpr hheld), hweight]
  · rw [NameMap.not_mem_iff.mp hheld, NameMap.not_mem_iff.mp (mt hmem.mp hheld)]

end Independent

end Merge

end Mannequin.Renaming
