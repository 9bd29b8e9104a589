import Mannequin.Character

/-!
# Opposite names

A name that ends in a marker, or has markers of one letter inside that share no underscore, tells
a side. Its opposite tells the other side by markers at the same places, so the two names are
opposites of each other. Only a name without any marker is its own opposite.

All of this is read off the places of the letters: replacing the markers of one letter changes
the letters of these markers and nothing else, the underscores least of all.
-/

namespace Mannequin.Side

variable {c d e : Char} {name : List Char} {i : Nat}

/-- The letters that tell a side. -/
def telling : List Char := ['l', 'L', 'r', 'R']

/-- A name ends in the marker of a letter. -/
def EndsIn (c : Char) (name : List Char) : Prop := ['_', c] <:+ name

/-- The marker of a letter inside a name begins at a place. -/
def InnerAt (c : Char) (name : List Char) (i : Nat) : Prop := ['_', c, '_'] <+: name.drop i

/-- A marker of a letter stands inside a name. -/
def Inside (c : Char) (name : List Char) : Prop := ∃ i, InnerAt c name i

/-- No two markers of a letter share an underscore. -/
def Apart (c : Char) (name : List Char) : Prop :=
  ∀ i j, InnerAt c name i → InnerAt c name j → i < j → i + 3 ≤ j

/-- A name with markers of one letter inside, apart from each other, and with none at its end. -/
structure MarkedInside (c : Char) (name : List Char) : Prop where
  noEnd : ∀ e ∈ telling, ¬ EndsIn e name
  inside : Inside c name
  only : ∀ e ∈ telling, Inside e name → e = c
  apart : Apart c name

/-- A name that tells one side. -/
def Sided (name : List Char) : Prop :=
  ∃ c ∈ telling, EndsIn c name ∨ MarkedInside c name

/-- A name that tells no side. -/
def Unmarked (name : List Char) : Prop :=
  ∀ c ∈ telling, ¬ EndsIn c name ∧ ¬ Inside c name

/-! ### Letters -/

theorem opposite?_eq_some_iff : opposite? c = some d ↔ (c, d) ∈ letters := by
  constructor
  · intro h
    obtain ⟨before, after, heq, -⟩ := List.lookup_eq_some_iff.mp h
    rw [heq]
    simp
  · intro h
    have hall : ∀ p ∈ letters, opposite? p.1 = some p.2 := by decide
    exact hall (c, d) h

theorem mem_telling_iff : c ∈ telling ↔ ∃ d, opposite? c = some d := by
  have hletters : telling = letters.map Prod.fst := rfl
  simp only [hletters, List.mem_map, Prod.exists, exists_and_right, exists_eq_right,
    opposite?_eq_some_iff]

/-- What opposite letters have to do with each other. -/
structure Opposed (c d : Char) : Prop where
  back : opposite? d = some c
  ne : c ≠ d
  fst_ne : c ≠ '_'
  snd_ne : d ≠ '_'

theorem opposed_of_opposite? (h : opposite? c = some d) : Opposed c d := by
  have hall : ∀ p ∈ letters, opposite? p.2 = some p.1 ∧ p.1 ≠ p.2 ∧ p.1 ≠ '_' ∧ p.2 ≠ '_' := by
    decide
  obtain ⟨hback, hne, hfst, hsnd⟩ := hall (c, d) (opposite?_eq_some_iff.mp h)
  exact ⟨hback, hne, hfst, hsnd⟩

/-! ### Places of markers -/

theorem innerAt_iff :
    InnerAt c name i ↔ name[i]? = some '_' ∧ name[i + 1]? = some c ∧ name[i + 2]? = some '_' := by
  rw [InnerAt, List.prefix_iff_getElem?]
  simp only [List.getElem?_drop]
  constructor
  · intro h
    exact ⟨h 0 (by simp), h 1 (by simp), h 2 (by simp)⟩
  · rintro ⟨hbefore, hletter, hafter⟩ k hk
    match k, hk with
    | 0, _ => exact hbefore
    | 1, _ => exact hletter
    | 2, _ => exact hafter

theorem endsIn_iff : EndsIn c name ↔
    ∃ i, name[i]? = some '_' ∧ name[i + 1]? = some c ∧ name[i + 2]? = none := by
  constructor
  · rintro ⟨stem, rfl⟩
    exact ⟨stem.length, by simp⟩
  · rintro ⟨i, hbefore, hletter, hend⟩
    have hdrop : name.drop i = ['_', c] := by
      apply List.ext_getElem?
      rintro (_ | _ | k) <;> rw [List.getElem?_drop]
      · exact hbefore
      · exact hletter
      · have hlength := List.getElem?_eq_none_iff.mp hend
        rw [List.getElem?_eq_none (by omega)]
        rfl
    rw [EndsIn, ← hdrop]
    exact List.drop_suffix i name

theorem innerAt_zero {x y z : Char} {rest : List Char} :
    InnerAt c (x :: y :: z :: rest) 0 ↔ x = '_' ∧ y = c ∧ z = '_' := by
  simp [innerAt_iff]

theorem InnerAt.lt_length (h : InnerAt c name i) : i + 2 < name.length :=
  (List.getElem?_eq_some_iff.mp (innerAt_iff.mp h).2.2).1

theorem inside_cons {x : Char} :
    Inside c (x :: name) ↔ InnerAt c (x :: name) 0 ∨ Inside c name := by
  constructor
  · rintro ⟨_ | i, h⟩
    · exact .inl h
    · exact .inr ⟨i, h⟩
  · rintro (h | ⟨i, h⟩)
    · exact ⟨0, h⟩
    · exact ⟨i + 1, h⟩

theorem Apart.tail {x : Char} (h : Apart c (x :: name)) : Apart c name := by
  intro i j hi hj hlt
  have := h (i + 1) (j + 1) hi hj (Nat.succ_lt_succ hlt)
  omega

theorem hasInner_iff : hasInner c name = true ↔ Inside c name := by
  fun_induction hasInner c name with
  | case1 d rest ih =>
    rw [inside_cons, Bool.or_eq_true, ih, decide_eq_true_iff, innerAt_zero]
    simp only [true_and, and_true]
  | case2 x rest hno ih =>
    rw [inside_cons, ih, or_iff_right]
    intro h
    obtain ⟨hbefore, hletter, hafter⟩ := innerAt_iff.mp h
    match rest, hletter, hafter with
    | y :: z :: rest, _, hafter =>
      obtain rfl := Option.some.inj hbefore
      obtain rfl := Option.some.inj hafter
      exact hno y rest rfl rfl
  | case3 => simp [Inside, innerAt_iff]

/-! ### Decisions -/

instance : Decidable (EndsIn c name) := inferInstanceAs (Decidable (_ <:+ _))

instance : Decidable (InnerAt c name i) := inferInstanceAs (Decidable (_ <+: _))

instance : Decidable (Inside c name) := decidable_of_iff _ hasInner_iff

instance : Decidable (Apart c name) :=
  decidable_of_iff
    (∀ i < name.length, ∀ j < name.length, InnerAt c name i → InnerAt c name j → i < j → i + 3 ≤ j)
    ⟨fun h i j hi hj => h i (Nat.lt_of_add_right_lt hi.lt_length) j
      (Nat.lt_of_add_right_lt hj.lt_length) hi hj, fun h i _ j _ => h i j⟩

-- The letters of a list are gone through, not all letters that there are.
instance : Decidable (MarkedInside c name) :=
  let _ : Decidable (∀ e ∈ telling, ¬ EndsIn e name) := List.decidableBAll _ telling
  let _ : Decidable (∀ e ∈ telling, Inside e name → e = c) := List.decidableBAll _ telling
  decidable_of_iff
    ((∀ e ∈ telling, ¬ EndsIn e name) ∧ Inside c name ∧ (∀ e ∈ telling, Inside e name → e = c) ∧
      Apart c name)
    ⟨fun ⟨noEnd, inside, only, apart⟩ => ⟨noEnd, inside, only, apart⟩,
      fun ⟨noEnd, inside, only, apart⟩ => ⟨noEnd, inside, only, apart⟩⟩

instance : Decidable (Sided name) := List.decidableBEx _ telling

/-! ### Replacing the markers inside -/

theorem replaceInner_ne (hcd : c ≠ d) (h : Inside c name) : replaceInner c d name ≠ name := by
  fun_induction replaceInner c d name with
  | case1 x y z rest hmarked ih =>
    obtain ⟨rfl, rfl, rfl⟩ := hmarked
    simp [hcd.symm]
  | case2 x y z rest hnot ih =>
    have hlater := (inside_cons.mp h).resolve_left (mt innerAt_zero.mp hnot)
    simpa using ih hlater
  | case3 short hshort =>
    obtain ⟨i, h⟩ := h
    have hlength := h.lt_length
    match short, hlength with
    | x :: y :: z :: rest, _ => exact absurd rfl (hshort x y z rest)

theorem getElem?_zero_replaceInner : (replaceInner c d name)[0]? = name[0]? := by
  fun_cases replaceInner c d name with
  | case1 x y z rest hmarked =>
    obtain ⟨rfl, -, -⟩ := hmarked
    rfl
  | case2 => rfl
  | case3 => rfl

/-- Exactly the letters of the markers are replaced. -/
theorem getElem?_succ_replaceInner (hc : c ≠ '_') (hapart : Apart c name) (i : Nat) :
    (replaceInner c d name)[i + 1]? = if InnerAt c name i then some d else name[i + 1]? := by
  fun_induction replaceInner c d name generalizing i with
  | case1 x y z rest hmarked ih =>
    have hhere : InnerAt c (x :: y :: z :: rest) 0 := innerAt_zero.mpr hmarked
    obtain ⟨rfl, rfl, rfl⟩ := hmarked
    -- No other marker begins at the letter of this one or at the underscore after it.
    match i with
    | 0 => rw [if_pos hhere]; rfl
    | 1 =>
      rw [if_neg]
      · rfl
      · intro h
        exact hc (Option.some.inj (innerAt_iff.mp h).1)
    | 2 =>
      rw [if_neg]
      · exact getElem?_zero_replaceInner
      · intro h
        exact absurd (hapart 0 2 hhere h (by decide)) (by decide)
    | i + 3 => exact ih hapart.tail.tail.tail i
  | case2 x y z rest hnot ih =>
    match i with
    | 0 =>
      rw [if_neg (mt innerAt_zero.mp hnot)]
      exact getElem?_zero_replaceInner
    | i + 1 => exact ih hapart.tail i
  | case3 short hshort =>
    rw [if_neg]
    intro h
    have hlength := h.lt_length
    match short, hlength with
    | x :: y :: z :: rest, _ => exact hshort x y z rest rfl

section

variable (h : Opposed c d) (hapart : Apart c name)

include h hapart

theorem underscore_replaceInner (i : Nat) :
    (replaceInner c d name)[i]? = some '_' ↔ name[i]? = some '_' := by
  match i with
  | 0 => rw [getElem?_zero_replaceInner]
  | i + 1 =>
    rw [getElem?_succ_replaceInner h.fst_ne hapart]
    split
    case isTrue hmarked =>
      rw [(innerAt_iff.mp hmarked).2.1, Option.some.injEq, Option.some.injEq]
      exact iff_of_false h.snd_ne h.fst_ne
    case isFalse => rfl

theorem innerAt_replaceInner (i : Nat) : InnerAt e (replaceInner c d name) i ↔
    if InnerAt c name i then d = e else InnerAt e name i := by
  rw [innerAt_iff, underscore_replaceInner h hapart, underscore_replaceInner h hapart,
    getElem?_succ_replaceInner h.fst_ne hapart]
  split
  case isTrue hmarked =>
    obtain ⟨hbefore, -, hafter⟩ := innerAt_iff.mp hmarked
    rw [and_iff_right hbefore, and_iff_left hafter, Option.some.injEq]
  case isFalse => exact innerAt_iff.symm

theorem endsIn_replaceInner : EndsIn e (replaceInner c d name) ↔ EndsIn e name := by
  have hlast : ∀ i, ¬ InnerAt c name i → (replaceInner c d name)[i + 1]? = name[i + 1]? := by
    intro i hnot
    rw [getElem?_succ_replaceInner h.fst_ne hapart, if_neg hnot]
  have hend : ∀ i, (replaceInner c d name)[i + 2]? = none ↔ name[i + 2]? = none := by
    intro i
    rw [getElem?_succ_replaceInner h.fst_ne hapart]
    split
    case isTrue hmarked => simp [(innerAt_iff.mp hmarked).2.1]
    case isFalse => rfl
  rw [endsIn_iff, endsIn_iff]
  refine exists_congr fun i => ?_
  rw [underscore_replaceInner h hapart, hend, and_congr_right_iff, and_congr_left_iff]
  intro _ hnone
  rw [hlast i]
  intro hmarked
  cases hnone.symm.trans (innerAt_iff.mp hmarked).2.2

/-- The other way round the old letters come back, if there were no markers of the new one. -/
theorem replaceInner_replaceInner (hother : ¬ Inside d name) :
    replaceInner d c (replaceInner c d name) = name := by
  have hinner : ∀ i, InnerAt d (replaceInner c d name) i ↔ InnerAt c name i := by
    intro i
    rw [innerAt_replaceInner h hapart]
    split
    case isTrue hmarked => exact iff_of_true rfl hmarked
    case isFalse hnot => exact iff_of_false (fun hi => hother ⟨i, hi⟩) hnot
  have hapart' : Apart d (replaceInner c d name) := by
    intro i j hi hj
    exact hapart i j ((hinner i).mp hi) ((hinner j).mp hj)
  apply List.ext_getElem?
  rintro (_ | i)
  · rw [getElem?_zero_replaceInner, getElem?_zero_replaceInner]
  · rw [getElem?_succ_replaceInner h.snd_ne hapart']
    split
    case isTrue hmarked => exact (innerAt_iff.mp ((hinner i).mp hmarked)).2.1.symm
    case isFalse hnot =>
      rw [getElem?_succ_replaceInner h.fst_ne hapart, if_neg (mt (hinner i).mpr hnot)]

end

/-- The markers stay where they are, and all have the new letter. -/
theorem MarkedInside.replaceInner (h : MarkedInside c name) (hopposed : Opposed c d) :
    MarkedInside d (replaceInner c d name) := by
  have hd : d ∈ telling := mem_telling_iff.mpr ⟨c, hopposed.back⟩
  have hinner : ∀ e ∈ telling, ∀ i,
      (InnerAt e (Side.replaceInner c d name) i ↔ InnerAt c name i ∧ d = e) := by
    intro e he i
    rw [innerAt_replaceInner hopposed h.apart]
    split
    case isTrue hmarked => exact (and_iff_right hmarked).symm
    case isFalse hnot =>
      refine iff_of_false (fun hother => hnot ?_) fun hmarked => hnot hmarked.1
      obtain rfl := h.only e he ⟨i, hother⟩
      exact hother
  constructor
  case noEnd =>
    intro e he
    rw [endsIn_replaceInner hopposed h.apart]
    exact h.noEnd e he
  case inside => exact h.inside.imp fun i hi => (hinner d hd i).mpr ⟨hi, rfl⟩
  case only => exact fun e he ⟨i, hi⟩ => ((hinner e he i).mp hi).2.symm
  case apart =>
    intro i j hi hj
    exact h.apart i j ((hinner d hd i).mp hi).1 ((hinner d hd j).mp hj).1

/-! ### Opposite names -/

theorem swapEnd?_append (stem : List Char) (c : Char) :
    swapEnd? (stem ++ ['_', c]) = (opposite? c).map fun d => stem ++ ['_', d] := by
  simp [swapEnd?]

theorem swapEnd?_eq_none (h : ∀ c ∈ telling, ¬ EndsIn c name) : swapEnd? name = none := by
  rw [swapEnd?]
  split
  case h_1 c rest hreverse =>
    have hname : name = rest.reverse ++ ['_', c] := by
      rw [← List.reverse_reverse name, hreverse]
      simp
    cases hopposite : opposite? c with
    | none => rfl
    | some d => exact absurd ⟨_, hname.symm⟩ (h c (mem_telling_iff.mpr ⟨d, hopposite⟩))
  case h_2 => rfl

theorem mirrorChars_append (hd : opposite? c = some d) (stem : List Char) :
    mirrorChars (stem ++ ['_', c]) = stem ++ ['_', d] := by
  rw [mirrorChars, swapEnd?_append, hd]
  rfl

theorem mirrorChars_of_markedInside (h : MarkedInside c name) (hd : opposite? c = some d) :
    mirrorChars name = replaceInner c d name := by
  rw [mirrorChars, swapEnd?_eq_none h.noEnd]
  cases hfind : letters.find? fun p => hasInner p.1 name with
  | none =>
    have hnone := List.find?_eq_none.mp hfind (c, d) (opposite?_eq_some_iff.mp hd)
    exact absurd (hasInner_iff.mpr h.inside) hnone
  | some p =>
    obtain ⟨e, f⟩ := p
    have hf := opposite?_eq_some_iff.mpr (List.mem_of_find?_eq_some hfind)
    have hfound := List.find?_some hfind
    obtain rfl := h.only e (mem_telling_iff.mpr ⟨f, hf⟩) (hasInner_iff.mp hfound)
    obtain rfl := Option.some.inj (hd.symm.trans hf)
    rfl

/-- The opposite of a name that tells a side tells one too, and its own opposite is the name. -/
theorem sided_mirrorChars (h : Sided name) :
    Sided (mirrorChars name) ∧ mirrorChars (mirrorChars name) = name := by
  obtain ⟨c, hc, h⟩ := h
  obtain ⟨d, hd⟩ := mem_telling_iff.mp hc
  have hopposed := opposed_of_opposite? hd
  have hback : d ∈ telling := mem_telling_iff.mpr ⟨c, hopposed.back⟩
  obtain ⟨stem, rfl⟩ | h := h
  · rw [mirrorChars_append hd, mirrorChars_append hopposed.back]
    exact ⟨⟨d, hback, .inl ⟨stem, rfl⟩⟩, rfl⟩
  · have himage := h.replaceInner hopposed
    rw [mirrorChars_of_markedInside h hd, mirrorChars_of_markedInside himage hopposed.back]
    refine ⟨⟨d, hback, .inr himage⟩, ?_⟩
    apply replaceInner_replaceInner hopposed h.apart
    intro hinside
    exact hopposed.ne (h.only d hback hinside).symm

theorem mirrorChars_eq_self_iff : mirrorChars name = name ↔ Unmarked name := by
  by_cases hend : ∃ c ∈ telling, EndsIn c name
  · obtain ⟨c, hc, stem, rfl⟩ := hend
    obtain ⟨d, hd⟩ := mem_telling_iff.mp hc
    rw [mirrorChars_append hd]
    refine iff_of_false ?_ fun h => (h c hc).1 ⟨stem, rfl⟩
    simp [(opposed_of_opposite? hd).ne.symm]
  · have hnoEnd : ∀ c ∈ telling, ¬ EndsIn c name := fun c hc h => hend ⟨c, hc, h⟩
    rw [mirrorChars, swapEnd?_eq_none hnoEnd]
    cases hfind : letters.find? fun p => hasInner p.1 name with
    | none =>
      refine iff_of_true rfl fun c hc => ⟨hnoEnd c hc, fun hinside => ?_⟩
      obtain ⟨d, hd⟩ := mem_telling_iff.mp hc
      have hnone := List.find?_eq_none.mp hfind (c, d) (opposite?_eq_some_iff.mp hd)
      exact hnone (hasInner_iff.mpr hinside)
    | some p =>
      have hd := opposite?_eq_some_iff.mpr (List.mem_of_find?_eq_some hfind)
      have hfound := List.find?_some hfind
      have hinside : Inside p.1 name := hasInner_iff.mp hfound
      refine iff_of_false (replaceInner_ne (opposed_of_opposite? hd).ne hinside) fun h => ?_
      exact (h p.1 (mem_telling_iff.mpr ⟨p.2, hd⟩)).2 hinside

theorem Sided.not_unmarked (h : Sided name) : ¬ Unmarked name := by
  obtain ⟨c, hc, hend | hinside⟩ := h
  · exact fun hunmarked => (hunmarked c hc).1 hend
  · exact fun hunmarked => (hunmarked c hc).2 hinside.inside

theorem toList_mirrorName (name : String) : (mirrorName name).toList = mirrorChars name.toList :=
  String.toList_ofList

theorem mirrorName_eq_iff {name other : String} :
    mirrorName name = other ↔ mirrorChars name.toList = other.toList := by
  rw [← toList_mirrorName, String.toList_inj]

/-- Names that tell a side come in pairs of opposites, and exactly the names without a marker are
their own opposites. Of two names that tell a side, one is on the other side of the other if the
other is on the other side of the one. -/
theorem mirrorName_pairs (name other : String) :
    (Sided name.toList → mirrorName (mirrorName name) = name ∧ mirrorName name ≠ name ∧
      Sided (mirrorName name).toList) ∧
    (mirrorName name = name ↔ Unmarked name.toList) ∧
    (Sided name.toList → Sided other.toList →
      (Character.CrossesSides name other ↔ Character.CrossesSides other name)) := by
  have hself : mirrorName name = name ↔ Unmarked name.toList := by
    rw [mirrorName_eq_iff, mirrorChars_eq_self_iff]
  have hback : ∀ name : String, Sided name.toList → mirrorName (mirrorName name) = name := by
    intro name h
    rw [mirrorName_eq_iff, toList_mirrorName, (sided_mirrorChars h).2]
  refine ⟨fun h => ⟨hback name h, mt hself.mp h.not_unmarked, ?_⟩, hself, ?_⟩
  · rw [toList_mirrorName]
    exact (sided_mirrorChars h).1
  · intro hname hother
    constructor
    · rintro ⟨hne, rfl⟩
      exact ⟨hne.symm, hback other hother⟩
    · rintro ⟨hne, rfl⟩
      exact ⟨hne.symm, hback name hname⟩

theorem mirrorName_pairs_horn :
    let name := "horn_l_tip_l_ring"
    let other := "horn_r_tip_r_ring"
    Sided name.toList ∧ Sided other.toList ∧ mirrorName (mirrorName name) = name ∧
      mirrorName name ≠ name ∧ Character.CrossesSides name other ∧
      Character.CrossesSides other name := by
  intro name other
  have hname : Sided name.toList := by decide
  have hother : Sided other.toList := by decide
  obtain ⟨hpaired, -, hsymmetric⟩ := mirrorName_pairs name other
  obtain ⟨hback, hne, -⟩ := hpaired hname
  have hcrosses : Character.CrossesSides name other := by decide
  exact ⟨hname, hother, hback, hne, hcrosses, (hsymmetric hname hother).mp hcrosses⟩

/-- Markers that share an underscore are not all replaced at once. -/
example : ¬ Sided "_l_l_".toList ∧ mirrorName "_l_l_" = "_r_l_" ∧ mirrorName "_r_l_" = "_r_r_" := by
  decide

end Mannequin.Side
