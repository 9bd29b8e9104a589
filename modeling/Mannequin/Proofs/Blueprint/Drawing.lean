import Mathlib.Data.List.Infix
import Mannequin.Proofs.Deformation.Interpolation
import Mannequin.Character.Rings

/-!
# Drawing a segment

Every ring of a segment stands where the steps below it lead, and has the shape that they
add up to. Over exact numbers steps can be drawn exactly if each of them leads up, whatever
else it does, and the rings then ascend from the start of the segment to its end, so they
make a deformation field with any taper, bulge and twist.
-/

namespace Mannequin.Blueprint

variable {α : Type} [Exact α]

namespace Step

/-- How far a step leads up, in bone lengths. -/
def advance (s : Step α) : α := s.extrude + s.translate.z

/-- A step whose sizes are above zero. -/
structure Positive (s : Step α) : Prop where
  extrude : 0 < s.extrude
  scale : 0 < s.scaleX ∧ 0 < s.scaleY
  bulge : 0 < s.bulgeSide ∧ 0 < s.bulgeFront

/-- How far steps lead up together. -/
def rise (steps : List (Step α)) : α := (steps.map advance).sum

/-- The ring that the steps below it add up to, in a segment of some height. -/
def ringAbove (height : α) (below : List (Step α)) : Ring α :=
  { position := rise below / height
    scaleX := (below.map fun s => s.scaleX * s.bulgeSide).prod
    scaleY := (below.map fun s => s.scaleY * s.bulgeFront).prod
    twist := (below.map Step.rotate).sum
    offsetX := (below.map fun s => s.translate.x).sum / height
    offsetY := (below.map fun s => s.translate.y).sum / height
    tiltX := (below.map Step.tiltX).sum
    tiltY := (below.map Step.tiltY).sum }

/-! ### Climbing -/

/-- The ring that steps lead to from a ring. -/
def raised (ring : Ring α) (steps : List (Step α)) : Ring α :=
  { position := ring.position + rise steps
    scaleX := ring.scaleX * (steps.map fun s => s.scaleX * s.bulgeSide).prod
    scaleY := ring.scaleY * (steps.map fun s => s.scaleY * s.bulgeFront).prod
    twist := ring.twist + (steps.map Step.rotate).sum
    offsetX := ring.offsetX + (steps.map fun s => s.translate.x).sum
    offsetY := ring.offsetY + (steps.map fun s => s.translate.y).sum
    tiltX := ring.tiltX + (steps.map Step.tiltX).sum
    tiltY := ring.tiltY + (steps.map Step.tiltY).sum }

@[simp] theorem rise_nil : rise ([] : List (Step α)) = 0 := rfl

@[simp] theorem rise_cons (s : Step α) (steps : List (Step α)) :
    rise (s :: steps) = s.advance + rise steps := rfl

theorem raised_nil (ring : Ring α) : raised ring [] = ring := by
  simp [raised]

/-- One step more from below. -/
theorem raised_cons (ring : Ring α) (s : Step α) (steps : List (Step α)) :
    raised ring (s :: steps) =
      raised (s.above ring (ring.position + s.extrude + s.translate.z)) steps := by
  simp [raised, above, advance, add_assoc, mul_assoc]

theorem lt_next_iff (s : Step α) (height : α) :
    height < height + s.extrude + s.translate.z ↔ 0 < s.advance := by
  rw [add_assoc, lt_add_iff_pos_right, advance]

variable {loc : Location} {index : Nat} {steps : List (Step α)}

/-- Climbing begins with the ring below all steps. -/
theorem map_raised_inits (ring : Ring α) (steps : List (Step α)) :
    steps.inits.map (raised ring) = ring :: steps.inits.tail.map (raised ring) := by
  cases steps <;> simp [raised_nil]

/-- Steps that all lead up are climbed one by one. -/
theorem climb_eq_ok (ring : Ring α) (h : ∀ s ∈ steps, 0 < s.advance) :
    climb loc index ring ring.position steps =
      .ok ⟨steps.inits.tail.map (raised ring), ring.position + rise steps⟩ := by
  induction steps generalizing index ring with
  | nil => simp [climb]
  | cons s rest ih =>
      obtain ⟨hs, hrest⟩ := List.forall_mem_cons.mp h
      let next := s.above ring (ring.position + s.extrude + s.translate.z)
      have hclimb : climb loc (index + 1) next next.position rest =
          .ok ⟨rest.inits.tail.map (raised next), next.position + rise rest⟩ := ih next hrest
      have hrings : next :: rest.inits.tail.map (raised next) =
          (s :: rest).inits.tail.map (raised ring) := by
        rw [← map_raised_inits, List.inits_cons, List.tail_cons, List.map_map]
        exact List.map_congr_left fun below _ => (raised_cons ring s below).symm
      have hheight : next.position + rise rest = ring.position + rise (s :: rest) := by
        simp [next, above, advance, add_assoc]
      rw [climb, if_pos ((lt_next_iff s ring.position).mpr hs), ← hrings, ← hheight]
      exact bind_eq_ok.mpr ⟨_, hclimb, rfl⟩

/-- The first step that does not lead up is refused. -/
theorem climb_eq_error {before after : List (Step α)} {s : Step α} (ring : Ring α)
    (hbefore : ∀ b ∈ before, 0 < b.advance) (hs : s.advance ≤ 0) :
    climb loc index ring ring.position (before ++ s :: after) =
      refuse StepFault.notAdvancing (Location.item loc (index + before.length)).render := by
  induction before generalizing index ring with
  | nil =>
      rw [List.nil_append, climb, if_neg (mt (lt_next_iff s ring.position).mp hs.not_gt)]
      rfl
  | cons b rest ih =>
      obtain ⟨hb, hrest⟩ := List.forall_mem_cons.mp hbefore
      let next := b.above ring (ring.position + b.extrude + b.translate.z)
      have hclimb : climb loc (index + 1) next next.position (rest ++ s :: after) = _ :=
        ih next hrest
      rw [List.cons_append, climb, if_pos ((lt_next_iff b ring.position).mpr hb)]
      change (climb loc (index + 1) next next.position (rest ++ s :: after) >>= _) = _
      rw [hclimb, List.length_cons, Nat.add_right_comm]
      rfl

/-! ### Rising -/

theorem rise_append (below above : List (Step α)) :
    rise (below ++ above) = rise below + rise above := by
  simp [rise]

theorem rise_nonneg (h : ∀ s ∈ steps, 0 < s.advance) : 0 ≤ rise steps :=
  List.sum_nonneg (List.forall_mem_map.mpr fun s hs => (h s hs).le)

theorem rise_pos (hne : steps ≠ []) (h : ∀ s ∈ steps, 0 < s.advance) : 0 < rise steps :=
  List.sum_pos _ (List.forall_mem_map.mpr h) (mt List.map_eq_nil_iff.mp hne)

/-- The steps below a ring do not lead above the end. -/
theorem rise_le_of_mem_inits {below : List (Step α)} (h : ∀ s ∈ steps, 0 < s.advance)
    (hbelow : below ∈ steps.inits) : rise below ≤ rise steps := by
  obtain ⟨above, rfl⟩ := (List.mem_inits below steps).mp hbelow
  rw [rise_append]
  exact le_add_of_nonneg_right (rise_nonneg fun s hs => h s (List.mem_append_right below hs))

/-- Each ring stands above the ones before it. -/
theorem pairwise_rise_inits (h : ∀ s ∈ steps, 0 < s.advance) :
    steps.inits.Pairwise fun below below' => rise below < rise below' := by
  induction steps with
  | nil => exact List.pairwise_singleton _ _
  | cons s rest ih =>
      obtain ⟨hs, hrest⟩ := List.forall_mem_cons.mp h
      rw [List.inits_cons]
      refine List.pairwise_cons.mpr ⟨List.forall_mem_map.mpr fun below hbelow => ?_, ?_⟩
      · have hbelow : ∀ b ∈ below, 0 < b.advance :=
          fun b hb => hrest b (((List.mem_inits below rest).mp hbelow).subset hb)
        exact add_pos_of_pos_of_nonneg hs (rise_nonneg hbelow)
      · exact List.pairwise_map.mpr ((ih hrest).imp fun hlt => add_lt_add_right hlt s.advance)

theorem getElem?_inits {β : Type} {l : List β} {k : Nat} (hk : k ≤ l.length) :
    l.inits[k]? = some (l.take k) := by
  have hlength : k < l.inits.length := by
    rw [List.length_inits]
    exact Nat.lt_succ_of_le hk
  rw [List.getElem?_eq_getElem hlength, List.getElem_inits]

/-! ### Drawing -/

/-- The rings of a segment of some height that its steps add up to, and their height. -/
structure AddsUp (steps : List (Step α)) (drawing : Drawing α) : Prop where
  height : drawing.height = rise steps
  length : drawing.rings.length = steps.length + 1
  ring : ∀ k ≤ steps.length, drawing.rings[k]? = some (ringAbove drawing.height (steps.take k))
  bottom : drawing.rings.head? = some (Ring.identity 0)
  top : ∀ r ∈ drawing.rings.getLast?, r.position = 1
  ascending : drawing.rings.Pairwise fun r r' => r.position < r'.position
  positive : ∀ r ∈ drawing.rings, 0 < r.scaleX ∧ 0 < r.scaleY

/-- What steps that lead up are drawn as. -/
def drawn (steps : List (Step α)) : Drawing α :=
  ⟨steps.inits.map (ringAbove (rise steps)), rise steps⟩

theorem ringAbove_nil (height : α) : ringAbove height [] = Ring.identity 0 := by
  simp [ringAbove, Ring.identity, Exact.ofNat_zero, Exact.ofNat_one]

theorem top_drawn (hne : steps ≠ []) (h : ∀ s ∈ steps, 0 < s.advance) :
    ∀ r ∈ (drawn steps).rings.getLast?, r.position = 1 := by
  intro r hr
  rw [drawn, List.getLast?_map, List.getLast?_eq_getElem?, List.length_inits,
    Nat.add_sub_cancel, getElem?_inits le_rfl, List.take_length, Option.map_some,
    Option.mem_some_iff] at hr
  rw [← hr]
  exact div_self (rise_pos hne h).ne'

theorem addsUp_drawn (hsteps : ∀ s ∈ steps, s.Positive) (hne : steps ≠ [])
    (h : ∀ s ∈ steps, 0 < s.advance) : AddsUp steps (drawn steps) where
  height := rfl
  length := by rw [drawn, List.length_map, List.length_inits]
  ring k hk := by rw [drawn, List.getElem?_map, getElem?_inits hk, Option.map_some]
  bottom := by
    cases steps <;> simp [drawn, ringAbove_nil]
  top := top_drawn hne h
  ascending := List.pairwise_map.mpr <| (pairwise_rise_inits h).imp fun hlt =>
    div_lt_div_of_pos_right hlt (rise_pos hne h)
  positive := List.forall_mem_map.mpr fun below hbelow => by
    have hbelow : ∀ s ∈ below, s.Positive :=
      fun s hs => hsteps s (((List.mem_inits below steps).mp hbelow).subset hs)
    constructor
    · exact List.prod_pos <| List.forall_mem_map.mpr fun s hs =>
        mul_pos (hbelow s hs).scale.1 (hbelow s hs).bulge.1
    · exact List.prod_pos <| List.forall_mem_map.mpr fun s hs =>
        mul_pos (hbelow s hs).scale.2 (hbelow s hs).bulge.2

theorem fraction_raised (height : α) (below : List (Step α)) :
    fraction height (raised (Ring.identity 0) below) = ringAbove height below := by
  simp [fraction, raised, ringAbove, Ring.identity, Exact.ofNat_zero, Exact.ofNat_one]

/-- Rings that end at height one stay as they are. -/
theorem closeTop_eq {rings : List (Ring α)} (h : ∀ r ∈ rings.getLast?, r.position = 1) :
    closeTop rings = rings := by
  induction rings with
  | nil => rfl
  | cons r rest ih =>
      cases rest with
      | nil =>
          have hr : r.position = 1 := h r rfl
          rw [closeTop, Exact.ofNat_one, ← hr]
      | cons r' rest =>
          have hrest : closeTop (r' :: rest) = r' :: rest :=
            ih fun top htop => h top (by rwa [List.getLast?_cons_cons])
          exact congrArg (r :: ·) hrest

/-- What leads up is drawn. -/
theorem draw_eq_ok (hne : steps ≠ []) (h : ∀ s ∈ steps, 0 < s.advance) :
    draw loc steps = .ok (drawn steps) := by
  let base : Ring α := Ring.identity 0
  let climbed : Drawing α := ⟨steps.inits.tail.map (raised base), base.position + rise steps⟩
  have hclimb : climb (.key loc "extrusion_steps") 0 base 0 steps = .ok climbed :=
    climb_eq_ok base h
  have hheight : climbed.height = rise steps := zero_add (rise steps)
  have hrings : (base :: climbed.rings).map (fraction climbed.height) = (drawn steps).rings := by
    rw [← map_raised_inits, List.map_map, hheight]
    exact List.map_congr_left fun below _ => fraction_raised (rise steps) below
  rw [draw, if_neg (by simpa using hne), Exact.ofNat_zero]
  refine bind_eq_ok.mpr ⟨climbed, hclimb, ?_⟩
  change Except.ok (Drawing.mk (closeTop ((base :: climbed.rings).map (fraction climbed.height)))
    climbed.height) = .ok (drawn steps)
  rw [hrings, closeTop_eq (top_drawn hne h), hheight]
  rfl

/-- The first step that does not lead up is refused. -/
theorem draw_eq_error {before after : List (Step α)} {s : Step α}
    (hbefore : ∀ b ∈ before, 0 < b.advance) (hs : s.advance ≤ 0) :
    draw loc (before ++ s :: after) = refuse StepFault.notAdvancing
      (Location.item (.key loc "extrusion_steps") before.length).render := by
  let base : Ring α := Ring.identity 0
  have hclimb : climb (.key loc "extrusion_steps") 0 base 0 (before ++ s :: after) =
      refuse StepFault.notAdvancing
        (Location.item (.key loc "extrusion_steps") (0 + before.length)).render :=
    climb_eq_error base hbefore hs
  rw [draw, if_neg (by simp), Exact.ofNat_zero]
  change (climb (.key loc "extrusion_steps") 0 base 0 (before ++ s :: after) >>= _) = _
  rw [hclimb, Nat.zero_add]
  rfl

/-- Steps that do not all lead up have a first one that does not. -/
theorem exists_first_not_advancing (h : ¬ ∀ s ∈ steps, 0 < s.advance) :
    ∃ before s after, steps = before ++ s :: after ∧ (∀ b ∈ before, 0 < b.advance) ∧
      s.advance ≤ 0 := by
  induction steps with
  | nil => exact absurd (fun _ => nofun) h
  | cons s rest ih =>
      by_cases hs : 0 < s.advance
      · have hrest : ¬ ∀ s ∈ rest, 0 < s.advance := fun hrest =>
          h (List.forall_mem_cons.mpr ⟨hs, hrest⟩)
        obtain ⟨before, s', after, rfl, hbefore, hs'⟩ := ih hrest
        exact ⟨s :: before, s', after, rfl, List.forall_mem_cons.mpr ⟨hs, hbefore⟩, hs'⟩
      · exact ⟨[], s, rest, rfl, nofun, not_lt.mp hs⟩

/-! ### Bending what is drawn -/

theorem sound_drawn (hsteps : ∀ s ∈ steps, s.Positive) (hne : steps ≠ [])
    (h : ∀ s ∈ steps, 0 < s.advance) : ∀ r ∈ (drawn steps).rings, r.Sound := by
  intro r hr
  have hpositive := (addsUp_drawn hsteps hne h).positive r hr
  obtain ⟨below, hbelow, rfl⟩ := List.mem_map.mp hr
  have hrise : ∀ s ∈ below, 0 < s.advance :=
    fun s hs => h s (((List.mem_inits below steps).mp hbelow).subset hs)
  have hlow : 0 ≤ rise below / rise steps :=
    div_nonneg (rise_nonneg hrise) (rise_nonneg h)
  have hhigh : rise below / rise steps ≤ 1 :=
    div_le_one_of_le₀ (rise_le_of_mem_inits h hbelow) (rise_nonneg h)
  refine ⟨rfl, ?_, ⟨⟨rfl, ?_⟩, rfl, ?_⟩, rfl, ⟨rfl, rfl⟩, rfl, rfl⟩
  · rw [Exact.ofNat_zero, Exact.ofNat_one]
    exact ⟨hlow.not_gt, hhigh.not_gt⟩
  · rw [Exact.ofNat_zero]
    exact hpositive.1.not_ge
  · rw [Exact.ofNat_zero]
    exact hpositive.2.not_ge

/-- With any taper, bulge and twist that make a field, the rings make one. -/
theorem build_drawn (hsteps : ∀ s ∈ steps, s.Positive) (hne : steps ≠ [])
    (h : ∀ s ∈ steps, 0 < s.advance) {place : Location} {taper twist : α}
    {bulge : List (BulgePoint α)} {field : Deformation α}
    (hfield : Deformation.build place taper bulge twist [] = .ok field) :
    Deformation.build place taper bulge twist (drawn steps).rings =
      .ok { field with rings := (drawn steps).rings } := by
  obtain ⟨haccepted, rfl⟩ := Deformation.build_eq_ok.mp hfield
  have hascending : Ring.Ascending (drawn steps).rings :=
    (addsUp_drawn hsteps hne h).ascending.isChain.imp fun _ _ hlt => hlt.not_ge
  exact Deformation.build_eq_ok.mpr ⟨{ haccepted with
    ringsSound := sound_drawn hsteps hne h, ascending := hascending }, rfl⟩

/-- Steps whose sizes are above zero are drawn exactly if each of them leads up, and the first
that does not is refused. What is drawn of some steps is what they add up to, from the
identity at the start to height one, and makes a field with any taper, bulge and twist that
make one without it. -/
theorem draws_of_positive (loc : Location) (steps : List (Step α))
    (hsteps : ∀ s ∈ steps, s.Positive) :
    ((∃ drawing, draw loc steps = .ok drawing) ↔ ∀ s ∈ steps, 0 < s.advance) ∧
    (∀ before s after, steps = before ++ s :: after → (∀ b ∈ before, 0 < b.advance) →
      s.advance ≤ 0 → ∃ e, draw loc steps = .error e ∧ e.kind = .range ∧
        e.path = (Location.item (.key loc "extrusion_steps") before.length).render) ∧
    ∀ drawing, draw loc steps = .ok drawing → steps ≠ [] →
      AddsUp steps drawing ∧
      ∀ place taper bulge twist field,
        Deformation.build place taper bulge twist [] = .ok field →
        Deformation.build place taper bulge twist drawing.rings =
          .ok { field with rings := drawing.rings } := by
  have hiff : (∃ drawing, draw loc steps = .ok drawing) ↔ ∀ s ∈ steps, 0 < s.advance := by
    constructor
    · rintro ⟨drawing, hdraw⟩
      by_contra h
      obtain ⟨before, s, after, rfl, hbefore, hs⟩ := exists_first_not_advancing h
      rw [draw_eq_error hbefore hs] at hdraw
      cases hdraw
    · intro h
      obtain rfl | hne := eq_or_ne steps []
      · exact ⟨_, rfl⟩
      · exact ⟨_, draw_eq_ok hne h⟩
  refine ⟨hiff, ?_, fun drawing hdraw hne => ?_⟩
  · rintro before s after rfl hbefore hs
    exact ⟨_, draw_eq_error hbefore hs, rfl, rfl⟩
  · have h : ∀ s ∈ steps, 0 < s.advance := hiff.mp ⟨drawing, hdraw⟩
    cases (draw_eq_ok hne h).symm.trans hdraw
    exact ⟨addsUp_drawn hsteps hne h, fun _ _ _ _ _ => build_drawn hsteps hne h⟩

/-- Steps that widen, lean and narrow, the second of them with its upper ring moved back. -/
def collarSteps : List (Step ℚ) :=
  [⟨1, 2, 1, ⟨1, 0, 0⟩, 10, 0, 0, 1, 3⟩, ⟨1, 1 / 2, 1, ⟨0, -1 / 2, -1 / 2⟩, 5, 4, 0, 1, 1⟩,
    ⟨1 / 2, 1, 1, ⟨0, 0, 0⟩, 0, 0, 0, 1, 1⟩]

/-- The second step leads up as little as the last one, and the rings still ascend. With the
last one moved back by its whole length as well, the steps are refused there. -/
theorem draws_of_positive_collar :
    (∃ drawing, draw (.root "collar") collarSteps = .ok drawing ∧ drawing.height = 2 ∧
      drawing.rings.map Ring.position = [0, 1 / 2, 3 / 4, 1] ∧
      Deformation.build (.root "collar") 2 [] 0 drawing.rings =
        .ok ⟨2, 0, [], drawing.rings⟩) ∧
    ∃ e, draw (.root "collar")
        (collarSteps ++ [⟨1, 1, 1, ⟨0, 0, -1⟩, 0, 0, 0, 1, 1⟩]) = .error e ∧
      e.path = (Location.item (.key (.root "collar") "extrusion_steps") 3).render := by
  have hcollar : ∀ s ∈ collarSteps, s.Positive := by
    simp only [collarSteps, List.forall_mem_cons]
    refine ⟨?_, ?_, ?_, List.forall_mem_nil _⟩ <;> constructor <;> norm_num
  have hsunk : ∀ s ∈ collarSteps ++ [⟨1, 1, 1, ⟨0, 0, -1⟩, 0, 0, 0, 1, 1⟩], s.Positive := by
    refine List.forall_mem_append.mpr ⟨hcollar, ?_⟩
    rw [List.forall_mem_singleton]
    constructor <;> norm_num
  have hadvance : ∀ s ∈ collarSteps, 0 < s.advance := by decide +kernel
  obtain ⟨hiff, -, hdrawing⟩ := draws_of_positive (.root "collar") collarSteps hcollar
  obtain ⟨drawing, hdraw⟩ := hiff.mpr hadvance
  obtain ⟨hadds, hbuild⟩ := hdrawing drawing hdraw (List.cons_ne_nil _ _)
  have heq : draw (.root "collar") collarSteps = .ok (drawn collarSteps) := by decide +kernel
  have hdrawn : drawing = drawn collarSteps := Except.ok.inj (hdraw.symm.trans heq)
  have hrise : rise collarSteps = 2 := by decide +kernel
  refine ⟨⟨drawing, hdraw, hadds.height.trans hrise, ?_, ?_⟩, ?_⟩
  · rw [hdrawn]
    decide +kernel
  · exact hbuild (.root "collar") 2 [] 0 ⟨2, 0, [], []⟩ (by decide +kernel)
  · obtain ⟨-, herror, -⟩ := draws_of_positive (.root "collar") _ hsunk
    obtain ⟨e, he, -, hpath⟩ := herror collarSteps _ [] rfl hadvance (by decide +kernel)
    exact ⟨e, he, hpath⟩

end Step

end Mannequin.Blueprint
