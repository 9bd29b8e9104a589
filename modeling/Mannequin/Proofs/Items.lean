import Mathlib.Data.List.Nodup

/-!
# Items that are changed where they stand

Work in place changes a list at one position after the other. What has been done and what
is still to come are the two parts of the list around the item that has its turn.
-/

namespace Mannequin

/-- Of items with different keys, changing the one at a place changes those with its key. -/
theorem modify_map_eq {β γ κ : Type} [DecidableEq κ] {key : β → κ} {g : β → γ} {f : γ → γ}
    {l : List β} (hl : (l.map key).Nodup) {j : Nat} {a : β} (hj : l[j]? = some a) :
    (l.map g).modify j f = l.map fun b => if key b = key a then f (g b) else g b := by
  refine List.ext_getElem? fun i => ?_
  rw [List.getElem?_modify, List.getElem?_map, List.getElem?_map]
  cases hi : l[i]? with
  | none => rfl
  | some b =>
      have hsame : key b = key a ↔ j = i := by
        constructor
        · intro hkey
          have hlen : j < (l.map key).length := by
            rw [List.length_map]
            exact (List.getElem?_eq_some_iff.mp hj).1
          refine (List.getElem?_inj hlen hl).mp ?_
          rw [List.getElem?_map, List.getElem?_map, hi, hj, Option.map_some, Option.map_some, hkey]
        · rintro rfl
          rw [hj] at hi
          rw [Option.some.inj hi]
      simp only [hsame, Option.map_some, Functor.map]

theorem modify_middle {β : Type} (before : List β) (b : β) (after : List β) (f : β → β) :
    (before ++ b :: after).modify before.length f = before ++ f b :: after := by
  induction before with
  | nil => rfl
  | cons first rest ih => rw [List.cons_append, List.length_cons, List.modify_succ_cons, ih,
      List.cons_append]

end Mannequin
