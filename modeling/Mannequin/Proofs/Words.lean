import Mannequin.Json.Reader
import Mannequin.Proofs.NameMap

/-!
# Integers of a text

A number in a JSON text is kept as an integer only if a machine word holds it, with a sign or
without. The reader puts literals together and changes none of them, so every integer in
what it reads fits a word.
-/

namespace Mannequin

/-- A name is looked up as one of the values that are listed under it. -/
theorem NameMap.mem_of_get?_ofList {β : Type} {l : List (String × β)} {name : String} {value : β}
    (h : (ofList l).get? name = some value) : (name, value) ∈ l := by
  suffices hfold : ∀ m : NameMap β,
      (l.foldl (fun m e => m.insert e.1 e.2) m).get? name = some value →
        (name, value) ∈ l ∨ m.get? name = some value from
    (hfold ∅ h).resolve_right nofun
  clear h
  induction l with
  | nil => exact fun _ h => .inr h
  | cons first rest ih =>
      intro m h
      rcases ih _ h with h | h
      · exact .inl (List.mem_cons_of_mem _ h)
      · rw [get?_insert] at h
        split at h
        case isTrue heq =>
          cases h
          exact .inl (heq ▸ List.mem_cons_self)
        case isFalse => exact .inr h

namespace Json

variable {α : Type}

/-- An integer that a machine word holds, with a sign or without. -/
def FitsWord (n : Int) : Prop := -Int.pow 2 63 ≤ n ∧ n < Int.pow 2 64

instance (n : Int) : Decidable (FitsWord n) := inferInstanceAs (Decidable (_ ∧ _))

/-- All integers in a value fit a machine word. -/
inductive WordSized : Json α → Prop where
  | null : WordSized .null
  | bool (flag : Bool) : WordSized (.bool flag)
  | int {n : Int} (h : FitsWord n) : WordSized (.int n)
  | real (x : α) : WordSized (.real x)
  | str (text : String) : WordSized (.str text)
  | arr {items : List (Json α)} (h : ∀ item ∈ items, WordSized item) : WordSized (.arr items)
  | obj {written : List (String × Json α)} (h : ∀ member ∈ written, WordSized member.2) :
      WordSized (.obj written)

theorem WordSized.member? {value found : Json α} {name : String} (h : value.WordSized)
    (hfound : value.member? name = some found) : found.WordSized := by
  cases h with
  | obj h => exact h _ (NameMap.mem_of_get?_ofList hfound)
  | _ => cases hfound

theorem WordSized.arr_reverse {items : List (Json α)} (h : ∀ item ∈ items, item.WordSized) :
    (Json.arr items.reverse).WordSized :=
  .arr fun item hitem => h item (List.mem_reverse.mp hitem)

theorem WordSized.obj_reverse {written : List (String × Json α)}
    (h : ∀ member ∈ written, member.2.WordSized) : (Json.obj written.reverse).WordSized :=
  .obj fun member hmember => h member (List.mem_reverse.mp hmember)

/-! ### Literals -/

/-- The literal of a token, if it is one, has integers of the size of a word. -/
def Token.WordSized (token : Token α) : Prop :=
  ∀ value, token = .literal value → value.WordSized

section

variable [Scalar α]

theorem Token.wordSized_of_numberValue? {negative : Bool} {whole : List Char}
    {fraction : Option (List Char)} {exponent : Option Int} {value : Json α}
    (h : numberValue? negative whole fraction exponent = some value) : value.WordSized := by
  rw [numberValue?] at h
  generalize (if negative = true then -(digitsValue whole : Int) else digitsValue whole) = n at h
  dsimp only at h
  split at h
  case isTrue hfits =>
    cases h
    exact .int hfits.2.2
  case isFalse =>
    split at h
    case isTrue =>
      cases h
      exact .real _
    case isFalse => cases h

theorem Token.wordSized_of_unsigned? {negative : Bool} {text rest : List Char} {value : Json α}
    (h : unsigned? negative text = some (value, rest)) : value.WordSized := by
  obtain ⟨⟨whole, _⟩, -, h⟩ := Option.bind_eq_some_iff.mp h
  simp only at h
  split at h
  case isTrue => cases h
  case isFalse =>
    obtain ⟨_, -, h⟩ := Option.bind_eq_some_iff.mp h
    obtain ⟨_, -, h⟩ := Option.bind_eq_some_iff.mp h
    obtain ⟨_, hvalue, h⟩ := Option.bind_eq_some_iff.mp h
    cases h
    exact wordSized_of_numberValue? hvalue

theorem Token.wordSized_of_next? {text rest : List Char} {token : Token α}
    (h : next? text = some (token, rest)) : token.WordSized := by
  unfold next? at h
  split at h
  case h_7 =>
    obtain ⟨_, -, heq⟩ := Option.map_eq_some_iff.mp h
    cases heq
    rintro _ ⟨⟩
    exact .str _
  case h_8 | h_9 | h_10 =>
    cases h
    rintro _ ⟨⟩
    constructor
  case h_11 | h_12 =>
    obtain ⟨⟨value, _⟩, hvalue, heq⟩ := Option.map_eq_some_iff.mp h
    cases heq
    rintro _ ⟨⟩
    exact wordSized_of_unsigned? hvalue
  all_goals
    cases h
    rintro _ ⟨⟩

theorem Token.wordSized_of_all? {text : List Char} {tokens : List (Token α)}
    (h : all? text = some tokens) : ∀ token ∈ tokens, token.WordSized := by
  fun_induction all? (α := α) text generalizing tokens with
  | case1 =>
      cases h
      exact nofun
  | case2 _ _ _ ih => exact ih h
  | case3 => cases h
  | case4 _ _ _ token _ hnext ih =>
      obtain ⟨others, hothers, rfl⟩ := Option.map_eq_some_iff.mp h
      exact List.forall_mem_cons.mpr ⟨wordSized_of_next? hnext, ih hothers⟩

end

/-! ### Readings -/

/-- What an open object or list holds so far has integers of the size of a word. -/
def Frame.WordSized : Frame α → Prop
  | .list items => ∀ item ∈ items, item.WordSized
  | .record written _ => ∀ member ∈ written, member.2.WordSized

/-- All that has been read has integers of the size of a word. -/
def Reading.WordSized : Reading α → Prop
  | .value outer => ∀ frame ∈ outer, frame.WordSized
  | .firstItem outer => ∀ frame ∈ outer, frame.WordSized
  | .name outer written _ =>
    (∀ frame ∈ outer, frame.WordSized) ∧ ∀ member ∈ written, member.2.WordSized
  | .named outer written _ =>
    (∀ frame ∈ outer, frame.WordSized) ∧ ∀ member ∈ written, member.2.WordSized
  | .ended v outer => v.WordSized ∧ ∀ frame ∈ outer, frame.WordSized

theorem Reading.wordSized_begin? {outer : List (Frame α)} {token : Token α} {reading : Reading α}
    (houter : ∀ frame ∈ outer, frame.WordSized) (htoken : token.WordSized)
    (h : begin? outer token = some reading) : reading.WordSized := by
  cases token with
  | literal value =>
      cases h
      exact ⟨htoken value rfl, houter⟩
  | openArray =>
      cases h
      exact houter
  | openObject =>
      cases h
      exact ⟨houter, nofun⟩
  | _ => cases h

theorem Reading.WordSized.step? {reading reading' : Reading α} {token : Token α}
    (hreading : reading.WordSized) (htoken : token.WordSized)
    (h : reading.step? token = some reading') : reading'.WordSized := by
  unfold Reading.step? at h
  split at h
  case h_1 => exact wordSized_begin? hreading htoken h
  case h_2 =>
    cases h
    exact ⟨.arr nofun, hreading⟩
  case h_3 =>
    have hopened : (Frame.list [] : Frame α).WordSized := List.forall_mem_nil _
    exact wordSized_begin? (List.forall_mem_cons.mpr ⟨hopened, hreading⟩) htoken h
  case h_4 =>
    cases h
    exact hreading
  case h_5 =>
    cases h
    exact ⟨.obj nofun, hreading.1⟩
  case h_6 =>
    cases h
    exact List.forall_mem_cons.mpr ⟨hreading.2, hreading.1⟩
  case h_7 =>
    obtain ⟨hvalue, hframes⟩ := hreading
    obtain ⟨hitems, houter⟩ := List.forall_mem_cons.mp hframes
    cases h
    exact List.forall_mem_cons.mpr ⟨List.forall_mem_cons.mpr ⟨hvalue, hitems⟩, houter⟩
  case h_8 =>
    obtain ⟨hvalue, hframes⟩ := hreading
    obtain ⟨hitems, houter⟩ := List.forall_mem_cons.mp hframes
    cases h
    exact ⟨.arr_reverse (List.forall_mem_cons.mpr ⟨hvalue, hitems⟩), houter⟩
  case h_9 =>
    obtain ⟨hvalue, hframes⟩ := hreading
    obtain ⟨hwritten, houter⟩ := List.forall_mem_cons.mp hframes
    cases h
    exact ⟨houter, List.forall_mem_cons.mpr ⟨hvalue, hwritten⟩⟩
  case h_10 =>
    obtain ⟨hvalue, hframes⟩ := hreading
    obtain ⟨hwritten, houter⟩ := List.forall_mem_cons.mp hframes
    cases h
    exact ⟨.obj_reverse (List.forall_mem_cons.mpr ⟨hvalue, hwritten⟩), houter⟩
  case h_11 => cases h

/-- All that is read from tokens fits if it fits at the start. -/
theorem Reading.WordSized.foldlM {tokens : List (Token α)} {reading reading' : Reading α}
    (hreading : reading.WordSized) (htokens : ∀ token ∈ tokens, token.WordSized)
    (h : tokens.foldlM Reading.step? reading = some reading') : reading'.WordSized := by
  induction tokens generalizing reading with
  | nil =>
      cases h
      exact hreading
  | cons token rest ih =>
      rw [List.foldlM_cons] at h
      obtain ⟨next, hnext, h⟩ := Option.bind_eq_some_iff.mp h
      rw [List.forall_mem_cons] at htokens
      exact ih (hreading.step? htokens.1 hnext) htokens.2 h

/-! ### Texts -/

variable [Scalar α]

theorem wordSized_of_ofChars? {text : List Char} {value : Json α}
    (h : ofChars? text = some value) : value.WordSized := by
  obtain ⟨tokens, htokens, h⟩ := Option.bind_eq_some_iff.mp h
  obtain ⟨reading, hreading, h⟩ := Option.bind_eq_some_iff.mp h
  have hstart : (Reading.value [] : Reading α).WordSized := nofun
  have hread := hstart.foldlM (Token.wordSized_of_all? htokens) hreading
  unfold Reading.result? at h
  split at h
  case h_1 =>
    cases h
    exact hread.1
  case h_2 => cases h

/-- Every integer in what a file holds fits a machine word. -/
theorem wordSized_of_ofBytes? {bytes : ByteArray} {value : Json α}
    (h : ofBytes? bytes = some value) : value.WordSized := by
  obtain ⟨text, -, h⟩ := Option.bind_eq_some_iff.mp h
  split at h
  case h_1 => exact wordSized_of_ofChars? h
  case h_2 => exact wordSized_of_ofChars? h

end Json

end Mannequin
