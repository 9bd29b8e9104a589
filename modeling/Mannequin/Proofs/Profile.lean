import Mathlib.Data.List.DropRight
import Mathlib.Data.Nat.Digits.Defs
import Mathlib.Tactic.Ring
import Mannequin.Profile
import Mannequin.Proofs.Returns

/-!
# What is written for a profile

A profile is written as a word, or as the call of a circle with a number of one to nine
decimal digits, with white space around the whole and around the number. This is the
grammar, and reading a text goes by it: what the grammar writes is read as it says, a call
with too small a number is out of range, and everything else has the wrong shape.

All that the grammar writes is ASCII. So it makes no difference whether a text is taken as
its characters or as the bytes of its UTF-8 form, and bytes that are no UTF-8 are decided
in the same way.
-/

namespace Mannequin.Profile

/-! ### The grammar -/

/-- White space only, or nothing. -/
def Blank (text : List Char) : Prop := ∀ c ∈ text, isBlank c = true

/-- A text with white space around it. -/
def Padded (core text : List Char) : Prop :=
  ∃ before after, Blank before ∧ Blank after ∧ text = before ++ core ++ after

/-- The number that decimal digits stand for. -/
def decimal (digits : List Char) : Nat :=
  Nat.ofDigits 10 (digits.reverse.map fun c => c.toNat - '0'.toNat)

/-- One to nine decimal digits. -/
structure Numeral (digits : List Char) : Prop where
  nonempty : digits ≠ []
  short : digits.length ≤ 9
  digit : ∀ c ∈ digits, c.isDigit = true

/-- A call of a circle with so many segments, under one of its two names. -/
def Calls (text : List Char) (n : Nat) : Prop :=
  ∃ name ∈ ["circle", "hexagon"], ∃ argument digits, Numeral digits ∧ decimal digits = n ∧
    Padded digits argument ∧ text = name.toList ++ '(' :: argument ++ [')']

/-- What a text without white space at its ends writes. -/
inductive Writes : List Char → Profile → Prop where
  | square : Writes "square".toList ⟨.square, 4⟩
  | rectangle : Writes "rectangle".toList ⟨.rectangle, 4⟩
  | circle {text : List Char} {n : Nat} (hcalls : Calls text n) (hn : 3 ≤ n) :
      Writes text ⟨.circle, n⟩

variable {core text raw digits argument : List Char} {n : Nat} {profile : Profile}

/-! ### White space at the ends -/

/-- A text with something other than white space at both ends. -/
def Tight (text : List Char) : Prop :=
  ∃ first rest, text = first :: rest ∧ isBlank first = false ∧
    ∃ init last, text = init ++ [last] ∧ isBlank last = false

theorem trim_eq (text : List Char) : trim text = (text.dropWhile isBlank).rdropWhile isBlank := rfl

theorem padded_trim (text : List Char) : Padded (trim text) text := by
  refine ⟨text.takeWhile isBlank, (text.dropWhile isBlank).rtakeWhile isBlank, ?_, ?_, ?_⟩
  · exact fun c hc => List.mem_takeWhile_imp hc
  · exact fun c hc => List.mem_rtakeWhile_imp hc
  · rw [trim_eq, List.append_assoc, List.rdropWhile_append_rtakeWhile,
      List.takeWhile_append_dropWhile]

theorem Padded.trim_eq (h : Padded core text) (hcore : Tight core) : trim text = core := by
  obtain ⟨before, after, hbefore, hafter, rfl⟩ := h
  obtain ⟨first, rest, hfirst, hopen, init, last, hlast, hclosed⟩ := hcore
  have hstart : (before ++ core ++ after).dropWhile isBlank = core ++ after := by
    rw [List.append_assoc, List.dropWhile_append_of_pos hbefore, hfirst]
    exact List.dropWhile_cons_of_neg (by simp [hopen])
  have hend : (core ++ after).reverse.dropWhile isBlank = core.reverse := by
    rw [List.reverse_append, List.dropWhile_append_of_pos fun c hc =>
      hafter c (List.mem_reverse.mp hc), hlast, List.reverse_append]
    exact List.dropWhile_cons_of_neg (by simp [hclosed])
  rw [trim, hstart, hend, List.reverse_reverse]

theorem padded_iff (hcore : Tight core) : Padded core text ↔ trim text = core :=
  ⟨fun h => h.trim_eq hcore, fun h => h ▸ padded_trim text⟩

/-! ### Numbers -/

theorem isBlank_of_isDigit {c : Char} (h : c.isDigit = true) : isBlank c = false := by
  by_contra hblank
  rw [Bool.not_eq_false, isBlank] at hblank
  simp only [Bool.or_eq_true, decide_eq_true_eq] at hblank
  rcases hblank with ((((rfl | rfl) | rfl) | rfl) | rfl) | rfl <;> revert h <;> decide

theorem Numeral.tight (h : Numeral digits) : Tight digits := by
  obtain ⟨first, rest, hfirst⟩ := List.exists_cons_of_ne_nil h.nonempty
  obtain ⟨init, last, hlast⟩ := (List.eq_nil_or_concat digits).resolve_left h.nonempty
  refine ⟨first, rest, hfirst, ?_, init, last, ?_, ?_⟩
  · exact isBlank_of_isDigit (h.digit first (hfirst ▸ List.mem_cons_self))
  · rw [hlast, List.concat_eq_append]
  · exact isBlank_of_isDigit (h.digit last (by simp [hlast]))

/-- Reading digits one after the other gives the number that they stand for. -/
theorem decimal_eq_foldl (digits : List Char) :
    decimal digits = digits.foldl (fun n c => n * 10 + (c.toNat - '0'.toNat)) 0 := by
  rw [decimal, Nat.ofDigits_eq_foldr, List.foldr_map, List.foldr_reverse]
  congr 1
  funext n c
  rw [Nat.cast_id]
  ring

/-- The number that digits give in words of 32 bits, where it could wrap around. -/
def word (digits : List Char) : UInt32 :=
  digits.foldl (fun n c => n * 10 + UInt32.ofNat (c.toNat - '0'.toNat)) 0

theorem word_eq (digits : List Char) : word digits = UInt32.ofNat (decimal digits) := by
  rw [word, decimal_eq_foldl]
  refine List.foldl_hom UInt32.ofNat fun n c => ?_
  rw [UInt32.ofNat_add, UInt32.ofNat_mul]
  rfl

theorem Numeral.decimal_lt (h : Numeral digits) : decimal digits < 10 ^ 9 := by
  have hdigits : ∀ d ∈ digits.reverse.map fun c => c.toNat - '0'.toNat, d < 10 := by
    intro d hd
    obtain ⟨c, hc, rfl⟩ := List.mem_map.mp hd
    have hdigit := h.digit c (List.mem_reverse.mp hc)
    rw [Char.isDigit, Bool.and_eq_true, decide_eq_true_eq, decide_eq_true_eq] at hdigit
    have hle : c.toNat ≤ 57 := UInt32.le_iff_toNat_le.mp hdigit.2
    have hzero : '0'.toNat = 48 := rfl
    omega
  have hlt := Nat.ofDigits_lt_base_pow_length (by decide) hdigits
  rw [List.length_map, List.length_reverse] at hlt
  exact Nat.lt_of_lt_of_le hlt (Nat.pow_le_pow_right (by decide) h.short)

/-- A number of at most nine digits does not wrap around. -/
theorem Numeral.toNat_word (h : Numeral digits) : (word digits).toNat = decimal digits := by
  rw [word_eq]
  exact UInt32.toNat_ofNat_of_lt (Nat.lt_of_lt_of_le h.decimal_lt (by decide))

theorem segments?_eq_some : segments? digits = some n ↔ Numeral digits ∧ decimal digits = n := by
  rw [segments?, ← decimal_eq_foldl]
  constructor
  · intro h
    split at h
    · rename_i hdigits
      exact ⟨⟨hdigits.1, hdigits.2.1, List.all_eq_true.mp hdigits.2.2⟩, Option.some.inj h⟩
    · cases h
  · rintro ⟨h, rfl⟩
    exact if_pos ⟨h.nonempty, h.short, List.all_eq_true.mpr h.digit⟩

/-! ### Calls -/

theorem callArgument?_eq_some {name : List Char} :
    callArgument? name text = some argument ↔ text = name ++ '(' :: argument ++ [')'] := by
  rw [callArgument?]
  constructor
  · intro h
    split at h
    · rename_i hcall
      obtain ⟨hopens, hlength, hlast⟩ := hcall
      obtain ⟨rest, rfl⟩ := List.isPrefixOf_iff_prefix.mp hopens
      have hrest : rest ≠ [] := by
        rintro rfl
        simp at hlength
      obtain ⟨init, last, rfl⟩ := (List.eq_nil_or_concat rest).resolve_left hrest
      simp only [List.concat_eq_append, ← List.append_assoc, List.getLast?_concat,
        Option.some.injEq] at hlast
      subst hlast
      simp only [List.drop_left, List.concat_eq_append, List.dropLast_concat,
        Option.some.injEq] at h
      simp [h]
    · cases h
  · rintro rfl
    have hsplit : name ++ '(' :: argument ++ [')'] = (name ++ ['(']) ++ (argument ++ [')']) := by
      simp
    rw [hsplit, if_pos, List.drop_left, List.dropLast_concat]
    refine ⟨List.isPrefixOf_iff_prefix.mpr (List.prefix_append _ _), by simp, ?_⟩
    rw [← List.append_assoc, List.getLast?_concat]

/-- What stands between the parentheses of a call of a circle. -/
def argument? (text : List Char) : Option (List Char) :=
  (callArgument? "circle".toList text).or (callArgument? "hexagon".toList text)

theorem argument?_eq_some : argument? text = some argument ↔
    ∃ name ∈ ["circle", "hexagon"], text = name.toList ++ '(' :: argument ++ [')'] := by
  have hcases : argument? text = some argument ↔
      callArgument? "circle".toList text = some argument ∨
        callArgument? "hexagon".toList text = some argument := by
    rw [argument?, Option.or_eq_some_iff]
    refine or_congr_right ⟨fun h => h.2, fun h => ⟨?_, h⟩⟩
    refine Option.eq_none_iff_forall_ne_some.mpr fun other hother => ?_
    have hhead := (callArgument?_eq_some.mp hother).symm.trans (callArgument?_eq_some.mp h)
    cases hhead
  rw [hcases, callArgument?_eq_some, callArgument?_eq_some]
  simp

theorem calls_iff : Calls text n ↔
    ∃ argument, argument? text = some argument ∧ segments? (trim argument) = some n := by
  constructor
  · rintro ⟨name, hname, argument, digits, hdigits, hn, hpadded, htext⟩
    refine ⟨argument, argument?_eq_some.mpr ⟨name, hname, htext⟩, ?_⟩
    rw [hpadded.trim_eq hdigits.tight]
    exact segments?_eq_some.mpr ⟨hdigits, hn⟩
  · rintro ⟨argument, hargument, hsegments⟩
    obtain ⟨name, hname, htext⟩ := argument?_eq_some.mp hargument
    obtain ⟨hdigits, hn⟩ := segments?_eq_some.mp hsegments
    exact ⟨name, hname, argument, trim argument, hdigits, hn, padded_trim argument, htext⟩

theorem Calls.tight (h : Calls text n) : Tight text := by
  obtain ⟨name, hname, argument, -, -, -, -, rfl⟩ := h
  simp only [List.mem_cons, List.not_mem_nil, or_false] at hname
  rcases hname with rfl | rfl
  · exact ⟨'c', _, rfl, rfl, _, ')', rfl, rfl⟩
  · exact ⟨'h', _, rfl, rfl, _, ')', rfl, rfl⟩

theorem Writes.tight (h : Writes text profile) : Tight text := by
  cases h with
  | square => exact ⟨'s', _, rfl, rfl, "squar".toList, 'e', rfl, rfl⟩
  | rectangle => exact ⟨'r', _, rfl, rfl, "rectangl".toList, 'e', rfl, rfl⟩
  | circle hcalls => exact hcalls.tight

theorem exists_padded_iff {P : List Char → Prop} (htight : ∀ core, P core → Tight core) :
    (∃ core, Padded core text ∧ P core) ↔ P (trim text) := by
  have hpadded : ∀ core, Padded core text ∧ P core ↔ trim text = core ∧ P core :=
    fun core => and_congr_left fun hcore => padded_iff (htight core hcore)
  exact (exists_congr hpadded).trans exists_eq_left'

/-! ### Reading goes by the grammar -/

theorem ofChars_eq (raw : List Char) : ofChars raw =
    if trim raw = "square".toList then .ok ⟨.square, 4⟩
    else if trim raw = "rectangle".toList then .ok ⟨.rectangle, 4⟩
    else match argument? (trim raw) with
      | some argument => circleOf argument
      | none => .error (.unknown (String.ofList raw)) := rfl

theorem ofChars_of_calls (h : Calls (trim raw) n) :
    ofChars raw = if n < 3 then .error (.tooFew n) else .ok ⟨.circle, n⟩ := by
  obtain ⟨argument, hargument, hn⟩ := calls_iff.mp h
  have hword : ∀ word, argument? word = none → trim raw ≠ word := by
    rintro word hword rfl
    cases hword.symm.trans hargument
  rw [ofChars_eq, if_neg (hword _ (by decide)), if_neg (hword _ (by decide))]
  simp only [hargument, circleOf, hn]
  rfl

theorem ofChars_of_writes (h : Writes (trim raw) profile) : ofChars raw = .ok profile := by
  generalize htext : trim raw = text at h
  cases h with
  | square => rw [ofChars_eq, if_pos htext]
  | rectangle => rw [ofChars_eq, htext, if_neg (by decide), if_pos rfl]
  | circle hcalls hn => rw [ofChars_of_calls (htext ▸ hcalls), if_neg (Nat.not_lt.mpr hn)]

/-- What is no word and no call has the wrong shape. -/
theorem ofChars_of_neither (hwrites : ∀ profile, ¬ Writes (trim raw) profile)
    (hcalls : ∀ n, ¬ Calls (trim raw) n) :
    ∃ fault, ofChars raw = .error fault ∧ Cause.kind fault = .shape := by
  have hsquare : trim raw ≠ "square".toList := by
    intro h
    exact hwrites _ (h ▸ Writes.square)
  have hrectangle : trim raw ≠ "rectangle".toList := by
    intro h
    exact hwrites _ (h ▸ Writes.rectangle)
  rw [ofChars_eq, if_neg hsquare, if_neg hrectangle]
  cases hargument : argument? (trim raw) with
  | none => exact ⟨_, rfl, rfl⟩
  | some argument =>
      cases hsegments : segments? (trim argument) with
      | none => exact ⟨.segmentText (String.ofList argument), by simp [circleOf, hsegments], rfl⟩
      | some n => exact absurd (calls_iff.mpr ⟨argument, hargument, hsegments⟩) (hcalls n)

/-- A text is a profile, a call with too small a number, or neither. -/
theorem ofChars_cases (raw : List Char) :
    (∃ profile, Writes (trim raw) profile ∧ ofChars raw = .ok profile) ∨
      (∃ n, Calls (trim raw) n ∧ n < 3 ∧ ofChars raw = .error (.tooFew n)) ∨
      ∃ fault, ofChars raw = .error fault ∧ Cause.kind fault = .shape := by
  by_cases hwrites : ∃ profile, Writes (trim raw) profile
  · obtain ⟨profile, hprofile⟩ := hwrites
    exact .inl ⟨profile, hprofile, ofChars_of_writes hprofile⟩
  · by_cases hcalls : ∃ n, Calls (trim raw) n
    · obtain ⟨n, hn⟩ := hcalls
      have hfew : n < 3 := by
        by_contra hmany
        exact hwrites ⟨_, .circle hn (Nat.not_lt.mp hmany)⟩
      exact .inr (.inl ⟨n, hn, hfew, (ofChars_of_calls hn).trans (if_pos hfew)⟩)
    · rw [not_exists] at hwrites hcalls
      exact .inr (.inr (ofChars_of_neither hwrites hcalls))

/-- Reading fails, with an error of a kind at the place of the text that ends by quoting
the grammar. -/
def Refuses (loc : Location) (outcome : Except Error Profile) (kind : ErrorKind) : Prop :=
  ∃ error what, outcome = .error error ∧ error.kind = kind ∧ error.path = loc.render ∧
    error.message = what ++ grammar

/-- An outcome of reading is what the grammar says of a text. -/
structure Decides (text : List Char) (loc : Location) (outcome : Except Error Profile) : Prop where
  /-- What the grammar writes is read as it says, and nothing else is read. -/
  accepted : ∀ profile, outcome = .ok profile ↔ ∃ core, Padded core text ∧ Writes core profile
  /-- A call with too small a number is out of range. -/
  tooFew : (∃ core, Padded core text ∧ ∃ n, Calls core n ∧ n < 3) → Refuses loc outcome .range
  /-- Everything else has the wrong shape. -/
  other : (¬ ∃ core, Padded core text ∧ ∃ profile, Writes core profile) →
    (¬ ∃ core, Padded core text ∧ ∃ n, Calls core n ∧ n < 3) → Refuses loc outcome .shape

/-- The outcome of reading characters at a place. -/
def readAt (loc : Location) (raw : List Char) : Except Error Profile :=
  (ofChars raw).mapError (Cause.error · loc.render)

theorem refuses_of_fault {fault : ProfileFault} (loc : Location) (h : ofChars raw = .error fault) :
    Refuses loc (readAt loc raw) (Cause.kind fault) := by
  rw [readAt, h]
  exact ⟨Cause.error fault loc.render, _, rfl, rfl, rfl, rfl⟩

theorem decides_readAt (loc : Location) (raw : List Char) :
    Decides raw loc (readAt loc raw) := by
  constructor
  · intro profile
    rw [exists_padded_iff fun _ h => h.tight, readAt, mapError_eq_ok]
    refine ⟨fun hread => ?_, ofChars_of_writes⟩
    rcases ofChars_cases raw with ⟨other, hwrites, hother⟩ | ⟨n, -, -, hfew⟩ | ⟨fault, hfault, -⟩
    · cases hread.symm.trans hother
      exact hwrites
    · cases hread.symm.trans hfew
    · cases hread.symm.trans hfault
  · rw [exists_padded_iff fun _ ⟨_, h, _⟩ => h.tight]
    rintro ⟨n, hcalls, hn⟩
    exact refuses_of_fault loc ((ofChars_of_calls hcalls).trans (if_pos hn))
  · rw [exists_padded_iff fun _ ⟨_, h⟩ => h.tight, exists_padded_iff fun _ ⟨_, h, _⟩ => h.tight]
    intro hwrites hfew
    rcases ofChars_cases raw with ⟨profile, h, -⟩ | ⟨n, hcalls, hn, -⟩ | ⟨fault, hfault, hkind⟩
    · exact absurd ⟨profile, h⟩ hwrites
    · exact absurd ⟨n, hcalls, hn⟩ hfew
    · exact hkind ▸ refuses_of_fault loc hfault

/-! ### Bytes -/

/-- The characters whose codes are the bytes. -/
def codes (bytes : ByteArray) : List Char := bytes.data.toList.map Char.ofUInt8

/-- The profile that bytes write. Each byte is read as the character of its code. -/
def ofBytes (loc : Location) (bytes : ByteArray) : Except Error Profile :=
  readAt loc (codes bytes)

/-- Characters of ASCII only. -/
def Ascii (text : List Char) : Prop := ∀ c ∈ text, c.toNat < 128

instance (text : List Char) : Decidable (Ascii text) :=
  List.decidableBAll (fun c : Char => c.toNat < 128) text

theorem codes_toUTF8 (text : String) :
    codes text.toUTF8 =
      text.toList.flatMap fun c => (String.utf8EncodeChar c).map Char.ofUInt8 := by
  rw [codes, String.toUTF8_eq_toByteArray, ← String.utf8Encode_toList, List.utf8Encode,
    List.toList_data_toByteArray, List.map_flatMap]

theorem toNat_ofUInt8_ofNat (n : Nat) : (Char.ofUInt8 (UInt8.ofNat n)).toNat = n % 256 := rfl

theorem encoded_of_ascii {c : Char} (h : c.toNat < 128) :
    (String.utf8EncodeChar c).map Char.ofUInt8 = [c] := by
  have hlow : c.val.toNat ≤ 127 := Nat.lt_succ_iff.mp h
  have hcode : (Char.ofUInt8 (UInt8.ofNat c.val.toNat)).toNat = c.toNat := by
    rw [toNat_ofUInt8_ofNat]
    exact Nat.mod_eq_of_lt (Nat.lt_of_lt_of_le h (by decide))
  rw [String.utf8EncodeChar]
  simp only [hlow, if_true, List.map_cons, List.map_nil]
  rw [Char.toNat_inj.mp hcode]

/-- The first byte of a character that is not ASCII is not ASCII either. -/
theorem exists_encoded_of_not_ascii {c : Char} (h : ¬ c.toNat < 128) :
    ∃ d ∈ (String.utf8EncodeChar c).map Char.ofUInt8, ¬ d.toNat < 128 := by
  have hhigh : ¬ c.val.toNat ≤ 127 := fun hle => h (Nat.lt_succ_of_le hle)
  rw [String.utf8EncodeChar]
  simp only [hhigh, if_false]
  split_ifs
  all_goals
    refine ⟨_, List.mem_cons_self, ?_⟩
    rw [toNat_ofUInt8_ofNat]
    omega

theorem codes_toUTF8_of_ascii {text : String} (h : Ascii text.toList) :
    codes text.toUTF8 = text.toList := by
  rw [codes_toUTF8]
  conv_rhs => rw [← List.flatMap_singleton' text.toList]
  exact List.flatMap_congr fun c hc => encoded_of_ascii (h c hc)

theorem ascii_of_codes_toUTF8 {text : String} (h : Ascii (codes text.toUTF8)) :
    Ascii text.toList := by
  intro c hc
  by_contra hhigh
  obtain ⟨d, hd, hdhigh⟩ := exists_encoded_of_not_ascii hhigh
  rw [codes_toUTF8] at h
  exact hdhigh (h d (List.mem_flatMap.mpr ⟨c, hc, hd⟩))

/-! ### The grammar is ASCII -/

theorem Blank.ascii (h : Blank text) : Ascii text := by
  intro c hc
  have hblank := h c hc
  simp only [isBlank, Bool.or_eq_true, decide_eq_true_eq] at hblank
  rcases hblank with ((((rfl | rfl) | rfl) | rfl) | rfl) | rfl <;> decide

theorem Ascii.append {text' : List Char} (h : Ascii text) (h' : Ascii text') :
    Ascii (text ++ text') :=
  List.forall_mem_append.mpr ⟨h, h'⟩

theorem Padded.ascii (h : Padded core text) (hcore : Ascii core) : Ascii text := by
  obtain ⟨before, after, hbefore, hafter, rfl⟩ := h
  exact (hbefore.ascii.append hcore).append hafter.ascii

theorem Numeral.ascii (h : Numeral digits) : Ascii digits := by
  intro c hc
  have hdigit := h.digit c hc
  rw [Char.isDigit, Bool.and_eq_true, decide_eq_true_eq, decide_eq_true_eq] at hdigit
  exact Nat.lt_of_le_of_lt (UInt32.le_iff_toNat_le.mp hdigit.2) (by decide)

theorem Calls.ascii (h : Calls text n) : Ascii text := by
  obtain ⟨name, hname, argument, digits, hdigits, -, hpadded, rfl⟩ := h
  have hopening : Ascii (name.toList ++ ['(']) := by
    simp only [List.mem_cons, List.not_mem_nil, or_false] at hname
    rcases hname with rfl | rfl <;> decide
  have hsplit : name.toList ++ '(' :: argument ++ [')'] =
      name.toList ++ ['('] ++ argument ++ [')'] := by simp
  rw [hsplit]
  exact (hopening.append (hpadded.ascii hdigits.ascii)).append (by decide)

theorem Writes.ascii (h : Writes text profile) : Ascii text := by
  cases h with
  | square => decide
  | rectangle => decide
  | circle hcalls => exact hcalls.ascii

/-- ASCII within white space is found in a text exactly if it is found in its bytes. -/
theorem padded_codes_iff {text : String} (hcore : Ascii core) :
    Padded core (codes text.toUTF8) ↔ Padded core text.toList := by
  constructor
  · intro h
    rwa [codes_toUTF8_of_ascii (ascii_of_codes_toUTF8 (h.ascii hcore))] at h
  · intro h
    rwa [codes_toUTF8_of_ascii (h.ascii hcore)]

theorem exists_padded_codes_iff {text : String} {P : List Char → Prop}
    (hascii : ∀ core, P core → Ascii core) :
    (∃ core, Padded core (codes text.toUTF8) ∧ P core) ↔ ∃ core, Padded core text.toList ∧ P core :=
  exists_congr fun core => and_congr_left fun h => padded_codes_iff (hascii core h)

/-- Reading bytes goes by the grammar, whatever the bytes are, and reading a text goes by
the grammar on its bytes: square, rectangle and calls of circles with three segments or more
are read with the number that is written, calls with less are out of range, and everything
else has the wrong shape. The number never wraps around where it is computed in words of 32
bits. -/
theorem reading_decided (loc : Location) :
    (∀ bytes : ByteArray, Decides (codes bytes) loc (ofBytes loc bytes)) ∧
      (∀ text : String, Decides (codes text.toUTF8) loc (ofString loc text)) ∧
      ∀ digits, Numeral digits → (word digits).toNat = decimal digits := by
  refine ⟨fun bytes => decides_readAt loc (codes bytes), fun text => ?_, fun _ => (·.toNat_word)⟩
  obtain ⟨haccepted, htooFew, hother⟩ := decides_readAt loc text.toList
  constructor
  · intro profile
    rw [exists_padded_codes_iff fun _ h => h.ascii]
    exact haccepted profile
  · rw [exists_padded_codes_iff fun _ ⟨_, h, _⟩ => h.ascii]
    exact htooFew
  · rw [exists_padded_codes_iff fun _ ⟨_, h⟩ => h.ascii,
      exists_padded_codes_iff fun _ ⟨_, h, _⟩ => h.ascii]
    exact hother

example : ofString (.root "profile") " hexagon( 3 )\n" = .ok ⟨.circle, 3⟩ := by rfl

end Mannequin.Profile
