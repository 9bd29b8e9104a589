import Mannequin.Json

/-!
# Tokens of JSON text

Text is cut into brackets, separators and literals. Strings are decoded as they
are read: escapes outside the standard, surrogates without their partner and
raw control characters are refused. A number without fraction and exponent is
an integer if a machine word holds it; every other number is the nearest
scalar, and one that is not finite is refused.

Each scanner hands back the text after what it read. The lemmas beside it say
that this text is shorter, so cutting ends.
-/

namespace Mannequin.Json

/-- A piece of JSON text. -/
inductive Token (α : Type) where
  | openObject
  | closeObject
  | openArray
  | closeArray
  | colon
  | comma
  | literal (value : Json α)

namespace Token

def isBlank (c : Char) : Bool := c = ' ' || c = '\t' || c = '\n' || c = '\r'

/-- The value of a hexadecimal digit. -/
def hexDigit? (c : Char) : Option Nat :=
  if '0' ≤ c ∧ c ≤ '9' then some (c.toNat - '0'.toNat)
  else if 'a' ≤ c ∧ c ≤ 'f' then some (c.toNat - 'a'.toNat + 10)
  else if 'A' ≤ c ∧ c ≤ 'F' then some (c.toNat - 'A'.toNat + 10)
  else none

/-- A code unit of four hexadecimal digits, and the text after it. -/
def codeUnit? : List Char → Option (Nat × List Char)
  | a :: b :: c :: d :: rest => do
    let a ← hexDigit? a
    let b ← hexDigit? b
    let c ← hexDigit? c
    let d ← hexDigit? d
    return (((a * 16 + b) * 16 + c) * 16 + d, rest)
  | _ => none

/-- The character of an escape after its `u`. A high surrogate takes the
escaped low surrogate behind it; no other surrogate is a character. -/
def unicodeEscape? (text : List Char) : Option (Char × List Char) := do
  let (unit, rest) ← codeUnit? text
  if 0xD800 ≤ unit ∧ unit < 0xDC00 then
    match rest with
    | '\\' :: 'u' :: rest =>
      let (low, rest) ← codeUnit? rest
      if 0xDC00 ≤ low ∧ low < 0xE000 then
        return (Char.ofNat (0x10000 + (unit - 0xD800) * 0x400 + (low - 0xDC00)), rest)
      else none
    | _ => none
  else if 0xDC00 ≤ unit ∧ unit < 0xE000 then none
  else return (Char.ofNat unit, rest)

/-- The character that a single letter stands for after a backslash. -/
def letterEscape? : Char → Option Char
  | '"' => some '"'
  | '\\' => some '\\'
  | '/' => some '/'
  | 'b' => some '\x08'
  | 'f' => some '\x0c'
  | 'n' => some '\n'
  | 'r' => some '\r'
  | 't' => some '\t'
  | _ => none

/-- The character of an escape after its backslash. -/
def escape? : List Char → Option (Char × List Char)
  | 'u' :: rest => unicodeEscape? rest
  | letter :: rest => (letterEscape? letter).map (·, rest)
  | [] => none

theorem length_codeUnit? {text rest : List Char} {unit : Nat}
    (h : codeUnit? text = some (unit, rest)) : rest.length < text.length := by
  unfold codeUnit? at h
  split at h
  · simp only [Option.bind_eq_bind, Option.bind_eq_some_iff] at h
    obtain ⟨a, -, b, -, c, -, d, -, h⟩ := h
    obtain ⟨-, rfl⟩ : _ ∧ _ = rest := by simpa using h
    simp only [List.length_cons]
    omega
  · simp at h

theorem length_unicodeEscape? {text rest : List Char} {c : Char}
    (h : unicodeEscape? text = some (c, rest)) : rest.length < text.length := by
  simp only [unicodeEscape?, Option.bind_eq_bind, Option.bind_eq_some_iff] at h
  obtain ⟨⟨unit, after⟩, hunit, h⟩ := h
  have hshort := length_codeUnit? hunit
  split at h
  · split at h
    · rename_i hafter
      simp only at hafter
      subst hafter
      simp only [List.length_cons] at hshort
      obtain ⟨⟨low, last⟩, hlow, h⟩ := Option.bind_eq_some_iff.mp h
      have := length_codeUnit? hlow
      split at h
      · obtain ⟨-, rfl⟩ : _ ∧ _ = rest := by simpa using h
        omega
      · simp at h
    · simp at h
  · split at h
    · simp at h
    · obtain ⟨-, rfl⟩ : _ ∧ _ = rest := by simpa using h
      exact hshort

theorem length_escape? {text rest : List Char} {c : Char}
    (h : escape? text = some (c, rest)) : rest.length < text.length := by
  unfold escape? at h
  split at h
  · have := length_unicodeEscape? h
    simp only [List.length_cons]
    omega
  · obtain ⟨_, -, h⟩ := Option.map_eq_some_iff.mp h
    cases h
    simp
  · cases h

/-- The characters of a string after its opening quote, and the text after its
closing quote. -/
def string? (text : List Char) : Option (List Char × List Char) :=
  match text with
  | [] => none
  | c :: rest =>
    if c = '"' then some ([], rest)
    else if c = '\\' then
      match _h : escape? rest with
      | none => none
      | some (e, rest) => (string? rest).map fun (cs, rest) => (e :: cs, rest)
    else if c < ' ' then none
    else (string? rest).map fun (cs, rest) => (c :: cs, rest)
termination_by text.length
decreasing_by
  · have := length_escape? _h
    simp only [List.length_cons]
    omega
  · simp

theorem length_string? {text cs rest : List Char} (h : string? text = some (cs, rest)) :
    rest.length < text.length := by
  fun_induction string? text generalizing cs with
  | case1 => simp at h
  | case2 => simp_all
  | case3 => simp at h
  | case4 r e after hescape _ ih =>
    obtain ⟨⟨cs', rest'⟩, hstring, hpair⟩ := Option.map_eq_some_iff.mp h
    obtain ⟨-, rfl⟩ := Prod.mk.injEq .. ▸ hpair
    have := ih hstring
    have := length_escape? hescape
    simp only [List.length_cons]
    omega
  | case5 => simp at h
  | case6 c r _ _ _ ih =>
    obtain ⟨⟨cs', rest'⟩, hstring, hpair⟩ := Option.map_eq_some_iff.mp h
    obtain ⟨-, rfl⟩ := Prod.mk.injEq .. ▸ hpair
    have := ih hstring
    simp only [List.length_cons]
    omega

/-- The number a list of decimal digits stands for. -/
def digitsValue (digits : List Char) : Nat :=
  digits.foldl (fun n c => n * 10 + (c.toNat - '0'.toNat)) 0

/-- The digits at the start of a text, at least one, and the text after them. -/
def digits? (text : List Char) : Option (List Char × List Char) :=
  match text.takeWhile Char.isDigit with
  | [] => none
  | digits => some (digits, text.dropWhile Char.isDigit)

/-- The digits after a point, if there is one. -/
def fraction? : List Char → Option (Option (List Char) × List Char)
  | '.' :: rest => (digits? rest).map fun (digits, rest) => (some digits, rest)
  | text => some (none, text)

/-- The power of ten after an exponent mark, if there is one. -/
def exponent? : List Char → Option (Option Int × List Char)
  | mark :: rest =>
    if mark = 'e' ∨ mark = 'E' then
      match rest with
      | '-' :: rest => (digits? rest).map fun (digits, rest) => (some (-digitsValue digits), rest)
      | '+' :: rest => (digits? rest).map fun (digits, rest) => (some (digitsValue digits), rest)
      | rest => (digits? rest).map fun (digits, rest) => (some (digitsValue digits), rest)
    else some (none, mark :: rest)
  | [] => some (none, [])

/-- The value of a number from its parts. -/
def numberValue? {α : Type} [Scalar α] (negative : Bool) (whole : List Char)
    (fraction : Option (List Char)) (exponent : Option Int) : Option (Json α) :=
  let n : Int := if negative then -digitsValue whole else digitsValue whole
  if fraction = none ∧ exponent = none ∧ -Int.pow 2 63 ≤ n ∧ n < Int.pow 2 64 then some (int n)
  else
    let places := fraction.getD []
    let x : α := Scalar.ofDecimal (digitsValue (whole ++ places))
      (exponent.getD 0 - places.length)
    if Scalar.isFinite x then some (real (if negative then -x else x)) else none

/-- A number without its sign, and the text after it. A whole part of several
digits does not start with zero. -/
def unsigned? {α : Type} [Scalar α] (negative : Bool) (text : List Char) :
    Option (Json α × List Char) := do
  let (whole, rest) ← digits? text
  if whole.length ≠ 1 ∧ whole.head? = some '0' then none
  else
    let (fraction, rest) ← fraction? rest
    let (exponent, rest) ← exponent? rest
    let value ← numberValue? negative whole fraction exponent
    return (value, rest)

theorem length_digits? {text digits rest : List Char} (h : digits? text = some (digits, rest)) :
    rest.length < text.length := by
  unfold digits? at h
  split at h
  · simp at h
  · rename_i hdigits
    simp only [Option.some.injEq, Prod.mk.injEq] at h
    obtain ⟨-, rfl⟩ := h
    have hsplit := congrArg List.length (List.takeWhile_append_dropWhile (p := Char.isDigit) (l := text))
    have hpos := List.length_pos_iff.mpr hdigits
    simp only [List.length_append] at hsplit
    omega

theorem length_fraction? {text rest : List Char} {digits : Option (List Char)}
    (h : fraction? text = some (digits, rest)) : rest.length ≤ text.length := by
  unfold fraction? at h
  split at h
  · obtain ⟨⟨ds, after⟩, hdigits, hpair⟩ := Option.map_eq_some_iff.mp h
    obtain ⟨-, rfl⟩ := Prod.mk.injEq .. ▸ hpair
    have := length_digits? hdigits
    simp only [List.length_cons]
    omega
  · simp_all

theorem length_exponent? {text rest : List Char} {power : Option Int}
    (h : exponent? text = some (power, rest)) : rest.length ≤ text.length := by
  unfold exponent? at h
  split at h
  · split at h
    · split at h <;>
      · obtain ⟨⟨ds, after⟩, hdigits, hpair⟩ := Option.map_eq_some_iff.mp h
        obtain ⟨-, rfl⟩ := Prod.mk.injEq .. ▸ hpair
        have := length_digits? hdigits
        simp only [List.length_cons]
        omega
    · simp_all
  · simp_all

theorem length_unsigned? {α : Type} [Scalar α] {negative : Bool} {text rest : List Char}
    {value : Json α} (h : unsigned? negative text = some (value, rest)) :
    rest.length < text.length := by
  simp only [unsigned?, Option.bind_eq_bind, Option.bind_eq_some_iff] at h
  obtain ⟨⟨whole, r₁⟩, hwhole, h⟩ := h
  have h₁ := length_digits? hwhole
  split at h
  · simp at h
  · simp only [Option.bind_eq_some_iff] at h
    obtain ⟨⟨fraction, r₂⟩, hfraction, ⟨exponent, r₃⟩, hexponent, v, -, hpair⟩ := h
    have h₂ := length_fraction? hfraction
    have h₃ := length_exponent? hexponent
    obtain ⟨-, rfl⟩ : _ ∧ _ = rest := by simpa using hpair
    simp only at h₁ h₂ h₃
    omega

/-- The token at the start of a text that does not start with a blank, and the
text after it. -/
def next? {α : Type} [Scalar α] : List Char → Option (Token α × List Char)
  | '\x7b' :: rest => some (openObject, rest)
  | '\x7d' :: rest => some (closeObject, rest)
  | '[' :: rest => some (openArray, rest)
  | ']' :: rest => some (closeArray, rest)
  | ':' :: rest => some (colon, rest)
  | ',' :: rest => some (comma, rest)
  | '"' :: rest => (string? rest).map fun (cs, rest) => (literal (str (String.ofList cs)), rest)
  | 't' :: 'r' :: 'u' :: 'e' :: rest => some (literal (bool true), rest)
  | 'f' :: 'a' :: 'l' :: 's' :: 'e' :: rest => some (literal (bool false), rest)
  | 'n' :: 'u' :: 'l' :: 'l' :: rest => some (literal null, rest)
  | '-' :: rest => (unsigned? true rest).map fun (value, rest) => (literal value, rest)
  | text => (unsigned? false text).map fun (value, rest) => (literal value, rest)

theorem length_next? {α : Type} [Scalar α] {text rest : List Char} {token : Token α}
    (h : next? text = some (token, rest)) : rest.length < text.length := by
  unfold next? at h
  split at h
  case h_7 =>
    obtain ⟨⟨cs, after⟩, hstring, hpair⟩ := Option.map_eq_some_iff.mp h
    obtain ⟨-, rfl⟩ := Prod.mk.injEq .. ▸ hpair
    have := length_string? hstring
    simp only [List.length_cons]
    omega
  case h_11 =>
    obtain ⟨⟨value, after⟩, hnumber, hpair⟩ := Option.map_eq_some_iff.mp h
    obtain ⟨-, rfl⟩ := Prod.mk.injEq .. ▸ hpair
    have := length_unsigned? hnumber
    simp only [List.length_cons]
    omega
  case h_12 =>
    obtain ⟨⟨value, after⟩, hnumber, hpair⟩ := Option.map_eq_some_iff.mp h
    obtain ⟨-, rfl⟩ := Prod.mk.injEq .. ▸ hpair
    exact length_unsigned? hnumber
  all_goals
    simp only [Option.some.injEq, Prod.mk.injEq] at h
    obtain ⟨-, rfl⟩ := h
    simp only [List.length_cons]
    omega

/-- The tokens of a text, unless a part of it is none. -/
def all? {α : Type} [Scalar α] (text : List Char) : Option (List (Token α)) :=
  match text with
  | [] => some []
  | c :: rest =>
    if isBlank c then all? rest
    else
      match h : next? (α := α) (c :: rest) with
      | none => none
      | some (token, rest) => (all? rest).map (token :: ·)
termination_by text.length
decreasing_by
  · simp
  · exact length_next? h

end Token

end Mannequin.Json
