import Mannequin.Json.Token

/-!
# Reading JSON text

A reader takes one token at a time. Between tokens it is in one of five states,
each with the stack of objects and lists that are still open. Reading a text is
a fold over its tokens, so every text is read in as many steps as it has
tokens, however deeply it is nested.
-/

namespace Mannequin.Json

/-- An object or list that is still open, with what it holds so far, latest first. -/
inductive Frame (α : Type) where
  | list (items : List (Json α))
  | record (written : List (String × Json α)) (name : String)

/-- What a reader has seen and what may follow. -/
inductive Reading (α : Type) where
  /-- A value must follow. -/
  | value (outer : List (Frame α))
  /-- A list was opened: its first item or its end may follow. -/
  | firstItem (outer : List (Frame α))
  /-- The name of a member must follow, or the end of an empty object. -/
  | name (outer : List (Frame α)) (written : List (String × Json α)) (mayEnd : Bool)
  /-- The name of a member was read. -/
  | named (outer : List (Frame α)) (written : List (String × Json α)) (name : String)
  /-- A value has ended. -/
  | ended (value : Json α) (outer : List (Frame α))

namespace Reading

variable {α : Type}

/-- The first token of a value. -/
def begin? (outer : List (Frame α)) : Token α → Option (Reading α)
  | .literal v => some (ended v outer)
  | .openArray => some (firstItem outer)
  | .openObject => some (name outer [] true)
  | _ => none

/-- Take one token. -/
def step? : Reading α → Token α → Option (Reading α)
  | value outer, token => begin? outer token
  | firstItem outer, .closeArray => some (ended (arr []) outer)
  | firstItem outer, token => begin? (.list [] :: outer) token
  | name outer written _, .literal (.str s) => some (named outer written s)
  | name outer _ true, .closeObject => some (ended (obj []) outer)
  | named outer written s, .colon => some (value (.record written s :: outer))
  | ended v (.list items :: outer), .comma => some (value (.list (v :: items) :: outer))
  | ended v (.list items :: outer), .closeArray => some (ended (arr (v :: items).reverse) outer)
  | ended v (.record written s :: outer), .comma => some (name outer ((s, v) :: written) false)
  | ended v (.record written s :: outer), .closeObject =>
    some (ended (obj ((s, v) :: written).reverse) outer)
  | _, _ => none

/-- The value of a reading that is complete. -/
def result? : Reading α → Option (Json α)
  | ended v [] => some v
  | _ => none

end Reading

variable {α : Type} [Scalar α]

/-- The value of a list of characters that holds exactly one value. -/
def ofChars? (text : List Char) : Option (Json α) := do
  let tokens ← Token.all? text
  let reading ← tokens.foldlM Reading.step? (.value [])
  reading.result?

/-- The value a text holds. -/
def ofString? (text : String) : Option (Json α) := ofChars? text.toList

/-- The value a file holds. A byte order mark at its start is passed over. -/
def ofBytes? (bytes : ByteArray) : Option (Json α) := do
  let text ← String.fromUTF8? bytes
  match text.toList with
  | '\ufeff' :: rest => ofChars? rest
  | text => ofChars? text

end Mannequin.Json
