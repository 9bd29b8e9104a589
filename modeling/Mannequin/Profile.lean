import Mannequin.Error
import Mannequin.Location
import Mannequin.Json

/-!
# Profiles

A profile is the outline of a cross-section: a square, a rectangle, or a circle
of so many segments. It is written as a word or as a call with the number of
segments, and white space around the word and around the number is ignored.
-/

namespace Mannequin

inductive ProfileKind where
  | circle
  | square
  | rectangle
  deriving DecidableEq, Repr

/-- The outline of a cross-section. -/
structure Profile where
  kind : ProfileKind
  segments : Nat
  deriving DecidableEq, Repr

/-- Why a value is no profile. -/
inductive ProfileFault where
  | notText (typeName : String)
  | unknown (text : String)
  | segmentText (text : String)
  | tooFew (segments : Nat)
  deriving DecidableEq, Repr

namespace ProfileKind

def name : ProfileKind → String
  | circle => "circle"
  | square => "square"
  | rectangle => "rectangle"

end ProfileKind

namespace Profile

/-- The number of segments of a profile that is left out, unless settings say otherwise. -/
def standardSegments : Nat := 12

/-- The least number of segments of a circle. -/
def minSegments : Nat := 3

/-- What may be written for a profile, as it is quoted in every refusal. -/
def grammar : String :=
  "expected one of: null, 'square', 'rectangle', 'circle(N)', 'hexagon(N)' with integer N >= 3"

end Profile

instance : Cause ProfileFault where
  kind
    | .notText _ => .shape
    | .unknown _ => .shape
    | .segmentText _ => .shape
    | .tooFew _ => .range
  message fault :=
    let what := match fault with
      | .notText typeName => "profile must be a string, got " ++ typeName
      | .unknown text => "unknown profile '" ++ text ++ "'"
      | .segmentText text => "invalid profile segment count '" ++ text ++ "'"
      | .tooFew segments => "profile segments must be >= 3, got " ++ toString segments
    what ++ "; " ++ Profile.grammar

namespace Profile

/-- The white space of ASCII. -/
def isBlank (c : Char) : Bool :=
  c = ' ' || c = '\t' || c = '\n' || c = '\x0b' || c = '\x0c' || c = '\r'

/-- A text without the white space at its ends. -/
def trim (text : List Char) : List Char :=
  ((text.dropWhile isBlank).reverse.dropWhile isBlank).reverse

/-- What stands between the parentheses of a call of the given name. -/
def callArgument? (name text : List Char) : Option (List Char) :=
  let opening := name ++ ['(']
  if opening.isPrefixOf text ∧ opening.length < text.length ∧ text.getLast? = some ')' then
    some (text.drop opening.length).dropLast
  else none

/-- The number that one to nine decimal digits stand for. -/
def segments? (digits : List Char) : Option Nat :=
  if digits ≠ [] ∧ digits.length ≤ 9 ∧ digits.all Char.isDigit then
    some (digits.foldl (fun n c => n * 10 + (c.toNat - '0'.toNat)) 0)
  else none

/-- The circle whose number of segments a text gives. -/
def circleOf (text : List Char) : Except ProfileFault Profile :=
  match segments? (trim text) with
  | none => .error (.segmentText (String.ofList text))
  | some n => if n < minSegments then .error (.tooFew n) else .ok ⟨.circle, n⟩

/-- The profile that a text writes. A hexagon is a circle of the given number of segments. -/
def ofChars (raw : List Char) : Except ProfileFault Profile :=
  let text := trim raw
  if text = "square".toList then .ok ⟨.square, 4⟩
  else if text = "rectangle".toList then .ok ⟨.rectangle, 4⟩
  else
    match (callArgument? "circle".toList text).or (callArgument? "hexagon".toList text) with
    | some argument => circleOf argument
    | none => .error (.unknown (String.ofList raw))

/-- The profile that a text writes. -/
def ofString (loc : Location) (text : String) : Except Error Profile :=
  (ofChars text.toList).mapError (Cause.error · loc.render)

/-- The profile that a value writes; null stands for a circle. -/
def ofJson {α : Type} (loc : Location) (defaultSegments : Nat) : Json α → Except Error Profile
  | .null => .ok ⟨.circle, defaultSegments⟩
  | .str text => ofString loc text
  | value => refuse (ProfileFault.notText value.typeName) loc.render

end Profile

end Mannequin
