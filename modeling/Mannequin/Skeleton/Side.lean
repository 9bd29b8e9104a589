/-!
# Sides of a body

Names of bones tell their side by a marker: a letter after an underscore at the
end of the name, or a letter between two underscores inside it. The opposite
name has the opposite letters.
-/

namespace Mannequin.Side

/-- The letters that mark a side, each with its opposite. -/
def letters : List (Char × Char) := [('l', 'r'), ('L', 'R'), ('r', 'l'), ('R', 'L')]

/-- The letter for the other side. -/
def opposite? (c : Char) : Option Char := letters.lookup c

/-- The name with the opposite marker at its end, if it ends in one. -/
def swapEnd? (name : List Char) : Option (List Char) :=
  match name.reverse with
  | c :: '_' :: rest => (opposite? c).map fun d => (d :: '_' :: rest).reverse
  | _ => none

/-- Whether a letter stands between two underscores. -/
def hasInner (c : Char) : List Char → Bool
  | '_' :: d :: '_' :: rest => d = c || hasInner c (d :: '_' :: rest)
  | _ :: rest => hasInner c rest
  | [] => false

/-- The name with a letter between two underscores replaced throughout. An
underscore belongs to one marker only. -/
def replaceInner (c d : Char) : List Char → List Char
  | x :: y :: z :: rest =>
    if x = '_' ∧ y = c ∧ z = '_' then '_' :: d :: '_' :: replaceInner c d rest
    else x :: replaceInner c d (y :: z :: rest)
  | short => short

/-- The name of the bone on the other side. A name without a marker is its own opposite. -/
def mirrorChars (name : List Char) : List Char :=
  match swapEnd? name with
  | some swapped => swapped
  | none =>
    match letters.find? fun (c, _) => hasInner c name with
    | some (c, d) => replaceInner c d name
    | none => name

/-- The name of the bone on the other side. -/
def mirrorName (name : String) : String := String.ofList (mirrorChars name.toList)

end Mannequin.Side
