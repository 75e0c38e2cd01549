import Concord.Text.Blank

/-!
# Parts of a text

Looking for a text inside another: where it first stands, how often it stands without overlap, and
the pieces between its places.
-/

namespace Concord.Text

/-- What follows `part` at the front of a text. -/
def after? : List Char → List Char → Option (List Char)
  | [], cs => some cs
  | _ :: _, [] => none
  | p :: ps, c :: cs => if p = c then after? ps cs else none

theorem after?_eq_some_iff {part cs rest : List Char} :
    after? part cs = some rest ↔ cs = part ++ rest := by
  induction part generalizing cs with
  | nil => simp [after?, eq_comm]
  | cons p ps ih =>
    cases cs with
    | nil => simp [after?]
    | cons c cs =>
      by_cases h : p = c
      · simp [after?, h, ih]
      · simp [after?, h, Ne.symm h]

/-- Whether a text starts with another. -/
def startsWith (part cs : List Char) : Bool := (after? part cs).isSome

/-- Whether a text ends with another. -/
def endsWith (part cs : List Char) : Bool := startsWith part.reverse cs.reverse

/-- The number of characters before the first place of `part`. -/
def find? (part : List Char) : List Char → Option Nat
  | [] => if part.isEmpty then some 0 else none
  | c :: cs => if startsWith part (c :: cs) then some 0 else (find? part cs).map (· + 1)

/-- Whether a text holds another. -/
def holds (part cs : List Char) : Bool := (find? part cs).isSome

/-- The pieces of a text between the places of `part`, taken from the left without overlap. At least
one character is passed at every step. -/
def piecesFrom (part : List Char) : Nat → List Char → List (List Char)
  | 0, cs => [cs]
  | _ + 1, [] => [[]]
  | steps + 1, c :: cs =>
    match after? part (c :: cs) with
    | some rest => [] :: piecesFrom part steps rest
    | none =>
      match piecesFrom part steps cs with
      | [] => [[c]]
      | piece :: pieces => (c :: piece) :: pieces

/-- The pieces of a text between the places of a text that is not empty. -/
def pieces (part cs : List Char) : List (List Char) := piecesFrom part cs.length cs

/-- How often `part` stands in a text without overlap; the empty text stands before and after every
character. -/
def count (part cs : List Char) : Nat :=
  if part.isEmpty then cs.length + 1 else (pieces part cs).length - 1

/-- Put `new` in all places of `part`. -/
def replace (part new cs : List Char) : List Char :=
  if part.isEmpty then new ++ cs.flatMap (· :: new)
  else new.intercalate (pieces part cs)

end Concord.Text
