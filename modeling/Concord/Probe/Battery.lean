import Concord.Probe.Domain
import Concord.Text.Names

/-!
# Inputs of a probe

Each domain has a fixed battery of arguments; those of texts and of mixed values also get the string
literals of the programs. A round takes one entry of each parameter's battery, at positions that move
on together; the distance between the positions of neighbouring parameters is the stride.
-/

namespace Concord

/-- An argument of a probe. -/
inductive Seed where
  | int (i : Int)
  | text (s : String)
  | ints (items : List Int)
deriving Repr, DecidableEq

namespace Seed

/-- How many literals are added to a battery at most. -/
def maxLiterals : Nat := 16

/-- The text of an expression that is a string literal. -/
def literal? : Expr → Option String
  | .str lit => if lit.bytes then none else some lit.value
  | _ => none

/-- The string literals of two modules, in increasing order, as far as they are added. -/
def literals (before after : Module) : List Seed :=
  ((Names.ofList ((Block.exprs (before.body ++ after.body)).filterMap literal?)).take
    maxLiterals).map text

/-- The fixed battery of a domain. Mixed values go round through integers, texts and lists, so that
entries three apart are of one type. -/
def base : Domain → List Seed
  | .numeric => [int 0, int 1, int 2, int 3, int 7, int (-5), int 10]
  | .text =>
    [text "", text "a", text "abc", text "Hello World", text "  padded  ", text "racecar",
      text "a1b2"]
  | .sequence => [ints [], ints [1], ints [3, 1, 2], ints [5, -2, 5, 0], ints [1, 2, 3, 4, 5, 6]]
  | .any =>
    [int 0, text "abc", ints [3, 1, 2], int 7, text "xy", ints [5], int (-1), text "", ints []]

/-- Append the seeds that are not there yet. -/
def append (seeds new : List Seed) : List Seed :=
  new.foldl (fun acc s => if acc.contains s then acc else acc ++ [s]) seeds

/-- The battery of a domain, with literals where they belong. -/
def battery (literals : List Seed) (d : Domain) : List Seed :=
  match d with
  | .text | .any => append (base d) literals
  | _ => base d

/-- Distances between the positions of neighbouring parameters: the same entry, the next one, and the
next one of the same type among mixed values. -/
def strides : List Nat := [0, 1, 3]

/-- The entries that one round takes from the batteries, the first at position `place`. -/
def round (stride : Nat) : Nat → List (List Seed) → List Seed
  | _, [] => []
  | place, b :: bs => (b[place % b.length]?).getD (int 0) :: round stride (place + stride) bs

/-- All different rounds, as many for each stride as the longest battery has entries. With a single
parameter all strides are alike, and with none there is one round. -/
def rounds (batteries : List (List Seed)) : List (List Seed) :=
  let count := ((batteries.map List.length).max?).getD 1
  let all := (strides.take (if 1 < batteries.length then strides.length else 1)).flatMap
    fun stride => (List.range count).map fun place => round stride place batteries
  all.foldl (fun acc r => if acc.contains r then acc else acc ++ [r]) []

end Seed

end Concord
