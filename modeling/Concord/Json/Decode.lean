import Concord.Json.Basic
import Concord.Text.Names

/-!
# Decoding documents

Readers for the plain kinds of values, and for records. A record is read from an object by the names
of its fields, or from the array of its fields in order; unknown fields are ignored.
-/

namespace Concord.Json

/-- The fields of a record by their names: from an object, or from the array of all of them. -/
def record? (names : List String) : Json → Option (List (Option Json))
  | .obj fields => some (names.map fun n => (Json.obj fields).field? n)
  | .arr items => if items.length = names.length then some (items.map some) else none
  | _ => none

/-- The fields of a record whose last ones may be missing also from an array. -/
def openRecord? (names : List String) : Json → Option (List (Option Json))
  | .arr items =>
    if items.length ≤ names.length then
      some (items.map some ++ List.replicate (names.length - items.length) none)
    else none
  | j => j.record? names

/-- A count. -/
def nat? : Json → Option Nat
  | .int v => if 0 ≤ v then some v.toNat else none
  | _ => none

/-- A truth value. -/
def bool? : Json → Option Bool
  | .bool b => some b
  | _ => none

/-- A text. -/
def str? : Json → Option String
  | .str s => some s
  | _ => none

/-- A number. -/
def float? : Json → Option Float
  | .int v => some (Float.ofInt v)
  | .float x => some x
  | _ => none

/-- An array of values read by `f`. -/
def list? {α : Type} (f : Json → Option α) : Json → Option (List α)
  | .arr items => items.mapM f
  | _ => none

/-- An array of texts. -/
def strs? : Json → Option (List String) := list? str?

/-- A set of texts. -/
def strSet? (j : Json) : Option (List String) := j.strs?.map Names.ofList

/-- A value read by `f`, or null. -/
def orNull? {α : Type} (f : Json → Option α) : Json → Option (Option α)
  | .null => some none
  | j => (f j).map some

/-- The entries of an object in increasing order of their names; the last one of a name counts. -/
def entries? {α : Type} (value : Json → Option α) : Json → Option (List (String × α))
  | .obj fields => do
    let read ← fields.mapM fun (k, j) => (value j).map (k, ·)
    some ((Names.ofList (read.map (·.1))).filterMap fun k =>
      (read.reverse.lookup k).map (k, ·))
  | _ => none

/-- A required field read by `f`. -/
def need {α : Type} (f : Json → Option α) (j : Option Json) : Option α := j.bind f

/-- A field read by `f` where a missing one counts as null. -/
def optional {α : Type} (f : Json → Option α) (j : Option Json) : Option (Option α) :=
  orNull? f (j.getD .null)

/-- A field read by `f` where a missing one has a default. -/
def withDefault {α : Type} (default : α) (f : Json → Option α) : Option Json → Option α
  | none => some default
  | some j => f j

end Concord.Json
