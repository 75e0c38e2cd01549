import Concord.Json.Basic

/-!
# Tables of settings

How the lines of a settings text add up to one document. A key is set once. A table is stated by one
header at most; one that is only passed through on the way to another may still be stated, and one that
was made by a dotted key may only be added to by dotted keys. Each header of an array of tables adds
one table to it, and later paths lead into the last one.
-/

namespace Concord.Toml

/-- How a table came to be. -/
inductive Origin where
  /-- It has a header of its own, or is the whole text. -/
  | stated
  /-- It is on the way to a table with a header. -/
  | passed
  /-- It is on the way to a key with dots. -/
  | dotted
deriving Repr, DecidableEq

/-- What stands under a key while a text is read. -/
inductive Node where
  | value (j : Json)
  | table (origin : Origin) (entries : List (String × Node))
  /-- An array of tables: those before the last one, and the last one. -/
  | tables (earlier : List (List (String × Node))) (last : List (String × Node))

/-- The keys of a table and what stands under them. -/
abbrev Entries := List (String × Node)

namespace Node

mutual

/-- The document of a node. -/
def toJson : Node → Json
  | value j => j
  | table _ entries => .obj (fieldsJson entries)
  | tables earlier last => .arr (tablesJson earlier ++ [.obj (fieldsJson last)])

/-- The fields of a table. -/
def fieldsJson : List (String × Node) → List (String × Json)
  | [] => []
  | (k, n) :: rest => (k, toJson n) :: fieldsJson rest

/-- The documents of tables. -/
def tablesJson : List (List (String × Node)) → List Json
  | [] => []
  | t :: ts => .obj (fieldsJson t) :: tablesJson ts

end

end Node

namespace Entries

/-- Put a node under a key, in the place of the one that was there. -/
def put : Entries → String → Node → Entries
  | [], k, n => [(k, n)]
  | (l, m) :: rest, k, n => if l = k then (k, n) :: rest else (l, m) :: put rest k n

/-- Change the table at the end of a path by `f`, which is given how that table came to be. Tables
that are missing on the way are made. A path of a dotted key does not lead into stated tables. -/
def change (byDots : Bool) (f : Origin → Entries → Option Entries) :
    List String → Origin → Entries → Option Entries
  | [], origin, entries => f origin entries
  | k :: path, _, entries =>
    match entries.lookup k with
    | none => do
      let origin := if byDots then Origin.dotted else .passed
      return entries.put k (.table origin (← change byDots f path origin []))
    | some (.table origin inner) =>
      if byDots ∧ origin = .stated then none
      else do return entries.put k (.table origin (← change byDots f path origin inner))
    | some (.tables earlier last) => do
      return entries.put k (.tables earlier (← change byDots f path .stated last))
    | some (.value _) => none

/-- Split a path into the way to its last key and that key. -/
def splitLast? (path : List String) : Option (List String × String) :=
  path.getLast?.map (path.dropLast, ·)

/-- Set a key with dots in a table that was stated: what it goes into is that table itself or one made
by dots. -/
def set? (entries : Entries) (path : List String) (j : Json) : Option Entries := do
  let (way, k) ← splitLast? path
  let add (origin : Origin) (entries : Entries) : Option Entries :=
    if (way.isEmpty || origin = .dotted) && (entries.lookup k).isNone then
      some (entries.put k (.value j))
    else none
  change true add way .stated entries

/-- Set a key with dots in the table that a header leads to. -/
def setUnder? (entries : Entries) (header path : List String) (j : Json) : Option Entries :=
  change false (fun _ inner => inner.set? path j) header .stated entries

/-- State a table by its header. -/
def state? (entries : Entries) (path : List String) : Option Entries := do
  let (way, k) ← splitLast? path
  let add (_ : Origin) (entries : Entries) : Option Entries :=
    match entries.lookup k with
    | none => some (entries.put k (.table .stated []))
    | some (.table .passed inner) => some (entries.put k (.table .stated inner))
    | some _ => none
  change false add way .stated entries

/-- Add a table to an array of tables by its header. -/
def append? (entries : Entries) (path : List String) : Option Entries := do
  let (way, k) ← splitLast? path
  let add (_ : Origin) (entries : Entries) : Option Entries :=
    match entries.lookup k with
    | none => some (entries.put k (.tables [] []))
    | some (.tables earlier last) => some (entries.put k (.tables (earlier ++ [last]) []))
    | some _ => none
  change false add way .stated entries

/-- The document of a table. -/
def toJson (entries : Entries) : Json := .obj (Node.fieldsJson entries)

end Entries

/-- A line of a settings text that says something. -/
inductive Line where
  | pair (path : List String) (value : Json)
  | header (path : List String)
  | arrayHeader (path : List String)

/-- The table that lines describe, from the one before them and the header that holds for them. -/
def build : List Line → List String → Entries → Option Entries
  | [], _, entries => some entries
  | .pair path j :: lines, header, entries =>
    (entries.setUnder? header path j).bind (build lines header)
  | .header path :: lines, _, entries => (entries.state? path).bind (build lines path)
  | .arrayHeader path :: lines, _, entries => (entries.append? path).bind (build lines path)

end Concord.Toml
