import Concord.Toml.Lexeme
import Concord.Toml.Number
import Concord.Toml.Table

/-!
# Reading settings

`Toml.read?` reads a settings text in the TOML format as one document.
-/

namespace Concord.Toml

/-- Read the items of an array after its opening bracket. A comma may follow the last one. -/
def items? (value : List Char → Option (Json × List Char)) :
    Nat → List Json → List Char → Option (List Json × List Char)
  | 0, _, _ => none
  | fuel + 1, acc, cs =>
    match skipLines false cs with
    | ']' :: cs => some (acc.reverse, cs)
    | cs => do
      let (j, cs) ← value cs
      match skipLines false cs with
      | ',' :: cs => items? value fuel (j :: acc) cs
      | ']' :: cs => some ((j :: acc).reverse, cs)
      | _ => none

/-- Read a path, a sign of equality and a value. -/
def pair? (value : List Char → Option (Json × List Char)) (cs : List Char) :
    Option ((List String × Json) × List Char) := do
  let (path, cs) ← path? cs
  match cs with
  | '=' :: cs =>
    let (j, cs) ← value (skipGap cs)
    return ((path, j), cs)
  | _ => none

/-- Read the pairs of a table between braces, at least one, after what was read before. -/
def pairs? (value : List Char → Option (Json × List Char)) :
    Nat → Entries → List Char → Option (Entries × List Char)
  | 0, _, _ => none
  | fuel + 1, entries, cs => do
    let ((path, j), cs) ← pair? value cs
    let entries ← entries.set? path j
    match skipGap cs with
    | ',' :: cs => pairs? value fuel entries cs
    | '\x7d' :: cs => some (entries, cs)
    | _ => none

/-- Read one value, at most `depth` levels deep. -/
def value? : Nat → List Char → Option (Json × List Char)
  | depth, cs =>
    match cs with
    | 't' :: 'r' :: 'u' :: 'e' :: cs => some (.bool true, cs)
    | 'f' :: 'a' :: 'l' :: 's' :: 'e' :: cs => some (.bool false, cs)
    | '"' :: cs => (string? '"' cs).map fun (s, cs) => (.str s, cs)
    | '\x27' :: cs => (string? '\x27' cs).map fun (s, cs) => (.str s, cs)
    | '[' :: cs =>
      match depth with
      | 0 => none
      | depth + 1 =>
        (items? (value? depth) (cs.length + 1) [] cs).map fun (js, cs) => (.arr js, cs)
    | '\x7b' :: cs =>
      match depth with
      | 0 => none
      | depth + 1 =>
        match skipGap cs with
        | '\x7d' :: cs => some (.obj [], cs)
        | _ => (pairs? (value? depth) (cs.length + 1) [] cs).map fun (es, cs) => (es.toJson, cs)
    | cs => (momentValue? cs).or (number? cs)

/-- Read the header of a table after its opening brackets. -/
def header? (closing : List Char) (cs : List Char) : Option (List String × List Char) := do
  let (path, cs) ← path? cs
  if closing.isPrefixOf cs then return (path, ← endOfLine? (cs.drop closing.length)) else none

/-- Read the lines of a text, those that say nothing left out. -/
def lines? : Nat → List Char → Option (List Line)
  | 0, _ => none
  | fuel + 1, cs =>
    match skipLines false cs with
    | [] => some []
    | '[' :: '[' :: cs => do
      let (path, cs) ← header? [']', ']'] cs
      return .arrayHeader path :: (← lines? fuel cs)
    | '[' :: cs => do
      let (path, cs) ← header? [']'] cs
      return .header path :: (← lines? fuel cs)
    | cs => do
      let ((path, j), cs) ← pair? (value? (limit - 1)) cs
      return .pair path j :: (← lines? fuel (← endOfLine? cs))

/-- A text without the mark of byte order that may stand in front. -/
def dropMark : List Char → List Char
  | c :: cs => if c = '\ufeff' then cs else c :: cs
  | [] => []

/-- Read a settings text. -/
def read? (text : String) : Option Json := do
  let cs := dropMark text.toList
  let lines ← lines? (cs.length + 1) cs
  return (← build lines [] []).toJson

end Concord.Toml
