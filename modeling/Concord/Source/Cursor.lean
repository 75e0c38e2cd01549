import Concord.Source.Token
import Concord.Tree.Basic

/-!
# Reading positions

A reading position is the list of tokens that are still to come; its last token marks the end. A
line break counts or does not count depending on where it stands: it ends a simple statement, it is
passed by in the head of a compound statement, and it means nothing inside brackets. Where it is
passed by outside brackets, the next line must not be indented less than the block around it.
-/

namespace Concord.Source

/-- The tokens still to come. -/
abbrev Cursor := List Token

/-- What a line break means. -/
inductive LineBreak where
  | ends
  | passes
  | free
deriving Repr, DecidableEq

/-- Where an expression is read. -/
structure Context where
  /-- Indentation of the block around the position. -/
  indent : Nat := 0
  /-- What a line break after a complete expression means. -/
  breaks : LineBreak := .free
  /-- Whether a conditional expression may follow here without parentheses. -/
  ternary : Bool := true
  /-- Whether an expression may be followed by `as` and a target. -/
  aliasing : Bool := true

namespace Context

/-- The context inside brackets. -/
def inBrackets (ctx : Context) : Context := { indent := ctx.indent }

/-- The context of a part that cannot be the end of a statement. -/
def unfinished (ctx : Context) : Context :=
  { ctx with
    breaks := if ctx.breaks == .ends then .passes else ctx.breaks
    ternary := true
    aliasing := true }

/-- The context of a part that a conditional cannot follow. -/
def withoutTernary (ctx : Context) : Context := { ctx with ternary := false }

end Context

namespace Cursor

/-- Pass by comments and line continuations. -/
def skip (ts : Cursor) : Cursor := ts.dropWhile Token.isTrivia

/-- The next token that is no comment and no continuation. -/
def next (ts : Cursor) : Token := (Cursor.skip ts).headD default

/-- The position after the next token. -/
def advance (ts : Cursor) : Cursor := (Cursor.skip ts).tail

/-- The next token with the line break before it settled. -/
def settle (ts : Cursor) : Cursor :=
  match Cursor.skip ts with
  | .mk kind text gap column _ index holes :: rest => .mk kind text gap column none index holes :: rest
  | [] => []

/-- Whether a line starts here with less indentation than the block. A string may stand there. -/
def dedents (indent : Nat) (ts : Cursor) : Bool :=
  let low (t : Token) : Bool := t.line.any (· < indent)
  (ts.takeWhile Token.isTrivia).any (fun t => t.kind == .comment && low t) ||
    (let t := Cursor.next ts
     low t && !(t.text.toList.head?.any isStringQuote))

/-- The position at an operand, where a line break is passed by. -/
def operand? (ctx : Context) (ts : Cursor) : Option Cursor :=
  if Cursor.dedents ctx.indent ts then none else some (Cursor.skip ts)

/-- The text of the word or operator that follows a complete expression; empty where the line ends
or something else comes next. -/
def ahead (ctx : Context) (ts : Cursor) : String :=
  let t := Cursor.next ts
  let text := if t.kind == .word || t.kind == .op then t.text else ""
  match ctx.breaks with
  | .free => text
  | .ends => if t.line.isSome then "" else text
  | .passes => if Cursor.dedents ctx.indent ts then "" else text

/-- Take the word or operator `s` where it follows. -/
def expect? (ctx : Context) (s : String) (ts : Cursor) : Option Cursor :=
  if Cursor.ahead ctx ts == s then some (Cursor.advance ts) else none

/-- The line continuations before the next token. -/
def continuations (ts : Cursor) : List Expr :=
  ((ts.takeWhile Token.isTrivia).filter (·.kind == .continuation)).map (.verbatim ·.text)

/-- The source text between two positions, from the first token on. -/
def textUpTo (start finish : Cursor) : String :=
  let stop := match finish with
    | t :: _ => t.index
    | [] => 0
  match (Cursor.skip start).takeWhile (fun t => finish.isEmpty || t.index < stop) with
  | [] => ""
  | t :: ts => t.text ++ String.join (ts.map fun t => t.gap ++ t.text)

/-- The text between two positions as an expression. -/
def verbatim (start finish : Cursor) : Expr := .verbatim (Cursor.textUpTo start finish)

end Cursor

/-- A reader of something at a position. -/
abbrev Reader (α : Type) := Cursor → Option (α × Cursor)

/-- Words that are never identifiers. -/
def keywords : List String :=
  ["False", "None", "True", "and", "as", "assert", "break", "class", "continue", "def", "del",
    "elif", "else", "except", "finally", "for", "from", "global", "if", "import", "in", "is",
    "lambda", "nonlocal", "not", "or", "pass", "raise", "return", "try", "while", "with", "yield"]

/-- Whether a token is an identifier. -/
def Token.isIdentifier (t : Token) : Bool := t.kind == .word && !keywords.contains t.text

/-- Read an identifier where a line break is passed by. -/
def identifier (ctx : Context) : Reader String := fun ts => do
  let ts ← Cursor.operand? ctx ts
  let t := Cursor.next ts
  if t.isIdentifier then some (t.text, Cursor.advance ts) else none

/-- Read items divided by commas up to a closing bracket, which may follow a comma. Line
continuations between the items count as items where `extra` gives one for them. -/
def bracketItems {α : Type} (close : String) (extra : Option (Expr → α)) (item : Reader α) :
    Nat → List α → Cursor → Option (List α × Cursor)
  | 0, _, _ => none
  | fuel + 1, acc, ts =>
    let extras (ts : Cursor) : List α :=
      match extra with
      | some f => (Cursor.continuations ts).map f
      | none => []
    let acc := acc ++ extras ts
    if Cursor.ahead {} ts == close then some (acc, Cursor.advance ts)
    else
      match item (Cursor.settle ts) with
      | none => none
      | some (a, rest) =>
        let acc := acc ++ a :: extras rest
        let sep := Cursor.ahead {} rest
        if sep == "," then bracketItems close extra item fuel acc (Cursor.advance rest)
        else if sep == close then some (acc, Cursor.advance rest)
        else none

/-- Read one or more items divided by commas, with an optional comma at the end. The flag tells
whether a comma stands there. -/
def commaItems {α : Type} (ctx : Context) (extra : Option (Expr → α)) (item : Reader α) :
    Nat → Cursor → Option (List α × Bool × Cursor)
  | 0, _ => none
  | fuel + 1, ts => do
    let extras (ts : Cursor) : List α :=
      match extra with
      | some f => (Cursor.continuations ts).map f
      | none => []
    let (a, rest) ← item ts
    if Cursor.ahead ctx rest == "," then
      let after := Cursor.advance rest
      let finished := ctx.breaks == .ends && (Cursor.next after).line.isSome
      match if finished then none else commaItems ctx extra item fuel after with
      | some (more, _, last) => some (a :: extras rest ++ extras after ++ more, true, last)
      | none => some (a :: extras rest, true, after)
    else some ([a], false, rest)

end Concord.Source
