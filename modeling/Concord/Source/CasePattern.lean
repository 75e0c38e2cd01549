import Concord.Source.Expression

/-!
# Reading case patterns

The patterns of a `case` clause. A match statement is kept as written, so its patterns are only
checked for their form: `casePattern` gives the position after a pattern.
-/

namespace Concord.Source

/-- A check for a form at a position: the position after it. -/
abbrev Check := Cursor → Option Cursor

/-- Items divided by commas up to a closing bracket, which may follow a comma. -/
def checkItems (close : String) (item : Check) (ts : Cursor) : Option Cursor :=
  (bracketItems close none (fun ts => (item ts).map ((), ·)) (ts.length + 1) [] ts).map (·.2)

/-- Identifiers divided by points. -/
def dottedName (ctx : Context) : Nat → Reader Unit
  | 0, _ => none
  | fuel + 1, ts => do
    let (_, rest) ← identifier ctx ts
    if Cursor.ahead ctx rest == "." then dottedName ctx fuel (Cursor.advance rest)
    else some ((), rest)

/-- A number with an optional minus sign, or a sum of two as of a complex number. -/
def numberPattern (ctx : Context) : Check := fun ts => do
  let number : Check := fun ts =>
    let t := Cursor.next ts
    if t.kind == .int || t.kind == .float then some (Cursor.advance ts) else none
  let ts := if (Cursor.next ts).text == "-" then Cursor.advance ts else ts
  let rest ← number ts
  let s := Cursor.ahead ctx rest
  if s == "+" || s == "-" then number (Cursor.advance rest) else some rest

section

variable (self : ExprReader)

/-- A pattern without alternatives, given the reader of whole patterns. -/
def closedPattern (ctx : Context) (inner : Check) : Check := fun ts => do
  let ts ← Cursor.operand? ctx ts
  let t := Cursor.next ts
  let rest := Cursor.advance ts
  match t.kind with
  | .string => (strings self ctx ts).map (·.2)
  | .int | .float => numberPattern ctx ts
  | .word =>
    if (constant? t.text).isSome then some rest
    else
      let (_, rest) ← dottedName ctx (ts.length + 1) ts
      if Cursor.ahead ctx rest == "(" then checkItems ")" inner (Cursor.advance rest)
      else some rest
  | .op =>
    match t.text with
    | "-" => numberPattern ctx ts
    | "*" | "**" => (identifier ctx rest).map (·.2)
    | "(" => checkItems ")" inner rest
    | "[" => checkItems "]" inner rest
    | "\x7b" =>
      checkItems "\x7d" (fun ts => do
        if (Cursor.next ts).text == "**" || (Cursor.next ts).text == "*" then
          (identifier ctx.inBrackets (Cursor.advance ts)).map (·.2)
        else
          let ts ← inner ts
          let ts ← Cursor.expect? ctx.inBrackets ":" ts
          inner ts) rest
    | _ => none
  | _ => none

/-- Patterns divided by bars. -/
def orPattern (ctx : Context) (inner : Check) : Nat → Check
  | 0, _ => none
  | fuel + 1, ts => do
    let rest ← closedPattern self ctx inner ts
    if Cursor.ahead ctx rest == "|" then orPattern ctx inner fuel (Cursor.advance rest)
    else some rest

/-- A pattern, nested at most `depth` levels deep: alternatives, with an optional name bound to
them, or a keyword and its pattern. -/
def casePattern (ctx : Context) : Nat → Check
  | 0, _ => none
  | depth + 1, ts => do
    let inner := casePattern ctx.inBrackets depth
    let t := Cursor.next ts
    let after := Cursor.advance ts
    if t.isIdentifier && Cursor.ahead ctx after == "=" then
      orPattern self ctx inner (ts.length + 1) (Cursor.advance after)
    else
      let rest ← orPattern self ctx inner (ts.length + 1) ts
      let rec bound : Nat → Check
        | 0, ts => some ts
        | fuel + 1, ts =>
          if Cursor.ahead ctx ts == "as" then do
            let (_, rest) ← identifier ctx (Cursor.advance ts)
            bound fuel rest
          else some ts
      bound rest.length rest

end

end Concord.Source
