import Concord.Machine.Value
import Concord.Number.Decimal

/-!
# Texts of values

How the machine writes a value: as a literal of the program (`Heap.repr`), and as the text that
conversion to a string gives (`Heap.display`).
-/

namespace Concord.Machine

/-- The part of a double before the point. -/
def truncate (x : Float) : Float := if x < 0 then x.ceil else x.floor

/-- The text of a double: whole numbers below `10 ^ 16` end in `.0`, all others are written with the
fewest digits that read back, without an exponent. -/
def floatText (x : Float) : String :=
  if x.isNaN then "nan"
  else if x.isInf then if 0 < x then "inf" else "-inf"
  else if x == truncate x && x.abs < 1e16 then Decimal.fixedFloat 1 x
  else Decimal.ofFloat x

/-- A text in quotes: double quotes exactly if it holds single quotes and no double ones. Only the
backslash, the line feed, the tab and the quote itself are escaped. -/
def quoted (s : String) : String :=
  let cs := s.toList
  let quote := if cs.contains '\x27' && !cs.contains '"' then '"' else '\x27'
  let escape (c : Char) : List Char :=
    if c == '\\' then ['\\', '\\']
    else if c == '\n' then ['\\', 'n']
    else if c == '\t' then ['\\', 't']
    else if c == quote then ['\\', c]
    else [c]
  String.ofList (quote :: cs.flatMap escape ++ [quote])

namespace Heap

variable (h : Heap)

/-- The text of a value, with containers entered `n` deep. -/
def reprWithin : Nat → Value → String
  | 0, _ => "..."
  | n + 1, v =>
    let joined (items : List Value) := ", ".intercalate (items.map (reprWithin n))
    match v with
    | .none => "None"
    | .bool b => if b then "True" else "False"
    | .int i => i.repr
    | .float x => floatText x
    | .str s => quoted s
    | .list r => "[" ++ joined (h.list r) ++ "]"
    | .tuple r =>
      match h.tuple r with
      | [item] => "(" ++ reprWithin n item ++ ",)"
      | items => "(" ++ joined items ++ ")"
    | .set r =>
      match h.set r with
      | [] => "set()"
      | items => "\x7b" ++ joined items ++ "\x7d"
    | .dict r =>
      "\x7b" ++ ", ".intercalate
        ((h.dict r).map fun (k, v) => reprWithin n k ++ ": " ++ reprWithin n v) ++ "\x7d"
    | .range start stop step =>
      if step == 1 then s!"range({start.repr}, {stop.repr})"
      else s!"range({start.repr}, {stop.repr}, {step.repr})"
    | .function r => "<function " ++ h.functionName r ++ ">"
    | .builtin b => s!"<built-in function {b.label}>"
    | .method receiver name => s!"<bound method {receiver.typeName}.{name}>"
    | .exceptionType c => s!"<class '{c.label}'>"
    | .exception r => (h.exception r).kind.label ++ "(" ++ quoted (h.exception r).message ++ ")"

/-- The text of a value as a literal of the program. -/
def repr (v : Value) : String := h.reprWithin h.depth v

/-- The text that conversion to a string gives. -/
def display : Value → String
  | .str s => s
  | .exception r => (h.exception r).message
  | v => h.repr v

end Heap

end Concord.Machine
