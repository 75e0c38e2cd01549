import Concord.Json.Basic
import Concord.Store.Timestamp

/-!
# Numbers and moments in settings

Integers fit 64 bits and are written in base ten, sixteen, eight or two; an underscore may stand
between two numerals. A moment is a date, a time of day or both. It is read as a document with one field,
since nothing is configured by it.
-/

namespace Concord.Toml

/-! ### Numbers -/

/-- The numerals in front after a first one, without the underscores between them. -/
def moreNumerals? (ok : Char → Bool) : List Char → Option (List Char × List Char)
  | [] => some ([], [])
  | '_' :: d :: cs => if ok d then (moreNumerals? ok cs).map fun (ds, cs) => (d :: ds, cs) else none
  | d :: cs =>
    if ok d then (moreNumerals? ok cs).map fun (ds, cs) => (d :: ds, cs)
    else if d = '_' then none
    else some ([], d :: cs)

/-- The numerals in front, at least one. -/
def numerals? (ok : Char → Bool) : List Char → Option (List Char × List Char)
  | [] => none
  | d :: cs => if ok d then (moreNumerals? ok cs).map fun (ds, cs) => (d :: ds, cs) else none

/-- The whole part of a number, which starts with a zero only if it is one. -/
def whole? : List Char → Option (List Char × List Char)
  | '0' :: cs => some (['0'], cs)
  | cs => numerals? Char.isDigit cs

/-- An integer of 64 bits. -/
def integer? (v : Int) : Option Json :=
  if -0x8000000000000000 ≤ v ∧ v ≤ 0x7fffffffffffffff then some (.int v) else none

/-- A number with a sign. -/
def signed (negative : Bool) (x : Float) : Float := if negative then -x else x

/-- The base that a letter after a zero stands for. -/
def base? : Char → Option Nat
  | 'x' => some 16
  | 'o' => some 8
  | 'b' => some 2
  | _ => none

/-- Read an integer in a base other than ten. -/
def based? : List Char → Option (Json × List Char)
  | '0' :: letter :: cs => do
    let base ← base? letter
    let (ds, cs) ← numerals? (fun c => (Escape.hexDigit? c).any (· < base)) cs
    let j ← integer? (ds.foldl (fun n c => base * n + (Escape.hexDigit? c).getD 0) 0 : Nat)
    return (j, cs)
  | _ => none

/-- Read an exponent after its letter, as it is written without underscores. -/
def exponentText? (cs : List Char) : Option (List Char × List Char) :=
  match cs with
  | '+' :: cs => (numerals? Char.isDigit cs).map fun (ds, cs) => ('e' :: ds, cs)
  | '-' :: cs => (numerals? Char.isDigit cs).map fun (ds, cs) => ('e' :: '-' :: ds, cs)
  | cs => (numerals? Char.isDigit cs).map fun (ds, cs) => ('e' :: ds, cs)

/-- An exponent, if the letter of one is next. -/
def exponentPart? : List Char → Option (List Char × List Char)
  | c :: cs => if c = 'e' ∨ c = 'E' then exponentText? cs else some ([], c :: cs)
  | [] => some ([], [])

/-- A finite number, or a negative one beyond all finite ones. -/
def float? (negative : Bool) (digits : List Char) : Option Json := do
  let x ← Decimal.read? digits
  if x.isInf && !negative then none else return .float (signed negative x)

/-- Read a number in base ten after its sign. -/
def unsigned? (negative : Bool) (cs : List Char) : Option (Json × List Char) :=
  match cs with
  | 'i' :: 'n' :: 'f' :: cs => some (.float (signed negative (Float.ofBits 0x7ff0000000000000)), cs)
  | 'n' :: 'a' :: 'n' :: cs => some (.float (Float.ofBits 0x7ff8000000000000), cs)
  | cs => do
    let (whole, cs) ← whole? cs
    let (frac, cs) ← match cs with
      | '.' :: cs => (numerals? Char.isDigit cs).map fun (ds, cs) => ('.' :: ds, cs)
      | cs => some ([], cs)
    let (exponent, cs) ← exponentPart? cs
    if frac.isEmpty && exponent.isEmpty then
      let n : Int := Decimal.digitsValue whole
      return (← integer? (if negative then -n else n), cs)
    else return (← float? negative (whole ++ frac ++ exponent), cs)

/-- Read a number. -/
def number? (cs : List Char) : Option (Json × List Char) :=
  match cs with
  | '+' :: cs => unsigned? false cs
  | '-' :: cs => unsigned? true cs
  | cs => (based? cs).or (unsigned? false cs)

/-! ### Moments -/

/-- Read a number of two numerals within bounds. -/
def two? (low high : Nat) : List Char → Option (Nat × List Char)
  | a :: b :: cs =>
    let n := Decimal.digitsValue [a, b]
    if a.isDigit ∧ b.isDigit ∧ low ≤ n ∧ n ≤ high then some (n, cs) else none
  | _ => none

/-- Read a certain character. -/
def exactly? (c : Char) : List Char → Option (List Char)
  | d :: cs => if c = d then some cs else none
  | [] => none

/-- Read a date. -/
def date? (cs : List Char) : Option (List Char) := do
  let (century, cs) ← two? 0 99 cs
  let (year, cs) ← two? 0 99 cs
  let (month, cs) ← two? 1 12 (← exactly? '-' cs)
  let (_, cs) ← two? 1 (Timestamp.daysOf (100 * century + year) month) (← exactly? '-' cs)
  return cs

/-- Read a time of day. -/
def time? (cs : List Char) : Option (List Char) := do
  let (_, cs) ← two? 0 23 cs
  let (_, cs) ← two? 0 59 (← exactly? ':' cs)
  let (_, cs) ← two? 0 60 (← exactly? ':' cs)
  match cs with
  | '.' :: d :: rest => return if d.isDigit then rest.dropWhile Char.isDigit else cs
  | cs => return cs

/-- Skip an offset from universal time, if one is next. -/
def skipOffset (cs : List Char) : List Char :=
  match cs with
  | c :: rest =>
    if c = 'Z' ∨ c = 'z' then rest
    else if c = '+' ∨ c = '-' then
      (do
        let (_, cs) ← two? 0 23 rest
        let (_, cs) ← two? 0 59 (← exactly? ':' cs)
        return cs).getD cs
    else cs
  | [] => []

/-- Read a moment: a date, which a time of day and an offset may follow, or a time of day. -/
def moment? (cs : List Char) : Option (List Char) :=
  match date? cs with
  | none => time? cs
  | some cs =>
    match cs with
    | c :: rest =>
      if c = 'T' ∨ c = 't' ∨ c = ' ' then
        some (((time? rest).map skipOffset).getD cs)
      else some cs
    | [] => some []

/-- The name of the field under which a moment stands. -/
def momentField : String := "$__toml_private_datetime"

/-- Read a moment as a document. -/
def momentValue? (cs : List Char) : Option (Json × List Char) := do
  let rest ← moment? cs
  let written := cs.take (cs.length - rest.length)
  return (.obj [(momentField, .str (String.ofList written))], rest)

end Concord.Toml
