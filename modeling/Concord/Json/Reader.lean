import Concord.Json.Basic

/-!
# Reading documents

`Json.read?` reads a text that holds exactly one document. Nesting is limited; a number without a
fraction and an exponent is an integer if it fits 64 bits.
-/

namespace Concord.Json

/-- Blanks between the tokens of a document. -/
def isGap (c : Char) : Bool := c == ' ' || c == '\n' || c == '\t' || c == '\r'

/-- Skip blanks. -/
def skipGap (cs : List Char) : List Char := cs.dropWhile isGap

theorem skipGap_cons {c : Char} (h : isGap c = false) (cs : List Char) :
    skipGap (c :: cs) = c :: cs := by
  simp [skipGap, h]

/-! ### Numbers -/

/-- The first powers of ten, which a double holds up to 10 ^ 308. -/
def pow10 (n : Nat) : Float := Float.ofScientific 1 false n

/-- `significand * 10 ^ exponent` with one rounding of the significand and one for each scaling
step; `none` when the result is too large for a double. -/
def scaled? (significand : Nat) (exponent : Int) : Option Float :=
  let start := Float.ofNat significand
  let rec shrink : Nat → Float → Nat → Float
    | 0, f, _ => f
    | fuel + 1, f, n =>
      if n ≤ 308 then f / pow10 n
      else if f == 0 then f
      else shrink fuel (f / pow10 308) (n - 308)
  if 0 ≤ exponent then
    if 308 < exponent then (if start == 0 then some start else none)
    else
      let f := start * pow10 exponent.toNat
      if f.isInf then none else some f
  else some (shrink 4 start (-exponent).toNat)

/-- The greatest significand that is kept; digits that would pass it are dropped. -/
def maxSignificand : Nat := 0xffffffffffffffff

/-- Take up digits while the significand fits: the significand, the number of digits taken and the
digits that were dropped. -/
def takeDigits : Nat → Nat → List Char → Nat × Nat × List Char
  | significand, taken, [] => (significand, taken, [])
  | significand, taken, d :: ds =>
    let next := 10 * significand + (d.toNat - '0'.toNat)
    if next ≤ maxSignificand then takeDigits next (taken + 1) ds
    else (significand, taken, d :: ds)

/-- The exponent part of a number, or zero where there is none; `none` where it is malformed. -/
def exponent? (cs : List Char) : Option (Int × List Char) :=
  match cs with
  | c :: rest =>
    if c == 'e' || c == 'E' then
      let (negative, rest) := match rest with
        | '-' :: r => (true, r)
        | '+' :: r => (false, r)
        | r => (false, r)
      let digits := rest.takeWhile Char.isDigit
      if digits.isEmpty then none
      else
        let e : Int := Decimal.digitsValue digits
        some (if negative then -e else e, rest.dropWhile Char.isDigit)
    else some (0, cs)
  | [] => some (0, [])

/-- Read a number after its sign. -/
def number? (negative : Bool) (cs : List Char) : Option (Json × List Char) := do
  let whole := cs.takeWhile Char.isDigit
  let rest := cs.dropWhile Char.isDigit
  if whole.isEmpty || (whole.head? == some '0' && 1 < whole.length) then none
  let (significand, _, dropped) := takeDigits 0 0 whole
  let sign (f : Float) : Json := .float (if negative then -f else f)
  match rest with
  | '.' :: tail =>
    let frac := tail.takeWhile Char.isDigit
    if frac.isEmpty then none
    let (significand, taken, _) :=
      if dropped.isEmpty then takeDigits significand 0 frac else (significand, 0, frac)
    let (e, rest) ← exponent? (tail.dropWhile Char.isDigit)
    let f ← scaled? significand (e + dropped.length - taken)
    return (sign f, rest)
  | _ =>
    let (e, after) ← exponent? rest
    if after.length < rest.length || !dropped.isEmpty then
      let f ← scaled? significand (e + dropped.length)
      return (sign f, after)
    else if !negative then return (.int significand, rest)
    else if significand = 0 || 0x8000000000000000 < significand then
      return (.float (-(Float.ofNat significand)), rest)
    else return (.int (-(significand : Int)), rest)

/-! ### Strings -/

/-- Four hexadecimal numerals. -/
def unit? : List Char → Option (Nat × List Char)
  | a :: b :: c :: d :: rest => (Escape.hexDigits? [a, b, c, d]).map (·, rest)
  | _ => none

/-- A character by its code units: one, or a pair of surrogates. -/
def unitChar? (cs : List Char) : Option (Char × List Char) := do
  let (u, rest) ← unit? cs
  if u < 0xD800 || 0xDFFF < u then return (Char.ofNat u, rest)
  else if 0xDC00 ≤ u then none
  else
    match rest with
    | '\\' :: 'u' :: rest =>
      let (v, rest) ← unit? rest
      if 0xDC00 ≤ v && v ≤ 0xDFFF then
        return (Char.ofNat (0x10000 + (u - 0xD800) * 0x400 + (v - 0xDC00)), rest)
      else none
    | _ => none

/-- The character of an escape by one letter. -/
def simpleEscape? : Char → Option Char
  | '"' => some '"'
  | '\\' => some '\\'
  | '/' => some '/'
  | 'b' => some '\x08'
  | 'f' => some '\x0c'
  | 'n' => some '\n'
  | 'r' => some '\r'
  | 't' => some '\t'
  | _ => none

/-- Read a string after its opening quote, with the characters read so far in reverse. -/
def string? : Nat → List Char → List Char → Option (String × List Char)
  | 0, _, _ => none
  | _ + 1, _, [] => none
  | fuel + 1, acc, c :: cs =>
    if c = '"' then some (String.ofList acc.reverse, cs)
    else if c = '\\' then
      match cs with
      | [] => none
      | e :: rest =>
        if e = 'u' then
          (unitChar? rest).bind fun (d, rest) => string? fuel (d :: acc) rest
        else (simpleEscape? e).bind fun d => string? fuel (d :: acc) rest
    else if c.toNat < 0x20 then none
    else string? fuel (c :: acc) cs

/-- Read a string after its opening quote. -/
def stringBody? (cs : List Char) : Option (String × List Char) := string? (cs.length + 1) [] cs

/-! ### Documents -/

/-- Read items divided by commas up to a closing character. -/
def items? {α : Type} (close : Char) (item : List Char → Option (α × List Char)) :
    Nat → List α → List Char → Option (List α × List Char)
  | 0, _, _ => none
  | fuel + 1, acc, cs => do
    let (a, rest) ← item cs
    match skipGap rest with
    | ',' :: rest => items? close item fuel (a :: acc) rest
    | c :: rest => if c = close then some ((a :: acc).reverse, rest) else none
    | [] => none

/-- Read the field of an object with the given reader of values. -/
def fieldOf? (value : List Char → Option (Json × List Char)) (cs : List Char) :
    Option ((String × Json) × List Char) := do
  match skipGap cs with
  | '"' :: rest =>
    let (name, rest) ← stringBody? rest
    match skipGap rest with
    | ':' :: rest =>
      let (j, rest) ← value rest
      return ((name, j), rest)
    | _ => none
  | _ => none

/-- Read one document, at most `depth` levels deep. -/
def value? : Nat → List Char → Option (Json × List Char)
  | depth, cs =>
    match skipGap cs with
    | 'n' :: 'u' :: 'l' :: 'l' :: rest => some (.null, rest)
    | 't' :: 'r' :: 'u' :: 'e' :: rest => some (.bool true, rest)
    | 'f' :: 'a' :: 'l' :: 's' :: 'e' :: rest => some (.bool false, rest)
    | '"' :: rest => (stringBody? rest).map fun (s, rest) => (.str s, rest)
    | '-' :: rest => number? true rest
    | '[' :: rest =>
      match depth with
      | 0 => none
      | depth + 1 =>
        match skipGap rest with
        | ']' :: rest => some (.arr [], rest)
        | _ => (items? ']' (value? depth) rest.length [] rest).map fun (js, rest) => (.arr js, rest)
    | '\x7b' :: rest =>
      match depth with
      | 0 => none
      | depth + 1 =>
        match skipGap rest with
        | '\x7d' :: rest => some (.obj [], rest)
        | _ =>
          (items? '\x7d' (fieldOf? (value? depth)) rest.length [] rest).map fun (fs, rest) =>
            (.obj fs, rest)
    | cs => number? false cs

theorem value?_minus (depth : Nat) (cs : List Char) :
    value? depth ('-' :: cs) = number? true cs := by
  rw [value?, skipGap_cons (by decide)]
  simp

/-- Levels of nesting that are read. -/
def maxDepth : Nat := 127

/-- Read a text that holds one document and nothing else but blanks. -/
def read? (text : String) : Option Json :=
  match value? maxDepth text.toList with
  | some (j, rest) => if (skipGap rest).isEmpty then some j else none
  | none => none

end Concord.Json
