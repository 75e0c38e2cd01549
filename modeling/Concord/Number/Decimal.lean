import Concord.Number.Binary

/-!
# Decimal texts of numbers

`Decimal.shortest` finds the fewest decimal digits that read back as a given binary number, and of
those the nearest; `Decimal.plain` writes them without an exponent, which is how numbers appear in
every report. `Decimal.fixed` writes a given number of places, a half going to the even neighbour.
`Decimal.read?` reads the same notation back.
-/

namespace Concord

/-- The number `digits * 10 ^ exponent`. -/
structure Decimal where
  digits : Nat
  exponent : Int
deriving Repr, DecidableEq

namespace Decimal

/-- The numerals of a natural number, most significant first. -/
def numerals (n : Nat) : List Char := Nat.toDigits 10 n

/-- The least `j ≥ 1` with `den ≤ num * 10 ^ j`, looked for among the next `fuel` powers. -/
def leadingZeros (num den : Nat) : Nat → Nat
  | 0 => 1
  | fuel + 1 => if den ≤ num * 10 then 1 else leadingZeros (num * 10) den fuel + 1

/-- The exponent of the first decimal digit of the positive number `num / den`. -/
def leadingExponent (num den : Nat) : Int :=
  if den ≤ num then ((numerals (num / den)).length : Int) - 1
  else -(leadingZeros num den den.log2 : Int)

/-- `num / den` in units of `10 ^ unit`, as a fraction. -/
def inUnits (num den : Nat) (unit : Int) : Nat × Nat :=
  if 0 ≤ unit then (num, den * Nat.pow 10 unit.toNat) else (num * Nat.pow 10 (-unit).toNat, den)

/-- The interval of reals that read back as a binary number, over a common denominator: its lower
end, the number itself and its upper end. The ends belong to it when the mantissa is even. -/
structure Interval where
  low : Nat
  value : Nat
  high : Nat
  den : Nat
  closed : Bool

/-- The rounding interval of a binary number. Below a power of two the neighbours lie closer. -/
def intervalOf (b : Binary) : Interval :=
  let below := if b.mantissa = Nat.pow 2 52 ∧ Binary.minExponent < b.exponent then 1 else 2
  let at4 (n : Nat) : Nat × Nat := Binary.scale n 1 (b.exponent - 2)
  { low := (at4 (4 * b.mantissa - below)).1
    value := (at4 (4 * b.mantissa)).1
    high := (at4 (4 * b.mantissa + 2)).1
    den := (at4 1).2
    closed := b.mantissa % 2 = 0 }

/-- Whether `c * 10 ^ unit` lies in the interval. -/
def Interval.holds (i : Interval) (c : Nat) (unit : Int) : Bool :=
  let (n, d) := if 0 ≤ unit then (c * Nat.pow 10 unit.toNat, 1) else (c, Nat.pow 10 (-unit).toNat)
  let n := n * i.den
  if i.closed then i.low * d ≤ n && n ≤ i.high * d else i.low * d < n && n < i.high * d

/-- The point of the grid of multiples of `10 ^ unit` that reads back, if there is one: of the two
neighbours of the value the nearer, and on a tie the upper. -/
def Interval.pick? (i : Interval) (unit : Int) : Option Nat :=
  let (n, d) := inUnits i.value i.den unit
  let down := n / d
  let up := down + 1
  match i.holds down unit, i.holds up unit with
  | true, true => some (if 2 * (n % d) < d then down else up)
  | true, false => some down
  | false, true => some up
  | false, false => none

/-- The same number without a zero at its end: rounding a nine up leaves one. -/
def dropZero (d : Decimal) : Decimal :=
  if d.digits % 10 = 0 then ⟨d.digits / 10, d.exponent + 1⟩ else d

/-- The fewest digits that read back as the positive number `b`. -/
def shortest (b : Binary) : Decimal :=
  let i := intervalOf b
  let lead := leadingExponent i.value i.den
  let attempt (n : Nat) : Option Decimal :=
    let unit := lead - (n : Int)
    (i.pick? unit).map fun digits => dropZero ⟨digits, unit⟩
  ((List.range 17).findSome? attempt).getD
    (let unit := lead - 17
     let (n, d) := inUnits i.value i.den unit
     ⟨n / d, unit⟩)

/-- The digits with a point put `places` from the right, padded with zeros on the left. -/
def pointed (digits : List Char) (places : Nat) : List Char :=
  if places = 0 then digits
  else
    let padded := List.replicate (places + 1 - digits.length) '0' ++ digits
    padded.take (padded.length - places) ++ '.' :: padded.drop (padded.length - places)

/-- Positional notation: no exponent, and no point when the number is whole. -/
def plain (d : Decimal) : String :=
  String.ofList <|
    if 0 ≤ d.exponent then numerals d.digits ++ List.replicate d.exponent.toNat '0'
    else pointed (numerals d.digits) (-d.exponent).toNat

/-- The shortest positional text of a non-negative binary number. -/
def ofBinary (b : Binary) : String :=
  if b.mantissa = 0 then "0" else (shortest b).plain

/-- The shortest positional text of the double nearest to a rational. -/
def ofRat (r : Rat) : String :=
  let text := ofBinary (Binary.ofRat r)
  if r.num < 0 then "-" ++ text else text

/-- The shortest positional text of a double; infinities and not-a-number have words of their own. -/
def ofFloat (x : Float) : String :=
  if x.isNaN then "NaN"
  else
    let text := if x.isInf then "inf" else ofBinary (Binary.ofFloat x)
    if Binary.isNegative x then "-" ++ text else text

/-- A rational with exactly `places` decimals, a half going to the even neighbour. -/
def fixedRat (places : Nat) (negative : Bool) (num den : Nat) : String :=
  let text := String.ofList
    (pointed (numerals (Binary.roundHalfEven (num * Nat.pow 10 places) den)) places)
  if negative then "-" ++ text else text

/-- A double with exactly `places` decimals. -/
def fixedFloat (places : Nat) (x : Float) : String :=
  let (n, d) := (Binary.ofFloat x).toFraction
  fixedRat places (Binary.isNegative x) n d

/-- The value of a list of decimal digits; other characters count as zero. -/
def digitsValue (cs : List Char) : Nat :=
  cs.foldl (fun n c => 10 * n + (c.toNat - '0'.toNat)) 0

/-- The double nearest to `digits * 10 ^ exponent`. -/
def toFloat (digits : Nat) (exponent : Int) : Float :=
  -- Beyond these exponents every number of digits gives zero or infinity.
  let len : Int := (numerals digits).length
  if digits = 0 ∨ exponent + len < -400 then 0
  else if 400 < exponent + len then Float.ofScientific 1 false 400
  else Float.ofScientific digits (exponent < 0) exponent.natAbs

/-- Read `digits [. digits] [e exponent]`, at least one digit before the exponent; no sign. -/
def read? (cs : List Char) : Option Float :=
  let whole := cs.takeWhile Char.isDigit
  let rest := cs.dropWhile Char.isDigit
  let (frac, rest) := match rest with
    | '.' :: tail => (tail.takeWhile Char.isDigit, tail.dropWhile Char.isDigit)
    | _ => ([], rest)
  if whole.isEmpty && frac.isEmpty then none
  else
    let finish (exponent : Int) : Float :=
      toFloat (digitsValue (whole ++ frac)) (exponent - frac.length)
    match rest with
    | [] => some (finish 0)
    | c :: tail =>
      if c == 'e' || c == 'E' then
        let (negative, ds) := match tail with
          | '-' :: ds => (true, ds)
          | '+' :: ds => (false, ds)
          | ds => (false, ds)
        if ds.isEmpty || ds.any (!·.isDigit) then none
        else
          let e : Int := digitsValue ds
          some (finish (if negative then -e else e))
      else none

end Decimal

end Concord
