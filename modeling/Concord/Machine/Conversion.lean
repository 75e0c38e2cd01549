import Concord.Machine.State
import Concord.Text.Blank

/-!
# Conversions between numbers and texts

Reading integers and doubles from texts, and rounding doubles: to the nearest whole number with a half
going to the even one, and to a number of decimal places by scaling.
-/

namespace Concord.Machine

/-- Read an integer: blanks around it and underscores are dropped, one sign is allowed. -/
def readInt? (text : String) : Option Int :=
  let cs := (Text.trim text.toList).filter (· != '_')
  let (negative, digits) := match cs with
    | '-' :: ds => (true, ds)
    | '+' :: ds => (false, ds)
    | ds => (false, ds)
  if digits.isEmpty || digits.any (!·.isDigit) then none
  else
    let n : Int := Decimal.digitsValue digits
    let i := if negative then -n else n
    if fits i then some i else none

/-- Read a double: blanks around it are dropped, one sign is allowed; infinity and not-a-number have
words, in any case. -/
def readFloat? (text : String) : Option Float :=
  let (negative, cs) := match Text.trim text.toList with
    | '-' :: ds => (true, ds)
    | '+' :: ds => (false, ds)
    | ds => (false, ds)
  let word := String.ofList (cs.map Char.toLower)
  let magnitude :=
    if word == "inf" || word == "infinity" then some (1 / 0 : Float)
    else if word == "nan" then some (0 / 0 : Float)
    else Decimal.read? cs
  magnitude.map fun x => if negative then -x else x

/-- The whole number nearest to a double; a half goes to the even one. -/
def roundHalfEven (x : Float) : Float :=
  let rounded := x.round
  if (x - truncate x).abs == 0.5 && (rounded / 2).floor != rounded / 2 then
    rounded - (if x < 0 then -1 else 1)
  else rounded

/-- A whole double as an integer. -/
def wholeToInt (x : Float) : Except Signal Int :=
  if x.isNaN then .error (.error .value "cannot convert float NaN to integer")
  else if x.isInf || 9.2e18 ≤ x.abs then .error .overflow
  else
    let (num, den) := (Binary.ofFloat x).toFraction
    .ok (if Binary.isNegative x then -(num / den : Nat) else (num / den : Nat))

/-- A power with a natural exponent, by repeated squaring of the base `x` into `done`. -/
def powerInto : Nat → Float → Nat → Float → Float
  | 0, _, _, done => done
  | steps + 1, x, n, done =>
    let done := if n % 2 = 1 then done * x else done
    if n / 2 = 0 then done else powerInto steps (x * x) (n / 2) done

/-- A power of ten; one with a negative exponent is the reciprocal of the positive one. -/
def tenTo (places : Int) : Float :=
  let p := powerInto (places.natAbs + 1) 10 places.natAbs 1
  if places < 0 then 1 / p else p

/-- A double rounded to a number of decimal places between -300 and 300. -/
def roundPlaces (x : Float) (places : Int) : Float :=
  let scale := tenTo (max (-300) (min 300 places))
  roundHalfEven (x * scale) / scale

end Concord.Machine
