/-!
# Double-precision numbers as exact values

A finite double is a signed number `mantissa * 2 ^ exponent`. This module takes doubles apart into
that form, gives the rational number each stands for, and rounds a rational to the nearest number
with 53 significant bits, ties to the even mantissa. Distances are computed with that rounding after
every operation, so that their order is the order of the rationals.
-/

namespace Concord

/-- The number `mantissa * 2 ^ exponent`. -/
structure Binary where
  mantissa : Nat
  exponent : Int
deriving Repr, DecidableEq

namespace Binary

/-- Significant bits of a double. -/
def precision : Nat := 53

/-- The least exponent of a double. -/
def minExponent : Int := -1074

/-- The magnitude of a finite double. -/
def ofFloat (x : Float) : Binary :=
  let bits : Nat := x.toBits.toNat
  let fraction : Nat := bits % Nat.pow 2 52
  let biased : Nat := bits / Nat.pow 2 52 % Nat.pow 2 11
  if biased = 0 then { mantissa := fraction, exponent := minExponent }
  else { mantissa := fraction + Nat.pow 2 52, exponent := (biased : Int) - 1075 }

/-- Whether the sign bit of a double is set, which it also is for a negative zero. -/
def isNegative (x : Float) : Bool := x.toBits.toNat / Nat.pow 2 63 % 2 == 1

/-- The fraction `num / den` scaled by a power of two, as a numerator and a denominator. -/
def scale (num den : Nat) (exponent : Int) : Nat × Nat :=
  if 0 ≤ exponent then (num * Nat.pow 2 exponent.toNat, den)
  else (num, den * Nat.pow 2 (-exponent).toNat)

/-- The number as a numerator over a denominator. -/
def toFraction (b : Binary) : Nat × Nat := scale b.mantissa 1 b.exponent

/-- The number as a rational. -/
def toRat (b : Binary) : Rat := mkRat b.toFraction.1 b.toFraction.2

/-- The nearest integer to `num / den`; a half goes to the even neighbour. -/
def roundHalfEven (num den : Nat) : Nat :=
  let q := num / den
  let r := num % den
  if 2 * r < den then q
  else if den < 2 * r then q + 1
  else if q % 2 = 0 then q else q + 1

/-- The exponent for which `num / den` has a mantissa of 53 bits. -/
def exponentOf (num den : Nat) : Int :=
  let guess : Int := (num.log2 : Int) - (den.log2 : Int) - 52
  let (n, d) := scale num den (-guess)
  if n / d < Nat.pow 2 52 then guess - 1 else guess

/-- The nearest number to `num / den` with 53 significant bits. -/
def ofFraction (num den : Nat) : Binary :=
  if num = 0 then ⟨0, 0⟩ else
  let e := exponentOf num den
  let (n, d) := scale num den (-e)
  let m := roundHalfEven n d
  if m = Nat.pow 2 53 then ⟨Nat.pow 2 52, e + 1⟩ else ⟨m, e⟩

/-- The nearest number with 53 significant bits to the magnitude of a rational. -/
def ofRat (r : Rat) : Binary := ofFraction r.num.natAbs r.den

/-- Round a rational to 53 significant bits. -/
def round (r : Rat) : Rat :=
  let m := (ofRat r).toRat
  if r.num < 0 then -m else m

/-- The rational a finite double stands for. -/
def valueOf (x : Float) : Rat :=
  let m := (ofFloat x).toRat
  if isNegative x then -m else m

end Binary

end Concord
