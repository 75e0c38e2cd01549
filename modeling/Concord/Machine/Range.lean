/-!
# Integers of 64 bits and ranges of them

The bounds of the machine's integers, and arithmetic progressions given by start, stop and step.
-/

namespace Concord.Machine

/-- The least integer. -/
def minInt : Int := -0x8000000000000000

/-- The greatest integer. -/
def maxInt : Int := 0x7fffffffffffffff

/-- Whether an integer fits in 64 bits. -/
def fits (i : Int) : Bool := decide (minInt ≤ i ∧ i ≤ maxInt)

/-- The nearest integer that fits. -/
def saturate (i : Int) : Int := max minInt (min maxInt i)

theorem fits_saturate (i : Int) : fits (saturate i) = true := by
  unfold fits saturate minInt maxInt
  exact decide_eq_true (by omega)

theorem saturate_eq_self {i : Int} (h : fits i = true) : saturate i = i := by
  have := of_decide_eq_true h
  unfold saturate
  omega

/-- The integer of 64 bits that an addition leaves when it passes a bound: it goes on at the other one. -/
def wrap (i : Int) : Int := (i + 0x8000000000000000) % 0x10000000000000000 - 0x8000000000000000

namespace Range

/-- Whether an integer lies strictly before `stop` in the direction of the step. -/
def Before (stop step i : Int) : Prop := (0 < step ∧ i < stop) ∨ (step < 0 ∧ stop < i)

instance (stop step i : Int) : Decidable (Before stop step i) := inferInstanceAs (Decidable (_ ∨ _))

/-- How many members `start, start + step, …` lie strictly before `stop`. -/
def length (start stop step : Int) : Nat :=
  if 0 < step ∧ start < stop then ((stop - start + step - 1) / step).toNat
  else if step < 0 ∧ stop < start then ((start - stop - step - 1) / -step).toNat
  else 0

/-- So many integers from one on, each a step further as far as 64 bits reach. -/
def walk : Nat → Int → Int → List Int
  | 0, _, _ => []
  | count + 1, i, step => i :: walk count (saturate (i + step)) step

/-- The members in order. -/
def members (start stop step : Int) : List Int := walk (length start stop step) start step

/-- Whether an integer is a member. -/
def holds (start stop step i : Int) : Bool :=
  (if 0 < step then decide (start ≤ i ∧ i < stop) else decide (i ≤ start ∧ stop < i)) &&
    (i - start) % step == 0 && 0 < length start stop step

end Range

end Concord.Machine
