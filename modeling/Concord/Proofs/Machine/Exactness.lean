import Mathlib.Data.Int.Bitwise
import Mathlib.Tactic.NormNum
import Mathlib.Tactic.Positivity
import Concord.Machine.Operator
import Concord.Proofs.Machine.Progression

/-!
# Integer operators are exact or stop

An operator on two integers of 64 bits either gives the exact result of the mathematical operation
(`IsExact`), or it gives none: a zero divisor and a negative shift count raise, true division and negative
powers leave the integers, and whatever does not fit in 64 bits halts the run. No result wraps round.

Three operations halt although their exact result would fit (`Overtaxes`): the remainder beside a quotient
that does not fit, and powers and shifts with a second operand so large that it is refused without looking
at the first.

Main statement: `Machine.intOp_exactOrStops`.
-/

namespace Concord.Machine

/-! ## Exact results -/

/-- A remainder of a division that rounds down: zero or of the sign of the divisor, and smaller. -/
def IsRemainder (b r : Int) : Prop := (0 ≤ r ∧ r < b) ∨ (b < r ∧ r ≤ 0)

/-- The integer that an operator stands for. Division rounds down, shifts multiply and divide by powers
of two, and bitwise operators work on two's complement without bounds. -/
def IsExact : BinOp → Int → Int → Int → Prop
  | .add, a, b, v => v = a + b
  | .sub, a, b, v => v = a - b
  | .mul, a, b, v => v = a * b
  | .floorDiv, a, b, v => ∃ r, a = v * b + r ∧ IsRemainder b r
  | .mod, a, b, v => ∃ q, a = q * b + v ∧ IsRemainder b v
  | .pow, a, b, v => 0 ≤ b ∧ v = a ^ b.toNat
  | .shiftLeft, a, b, v => 0 ≤ b ∧ v = a * 2 ^ b.toNat
  | .shiftRight, a, b, v => 0 ≤ b ∧ v * 2 ^ b.toNat ≤ a ∧ a < (v + 1) * 2 ^ b.toNat
  | .bitOr, a, b, v => ∀ i, v.testBit i = (a.testBit i || b.testBit i)
  | .bitXor, a, b, v => ∀ i, v.testBit i = (a.testBit i ^^ b.testBit i)
  | .bitAnd, a, b, v => ∀ i, v.testBit i = (a.testBit i && b.testBit i)
  | .div, _, _, _ | .matMul, _, _, _ => False

/-- A zero divisor, or a negative power of zero. -/
def DividesByZero : BinOp → Int → Int → Prop
  | .div, _, b | .floorDiv, _, b | .mod, _, b => b = 0
  | .pow, a, b => a = 0 ∧ b < 0
  | _, _, _ => False

/-- A shift by a negative count. -/
def ShiftsBack : BinOp → Int → Prop
  | .shiftLeft, b | .shiftRight, b => b < 0
  | _, _ => False

/-- True division, and negative powers. -/
def LeavesIntegers : BinOp → Int → Int → Prop
  | .div, _, b => b ≠ 0
  | .pow, a, b => a ≠ 0 ∧ b < 0
  | _, _, _ => False

/-- Operations that halt whatever their result. -/
def Overtaxes : BinOp → Int → Int → Prop
  | .mod, a, b => a = minInt ∧ b = -1
  | .pow, a, b => a.natAbs ≤ 1 ∧ 2 ^ 32 ≤ b
  | .shiftLeft, a, b => a = 0 ∧ 64 ≤ b
  | _, _, _ => False

/-- What an operator does with two integers, by the conditions under which it does so. -/
structure ExactOrStops (op : BinOp) (a b : Int) : Prop where
  exact : ∀ v, intOp op a b = .ok (.int v) ↔
    IsExact op a b v ∧ fits v = true ∧ ¬ Overtaxes op a b
  overflow : intOp op a b = .error .overflow ↔
    (∃ v, IsExact op a b v ∧ fits v = false) ∨ Overtaxes op a b
  zeroDivision : (∃ message, intOp op a b = .error (.error .zeroDivision message)) ↔
    DividesByZero op a b
  negativeShift : (∃ message, intOp op a b = .error (.error .value message)) ↔ ShiftsBack op b
  noOperator : (∃ message, intOp op a b = .error (.error .type message)) ↔ op = .matMul
  float : (∃ x, intOp op a b = .ok (.float x)) ↔ LeavesIntegers op a b

/-! ## Division -/

theorem fdiv_fmod_iff {a b q r : Int} (hb : b ≠ 0) :
    a.fdiv b = q ∧ a.fmod b = r ↔ a = q * b + r ∧ IsRemainder b r := by
  have hsum : a = q * b + r ↔ r + b * q = a := by
    rw [mul_comm b q, add_comm r, eq_comm]
  unfold IsRemainder
  rw [hsum]
  rcases lt_or_gt_of_ne hb with hneg | hpos
  · rw [Int.fdiv_fmod_unique' hneg]
    constructor
    · rintro ⟨h, hr⟩
      exact ⟨h, .inr hr⟩
    · rintro ⟨h, hr | hr⟩
      · omega
      · exact ⟨h, hr⟩
  · rw [Int.fdiv_fmod_unique hpos]
    constructor
    · rintro ⟨h, hr⟩
      exact ⟨h, .inl hr⟩
    · rintro ⟨h, hr | hr⟩
      · exact ⟨h, hr⟩
      · omega

theorem not_isRemainder_zero (r : Int) : ¬ IsRemainder 0 r := by
  unfold IsRemainder
  omega

theorem isExact_floorDiv_iff {a b : Int} (hb : b ≠ 0) (v : Int) :
    IsExact .floorDiv a b v ↔ v = a.fdiv b := by
  constructor
  · rintro ⟨r, h⟩
    exact ((fdiv_fmod_iff hb).mpr h).1.symm
  · rintro rfl
    exact ⟨a.fmod b, (fdiv_fmod_iff hb).mp ⟨rfl, rfl⟩⟩

theorem isExact_mod_iff {a b : Int} (hb : b ≠ 0) (v : Int) :
    IsExact .mod a b v ↔ v = a.fmod b := by
  constructor
  · rintro ⟨q, h⟩
    exact ((fdiv_fmod_iff hb).mpr h).2.symm
  · rintro rfl
    exact ⟨a.fdiv b, (fdiv_fmod_iff hb).mp ⟨rfl, rfl⟩⟩

/-- Only the quotient of the least integer by -1 does not fit. -/
theorem fits_fdiv_iff {a b : Int} (ha : fits a = true) (hb : b ≠ 0) :
    fits (a.fdiv b) = true ↔ ¬ (a = minInt ∧ b = -1) := by
  have hlt (q : Int) : q ≤ 9223372036854775807 ↔ q < 9223372036854775808 := by omega
  rw [fits_iff] at *
  unfold minInt maxInt at *
  -- Division by a negative number is turned into one by a positive number.
  rcases lt_or_gt_of_ne hb with hneg | hpos
  · rw [← Int.neg_fdiv_neg, Int.fdiv_eq_ediv_of_nonneg _ (by omega), hlt,
      Int.le_ediv_iff_mul_le (by omega), Int.ediv_lt_iff_lt_mul (by omega)]
    omega
  · rw [Int.fdiv_eq_ediv_of_nonneg _ hpos.le, hlt, Int.le_ediv_iff_mul_le hpos,
      Int.ediv_lt_iff_lt_mul hpos]
    omega

/-- The remainder fits because the divisor does. -/
theorem fits_fmod {a b : Int} (hb : fits b = true) (hne : b ≠ 0) : fits (a.fmod b) = true := by
  obtain ⟨-, hr⟩ := (fdiv_fmod_iff (a := a) hne).mp ⟨rfl, rfl⟩
  unfold IsRemainder at hr
  rw [fits_iff] at *
  unfold minInt maxInt at *
  omega

/-! ## Powers and shifts -/

/-- What is not below `2 ^ 64` in size does not fit. -/
theorem not_fits_of_le_natAbs {v : Int} (h : 2 ^ 64 ≤ v.natAbs) : fits v = false := by
  rw [← Bool.not_eq_true, fits_iff]
  unfold minInt maxInt
  omega

/-- Powers of 0, 1 and -1 depend on the parity of the exponent. -/
theorem pow_of_natAbs_le {a : Int} (ha : a.natAbs ≤ 1) (n : Nat) :
    a ^ n = if n = 0 then 1 else if n % 2 = 0 then a * a else a := by
  have hcases : a = 0 ∨ a = 1 ∨ a = -1 := by omega
  by_cases hn : n = 0
  · rw [if_pos hn, hn, pow_zero]
  · rw [if_neg hn]
    rcases hcases with rfl | rfl | rfl
    · simp [hn]
    · simp
    · split
      · rename_i heven
        rw [(Nat.even_iff.mpr heven).neg_one_pow]
        rfl
      · rename_i hodd
        rw [(Nat.not_even_iff_odd.mp (mt Nat.even_iff.mp hodd)).neg_one_pow]

theorem not_fits_pow {a : Int} {n : Nat} (ha : 1 < a.natAbs) (hn : 64 ≤ n) :
    fits (a ^ n) = false := by
  apply not_fits_of_le_natAbs
  rw [Int.natAbs_pow]
  calc 2 ^ 64 ≤ 2 ^ n := Nat.pow_le_pow_right (by decide) hn
    _ ≤ a.natAbs ^ n := Nat.pow_le_pow_left ha n

theorem intPow_eq (a : Int) (n : Nat) : intPow a n = checked (a ^ n) := by
  unfold intPow
  by_cases hsmall : a.natAbs ≤ 1
  · have hfits : fits (a ^ n) = true := by
      have hle : (a ^ n).natAbs ≤ 1 := by
        rw [Int.natAbs_pow, ← one_pow n]
        exact Nat.pow_le_pow_left hsmall n
      rw [fits_iff]
      unfold minInt maxInt
      omega
    rw [if_pos hsmall, checked, if_pos hfits, pow_of_natAbs_le hsmall n]
  · rw [if_neg hsmall]
    split
    · rename_i hn
      rw [checked, not_fits_pow (by omega) hn]
      rfl
    · rfl

theorem not_fits_shift {a : Int} {n : Nat} (ha : a ≠ 0) (hn : 64 ≤ n) :
    fits (a * 2 ^ n) = false := by
  apply not_fits_of_le_natAbs
  rw [Int.natAbs_mul, Int.natAbs_pow]
  calc 2 ^ 64 ≤ 2 ^ n := Nat.pow_le_pow_right (by decide) hn
    _ ≤ a.natAbs * 2 ^ n := Nat.le_mul_of_pos_left _ (Int.natAbs_pos.mpr ha)

theorem eq_shiftRight_iff (a : Int) (n : Nat) (v : Int) :
    v = a >>> n ↔ v * 2 ^ n ≤ a ∧ a < (v + 1) * 2 ^ n := by
  have hpos : (0 : Int) < 2 ^ n := by positivity
  rw [Int.shiftRight_eq_div_pow]
  push_cast
  constructor
  · rintro rfl
    exact ⟨Int.ediv_mul_le a hpos.ne', Int.lt_ediv_add_one_mul_self a hpos⟩
  · rintro ⟨hle, hlt⟩
    apply le_antisymm
    · rwa [Int.le_ediv_iff_mul_le hpos]
    · rw [← Int.lt_add_one_iff]
      exact (Int.ediv_lt_iff_lt_mul hpos).mpr hlt

/-- From the 63rd place on only the sign is left. -/
theorem shiftRight_of_le {a : Int} (ha : fits a = true) {n : Nat} (hn : 63 ≤ n) :
    a >>> n = if a < 0 then -1 else 0 := by
  have hlarge : (2 : Int) ^ 63 ≤ 2 ^ n := pow_le_pow_right₀ (by decide) hn
  rw [fits_iff] at ha
  unfold minInt maxInt at ha
  symm
  rw [eq_shiftRight_iff]
  split <;> omega

theorem isExact_shiftRight_iff {a b : Int} (ha : fits a = true) (hb : 0 ≤ b) (v : Int) :
    IsExact .shiftRight a b v ↔ v = a >>> (min b 63).toNat := by
  have hshift : a >>> (min b 63).toNat = a >>> b.toNat := by
    by_cases hle : b ≤ 63
    · rw [min_eq_left hle]
    · rw [min_eq_right (by omega), shiftRight_of_le ha (by omega), shiftRight_of_le ha (by omega)]
  rw [hshift, eq_shiftRight_iff]
  exact ⟨fun h => h.2, fun h => ⟨hb, h⟩⟩

/-- A shift to the right moves towards 0 or -1. -/
theorem fits_shiftRight {a : Int} (ha : fits a = true) (n : Nat) : fits (a >>> n) = true := by
  have hone : (1 : Int) ≤ 2 ^ n := one_le_pow₀ (by decide)
  obtain ⟨hle, hlt⟩ := (eq_shiftRight_iff a n _).mp rfl
  rw [fits_iff] at *
  unfold minInt maxInt at *
  by_cases hsign : 0 ≤ a >>> n
  · have := Int.mul_le_mul_of_nonneg_left hone hsign
    omega
  · have := Int.mul_le_mul_of_nonpos_left (a := a >>> n + 1) (by omega) hone
    omega

/-! ## Bits -/

/-- An integer is known by its bits. -/
theorem eq_of_testBit_eq {a b : Int} (h : ∀ i, a.testBit i = b.testBit i) : a = b := by
  -- Far to the left, the bits of a natural number are clear and those of a negative one are set.
  have hdiffer (m n : Nat) : ∃ i, m.testBit i ≠ !n.testBit i := by
    refine ⟨max m n, ?_⟩
    have hm : m < 2 ^ max m n := Nat.lt_two_pow_self.trans_le (Nat.pow_le_pow_right (by decide) (by omega))
    have hn : n < 2 ^ max m n := Nat.lt_two_pow_self.trans_le (Nat.pow_le_pow_right (by decide) (by omega))
    rw [Nat.testBit_lt_two_pow hm, Nat.testBit_lt_two_pow hn]
    decide
  cases a with
  | ofNat m =>
    cases b with
    | ofNat n => exact congrArg Int.ofNat (Nat.eq_of_testBit_eq h)
    | negSucc n =>
      obtain ⟨i, hi⟩ := hdiffer m n
      exact absurd (h i) hi
  | negSucc m =>
    cases b with
    | ofNat n =>
      obtain ⟨i, hi⟩ := hdiffer n m
      exact absurd (h i).symm hi
    | negSucc n =>
      exact congrArg Int.negSucc (Nat.eq_of_testBit_eq fun i => Bool.not_inj (h i))

/-- Bits from the 63rd place on repeat the sign. -/
theorem testBit_toInt (x : BitVec 64) (i : Nat) : x.toInt.testBit i = x.getLsbD (min i 63) := by
  have hsign : x.msb = x.getLsbD 63 := x.msb_eq_getLsbD_last
  rw [BitVec.toInt_eq_msb_cond]
  split
  · rename_i hneg
    have hcast : (x.toNat : Int) - (2 ^ 64 : Nat) = Int.negSucc (2 ^ 64 - (x.toNat + 1)) := by
      have := x.isLt
      omega
    rw [hcast]
    show (!Nat.testBit _ i) = _
    rw [Nat.testBit_two_pow_sub_succ x.isLt, BitVec.testBit_toNat]
    by_cases hi : i < 64
    · rw [min_eq_left (by omega), decide_eq_true hi, Bool.true_and, Bool.not_not]
    · rw [min_eq_right (by omega), decide_eq_false hi, Bool.false_and, ← hsign, hneg]
      rfl
  · rename_i hnonneg
    show Nat.testBit _ i = _
    rw [BitVec.testBit_toNat]
    by_cases hi : i < 64
    · rw [min_eq_left (by omega)]
    · rw [min_eq_right (by omega), BitVec.getLsbD_of_ge x i (by omega), ← hsign]
      exact (Bool.eq_false_of_not_eq_true hnonneg).symm

theorem toInt_ofInt_of_fits {a : Int} (ha : fits a = true) : (BitVec.ofInt 64 a).toInt = a := by
  rw [fits_iff] at ha
  unfold minInt maxInt at ha
  apply BitVec.toInt_ofInt_eq_self (by decide)
  · norm_num
    omega
  · norm_num
    omega

theorem fits_toInt (x : BitVec 64) : fits x.toInt = true := by
  rw [fits_iff]
  unfold minInt maxInt
  have hlow := x.le_toInt
  have hhigh := x.toInt_lt
  omega

/-- Working on 64 bits of two's complement is working on all of them. -/
theorem eq_bitwise_iff {f : BitVec 64 → BitVec 64 → BitVec 64} {g : Bool → Bool → Bool}
    (hf : ∀ x y i, (f x y).getLsbD i = g (x.getLsbD i) (y.getLsbD i))
    {a b : Int} (ha : fits a = true) (hb : fits b = true) (v : Int) :
    (∀ i, v.testBit i = g (a.testBit i) (b.testBit i)) ↔
      v = (f (BitVec.ofInt 64 a) (BitVec.ofInt 64 b)).toInt := by
  have hbits (i : Nat) : (f (BitVec.ofInt 64 a) (BitVec.ofInt 64 b)).toInt.testBit i =
      g (a.testBit i) (b.testBit i) := by
    rw [testBit_toInt, hf, ← testBit_toInt, ← testBit_toInt, toInt_ofInt_of_fits ha,
      toInt_ofInt_of_fits hb]
  constructor
  · intro h
    exact eq_of_testBit_eq fun i => (h i).trans (hbits i).symm
  · rintro rfl
    exact hbits

/-! ## Outcomes -/

theorem checked_eq_int_iff {w v : Int} : checked w = .ok (.int v) ↔ v = w ∧ fits w = true := by
  unfold checked
  split
  · rename_i hw
    simp [hw, eq_comm]
  · rename_i hw
    simp [hw]

theorem checked_eq_overflow_iff {w : Int} : checked w = .error .overflow ↔ fits w = false := by
  unfold checked
  split
  · rename_i hw
    simp [hw]
  · rename_i hw
    simpa using hw

/-- Operands for which an operator neither raises nor leaves the integers. -/
structure Regular (op : BinOp) (a b : Int) : Prop where
  zero : ¬ DividesByZero op a b
  back : ¬ ShiftsBack op b
  known : op ≠ .matMul
  whole : ¬ LeavesIntegers op a b

section Outcomes

variable {op : BinOp} {a b : Int}

theorem ExactOrStops.of_checked {w : Int} (hop : intOp op a b = checked w)
    (hexact : ∀ v, IsExact op a b v ↔ v = w) (hover : ¬ Overtaxes op a b) (h : Regular op a b) :
    ExactOrStops op a b := by
  have hraise (kind : ExceptionClass) (message : String) : checked w ≠ .error (.error kind message) := by
    unfold checked
    split
    · nofun
    · nofun
  have hfloat (x : Float) : checked w ≠ .ok (.float x) := by
    unfold checked
    split
    · nofun
    · nofun
  constructor
  · intro v
    rw [hop, checked_eq_int_iff, hexact]
    constructor
    · rintro ⟨rfl, hfits⟩
      exact ⟨rfl, hfits, hover⟩
    · rintro ⟨rfl, hfits, -⟩
      exact ⟨rfl, hfits⟩
  · rw [hop, checked_eq_overflow_iff]
    constructor
    · intro hw
      exact .inl ⟨w, (hexact w).mpr rfl, hw⟩
    · rintro (⟨v, hv, hfits⟩ | hbad)
      · rwa [(hexact v).mp hv] at hfits
      · exact absurd hbad hover
  · rw [hop]
    exact iff_of_false (fun ⟨m, hm⟩ => hraise _ m hm) h.zero
  · rw [hop]
    exact iff_of_false (fun ⟨m, hm⟩ => hraise _ m hm) h.back
  · rw [hop]
    exact iff_of_false (fun ⟨m, hm⟩ => hraise _ m hm) h.known
  · rw [hop]
    exact iff_of_false (fun ⟨x, hx⟩ => hfloat x hx) h.whole

theorem ExactOrStops.of_overtaxes (hop : intOp op a b = .error .overflow)
    (hover : Overtaxes op a b) (h : Regular op a b) : ExactOrStops op a b := by
  constructor
  · intro v
    rw [hop]
    exact iff_of_false nofun fun h => h.2.2 hover
  · exact iff_of_true hop (.inr hover)
  · rw [hop]
    exact iff_of_false nofun h.zero
  · rw [hop]
    exact iff_of_false nofun h.back
  · rw [hop]
    exact iff_of_false nofun h.known
  · rw [hop]
    exact iff_of_false nofun h.whole

theorem ExactOrStops.of_raised {kind : ExceptionClass} {message : String}
    (hop : intOp op a b = .error (.error kind message)) (hexact : ∀ v, ¬ IsExact op a b v)
    (hover : ¬ Overtaxes op a b) (hzero : kind = .zeroDivision ↔ DividesByZero op a b)
    (hback : kind = .value ↔ ShiftsBack op b) (hknown : kind = .type ↔ op = .matMul)
    (hwhole : ¬ LeavesIntegers op a b) : ExactOrStops op a b := by
  have hclass (k : ExceptionClass) :
      (∃ m, (.error (.error kind message) : Except Signal Value) = .error (.error k m)) ↔ kind = k := by
    constructor
    · rintro ⟨m, hm⟩
      injection hm with hm
      injection hm with hm
      injection hm
    · rintro rfl
      exact ⟨message, rfl⟩
  constructor
  · intro v
    rw [hop]
    exact iff_of_false nofun fun h => hexact v h.1
  · rw [hop]
    apply iff_of_false nofun
    rintro (⟨v, hv, -⟩ | hbad)
    · exact hexact v hv
    · exact hover hbad
  · rw [hop, hclass, hzero]
  · rw [hop, hclass, hback]
  · rw [hop, hclass, hknown]
  · rw [hop]
    exact iff_of_false nofun hwhole

theorem ExactOrStops.of_float {x : Float} (hop : intOp op a b = .ok (.float x))
    (hexact : ∀ v, ¬ IsExact op a b v) (hover : ¬ Overtaxes op a b) (hzero : ¬ DividesByZero op a b)
    (hback : ¬ ShiftsBack op b) (hknown : op ≠ .matMul) (hwhole : LeavesIntegers op a b) :
    ExactOrStops op a b := by
  constructor
  · intro v
    rw [hop]
    exact iff_of_false nofun fun h => hexact v h.1
  · rw [hop]
    apply iff_of_false nofun
    rintro (⟨v, hv, -⟩ | hbad)
    · exact hexact v hv
    · exact hover hbad
  · rw [hop]
    exact iff_of_false nofun hzero
  · rw [hop]
    exact iff_of_false nofun hback
  · rw [hop]
    exact iff_of_false nofun hknown
  · exact iff_of_true ⟨x, hop⟩ hwhole

end Outcomes

/-! ## Every operator -/

section Operators

variable {a b : Int}

theorem div_exactOrStops (a b : Int) : ExactOrStops .div a b := by
  by_cases hb : b = 0
  · exact .of_raised (if_pos hb) (fun _ => id) id (iff_of_true rfl hb) (iff_of_false nofun id)
      (iff_of_false nofun nofun) (fun h => h hb)
  · exact .of_float (if_neg hb) (fun _ => id) id hb id nofun hb

theorem floorDiv_exactOrStops (a b : Int) : ExactOrStops .floorDiv a b := by
  by_cases hb : b = 0
  · subst hb
    refine .of_raised rfl (fun v hv => ?_) id (iff_of_true rfl rfl)
      (iff_of_false nofun id) (iff_of_false nofun nofun) id
    obtain ⟨r, -, hr⟩ := hv
    exact not_isRemainder_zero r hr
  · exact .of_checked (if_neg hb) (isExact_floorDiv_iff hb) id ⟨hb, id, nofun, id⟩

theorem mod_exactOrStops (ha : fits a = true) (hb : fits b = true) : ExactOrStops .mod a b := by
  by_cases hzero : b = 0
  · subst hzero
    refine .of_raised rfl (fun v hv => ?_) (fun h => absurd h.2 (by decide))
      (iff_of_true rfl rfl) (iff_of_false nofun id) (iff_of_false nofun nofun) id
    obtain ⟨q, -, hr⟩ := hv
    exact not_isRemainder_zero v hr
  · have hregular : Regular .mod a b := ⟨hzero, id, nofun, id⟩
    by_cases hover : a = minInt ∧ b = -1
    · have hquotient : ¬ fits (a.fdiv b) = true := fun h => (fits_fdiv_iff ha hzero).mp h hover
      exact .of_overtaxes ((if_neg hzero).trans (if_neg hquotient)) hover hregular
    · have hquotient : fits (a.fdiv b) = true := (fits_fdiv_iff ha hzero).mpr hover
      have hop : intOp .mod a b = checked (a.fmod b) := by
        rw [checked, if_pos (fits_fmod hb hzero)]
        exact (if_neg hzero).trans (if_pos hquotient)
      exact .of_checked hop (isExact_mod_iff hzero) hover hregular

theorem pow_exactOrStops (a b : Int) : ExactOrStops .pow a b := by
  by_cases hneg : b < 0
  · have hexact : ∀ v, ¬ IsExact .pow a b v := fun v h => by
      have := h.1
      omega
    have hover : ¬ Overtaxes .pow a b := fun h => by
      have := h.2
      omega
    by_cases ha : a = 0
    · exact .of_raised ((if_pos hneg).trans (if_pos ha)) hexact hover (iff_of_true rfl ⟨ha, hneg⟩)
        (iff_of_false nofun id) (iff_of_false nofun nofun) (fun h => h.1 ha)
    · exact .of_float ((if_pos hneg).trans (if_neg ha)) hexact hover (fun h => ha h.1) id nofun
        ⟨ha, hneg⟩
  · have hexact (v : Int) : IsExact .pow a b v ↔ v = a ^ b.toNat :=
      ⟨fun h => h.2, fun h => ⟨by omega, h⟩⟩
    have hregular : Regular .pow a b := ⟨fun h => hneg h.2, id, nofun, fun h => hneg h.2⟩
    by_cases hlarge : 2 ^ 32 ≤ b
    · have hop : intOp .pow a b = .error .overflow := (if_neg hneg).trans (if_pos hlarge)
      by_cases ha : a.natAbs ≤ 1
      · exact .of_overtaxes hop ⟨ha, hlarge⟩ hregular
      · have hfits : fits (a ^ b.toNat) = false := not_fits_pow (by omega) (by omega)
        rw [← checked_eq_overflow_iff] at hfits
        exact .of_checked (hop.trans hfits.symm) hexact (fun h => ha h.1) hregular
    · have hop : intOp .pow a b = checked (a ^ b.toNat) :=
        ((if_neg hneg).trans (if_neg hlarge)).trans (intPow_eq a _)
      exact .of_checked hop hexact (fun h => hlarge h.2) hregular

theorem shiftLeft_exactOrStops (a b : Int) : ExactOrStops .shiftLeft a b := by
  by_cases hneg : b < 0
  · refine .of_raised (if_pos hneg) (fun v h => ?_) (fun h => ?_) (iff_of_false nofun id)
      (iff_of_true rfl hneg) (iff_of_false nofun nofun) id
    · have := h.1
      omega
    · have := h.2
      omega
  · have hexact (v : Int) : IsExact .shiftLeft a b v ↔ v = a * 2 ^ b.toNat :=
      ⟨fun h => h.2, fun h => ⟨by omega, h⟩⟩
    have hregular : Regular .shiftLeft a b := ⟨id, hneg, nofun, id⟩
    by_cases hlarge : 64 ≤ b
    · have hop : intOp .shiftLeft a b = .error .overflow := (if_neg hneg).trans (if_pos hlarge)
      by_cases ha : a = 0
      · exact .of_overtaxes hop ⟨ha, hlarge⟩ hregular
      · have hfits : fits (a * 2 ^ b.toNat) = false := not_fits_shift ha (by omega)
        rw [← checked_eq_overflow_iff] at hfits
        exact .of_checked (hop.trans hfits.symm) hexact (fun h => ha h.1) hregular
    · exact .of_checked ((if_neg hneg).trans (if_neg hlarge)) hexact (fun h => hlarge h.2) hregular

theorem shiftRight_exactOrStops (ha : fits a = true) (b : Int) : ExactOrStops .shiftRight a b := by
  by_cases hneg : b < 0
  · refine .of_raised (if_pos hneg) (fun v h => ?_) id (iff_of_false nofun id)
      (iff_of_true rfl hneg) (iff_of_false nofun nofun) id
    have := h.1
    omega
  · have hop : intOp .shiftRight a b = checked (a >>> (min b 63).toNat) := by
      rw [checked, if_pos (fits_shiftRight ha _)]
      exact if_neg hneg
    exact .of_checked hop (isExact_shiftRight_iff ha (by omega)) id ⟨id, hneg, nofun, id⟩

/-- The three bitwise operators, by what they do with one bit and with 64. -/
theorem bitwise_exactOrStops {op : BinOp} {f : BitVec 64 → BitVec 64 → BitVec 64}
    {g : Bool → Bool → Bool} (hf : ∀ x y i, (f x y).getLsbD i = g (x.getLsbD i) (y.getLsbD i))
    (hop : intOp op a b = .ok (bitwise f a b))
    (hexact : ∀ v, IsExact op a b v ↔ ∀ i, v.testBit i = g (a.testBit i) (b.testBit i))
    (ha : fits a = true) (hb : fits b = true) (hover : ¬ Overtaxes op a b) (h : Regular op a b) :
    ExactOrStops op a b := by
  refine .of_checked (w := (f (BitVec.ofInt 64 a) (BitVec.ofInt 64 b)).toInt) ?_ (fun v => ?_) hover h
  · rw [hop, checked, if_pos (fits_toInt _)]
    rfl
  · rw [hexact, eq_bitwise_iff hf ha hb]

end Operators

/-- Integer operators are exact or stop. -/
theorem intOp_exactOrStops (op : BinOp) {a b : Int} (ha : fits a = true) (hb : fits b = true) :
    ExactOrStops op a b := by
  cases op with
  | add | sub | mul => exact .of_checked rfl (fun _ => Iff.rfl) id ⟨id, id, nofun, id⟩
  | div => exact div_exactOrStops a b
  | floorDiv => exact floorDiv_exactOrStops a b
  | mod => exact mod_exactOrStops ha hb
  | pow => exact pow_exactOrStops a b
  | shiftLeft => exact shiftLeft_exactOrStops a b
  | shiftRight => exact shiftRight_exactOrStops ha b
  | bitOr =>
    exact bitwise_exactOrStops (fun _ _ _ => BitVec.getLsbD_or) rfl (fun _ => Iff.rfl) ha hb id
      ⟨id, id, nofun, id⟩
  | bitXor =>
    exact bitwise_exactOrStops (fun _ _ _ => BitVec.getLsbD_xor) rfl (fun _ => Iff.rfl) ha hb id
      ⟨id, id, nofun, id⟩
  | bitAnd =>
    exact bitwise_exactOrStops (fun _ _ _ => BitVec.getLsbD_and) rfl (fun _ => Iff.rfl) ha hb id
      ⟨id, id, nofun, id⟩
  | matMul =>
    exact .of_raised rfl (fun _ => id) id (iff_of_false nofun id) (iff_of_false nofun id)
      (iff_of_true rfl rfl) id

/-- At the edge of 64 bits: the quotient and the remainder of the least integer by -1 halt the run, though
the remainder is 0; shifted by 63 places, -1 gives the least integer, and by 64 places it halts. -/
theorem intOp_exactOrStops_minInt :
    intOp .floorDiv minInt (-1) = .error .overflow ∧ intOp .mod minInt (-1) = .error .overflow ∧
      intOp .shiftLeft (-1) 63 = .ok (.int minInt) ∧
      intOp .shiftLeft (-1) 64 = .error .overflow := by
  have hmin : fits minInt = true := by decide
  have hone : fits (-1) = true := by decide
  refine ⟨?_, ?_, ?_, ?_⟩
  · rw [(intOp_exactOrStops .floorDiv hmin hone).overflow]
    exact .inl ⟨-minInt, ⟨0, by decide, .inr (by decide)⟩, by decide⟩
  · rw [(intOp_exactOrStops .mod hmin hone).overflow]
    exact .inr ⟨rfl, rfl⟩
  · rw [(intOp_exactOrStops .shiftLeft hone (b := 63) (by decide)).exact]
    exact ⟨⟨by decide, by decide⟩, hmin, fun h => absurd h.1 (by decide)⟩
  · rw [(intOp_exactOrStops .shiftLeft hone (b := 64) (by decide)).overflow]
    exact .inl ⟨-1 * 2 ^ 64, ⟨by decide, rfl⟩, by decide⟩

end Concord.Machine
