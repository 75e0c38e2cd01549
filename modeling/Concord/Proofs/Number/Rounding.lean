import Concord.Number.Binary
import Mathlib.Algebra.Order.Field.Basic
import Mathlib.Algebra.Order.Field.Power
import Mathlib.Algebra.Order.Field.Rat
import Mathlib.Tactic.FieldSimp
import Mathlib.Tactic.Linarith
import Mathlib.Tactic.Ring

/-!
# Rounding to double precision

Rounding keeps the order of numbers, and integers of at most 53 bits stay as they are; so a rounded
number stays on its side of every such integer. Both follow from the two steps of
`Binary.ofFraction`: a quotient is scaled so that it has 53 bits before the point
(`exponentOf_bounds`), and then the integer next to it is taken (`roundHalfEven_mono`). There is no
least exponent, so no positive number is rounded to zero.
-/

namespace Concord.Binary

/-! ## The integer next to a quotient -/

/-- A quotient that is at most `q` is rounded to at most `q`. -/
theorem roundHalfEven_le {num den q : Nat} (hden : 0 < den) (h : num ≤ q * den) :
    roundHalfEven num den ≤ q := by
  have hdiv : num / den ≤ q := Nat.div_le_of_le_mul (by rwa [Nat.mul_comm])
  have hmod : den * (num / den) + num % den = num := Nat.div_add_mod num den
  unfold roundHalfEven
  simp only
  rcases Nat.lt_or_eq_of_le hdiv with hlt | heq
  · split
    · exact hdiv
    · split
      · exact hlt
      · split
        · exact hdiv
        · exact hlt
  · -- The quotient is `q` itself, so that nothing is left to round.
    have hrest : num % den = 0 := by
      rw [heq, Nat.mul_comm] at hmod
      omega
    rw [hrest, if_pos (by omega)]
    exact hdiv

theorem le_roundHalfEven {num den q : Nat} (hden : 0 < den) (h : q * den ≤ num) :
    q ≤ roundHalfEven num den := by
  have hdiv : q ≤ num / den := (Nat.le_div_iff_mul_le hden).mpr h
  unfold roundHalfEven
  simp only
  split
  · exact hdiv
  · split
    · omega
    · split <;> omega

/-- The integer next to a quotient grows with the quotient. -/
theorem roundHalfEven_mono {num den num' den' : Nat} (hden : 0 < den) (hden' : 0 < den')
    (h : num * den' ≤ num' * den) : roundHalfEven num den ≤ roundHalfEven num' den' := by
  have hmod : den * (num / den) + num % den = num := Nat.div_add_mod num den
  have hmod' : den' * (num' / den') + num' % den' = num' := Nat.div_add_mod num' den'
  rcases Nat.lt_or_ge (num / den) (num' / den') with hlt | hge
  · -- The quotients are on different sides of an integer.
    have hup : roundHalfEven num den ≤ num / den + 1 := by
      refine roundHalfEven_le hden ?_
      have hrest := Nat.mod_lt num hden
      calc num = den * (num / den) + num % den := hmod.symm
        _ ≤ den * (num / den) + den := Nat.add_le_add_left hrest.le _
        _ = (num / den + 1) * den := by ring
    have hdown : num' / den' ≤ roundHalfEven num' den' :=
      le_roundHalfEven hden' (Nat.div_mul_le_self num' den')
    omega
  · have hfloor : num / den = num' / den' := by
      refine le_antisymm ?_ hge
      rw [Nat.le_div_iff_mul_le hden']
      have hbelow : num / den * den * den' ≤ num' * den :=
        (Nat.mul_le_mul_right _ (Nat.div_mul_le_self num den)).trans h
      rw [Nat.mul_right_comm] at hbelow
      exact Nat.le_of_mul_le_mul_right hbelow hden
    -- What is left of them is in the same order.
    have hrest : num % den * den' ≤ num' % den' * den := by
      rw [← hmod, ← hmod', ← hfloor] at h
      have hexpand : den * (num / den) * den' + num % den * den' ≤
          den' * (num / den) * den + num' % den' * den := by
        rw [← Nat.add_mul, ← Nat.add_mul]
        exact h
      have hsame : den * (num / den) * den' = den' * (num / den) * den := by ring
      omega
    unfold roundHalfEven
    simp only [← hfloor]
    have hlow : den < 2 * (num % den) → den' < 2 * (num' % den') := by
      intro hgt
      by_contra hnot
      have hup : 2 * (num' % den' * den) ≤ den' * den := by
        rw [← Nat.mul_assoc]
        exact Nat.mul_le_mul_right _ (not_lt.mp hnot)
      have hdown : den * den' < 2 * (num % den * den') := by
        rw [← Nat.mul_assoc]
        exact Nat.mul_lt_mul_of_pos_right hgt hden'
      rw [Nat.mul_comm den den'] at hdown
      omega
    have hhalf : den ≤ 2 * (num % den) → den' ≤ 2 * (num' % den') := by
      intro hge
      by_contra hnot
      have hup : 2 * (num' % den' * den) < den' * den := by
        rw [← Nat.mul_assoc]
        exact Nat.mul_lt_mul_of_pos_right (not_le.mp hnot) hden
      have hdown : den * den' ≤ 2 * (num % den * den') := by
        rw [← Nat.mul_assoc]
        exact Nat.mul_le_mul_right _ hge
      rw [Nat.mul_comm den den'] at hdown
      omega
    grind

/-! ## Mantissas and exponents -/

/-- A number is its mantissa times a power of two. -/
theorem toRat_eq (b : Binary) : b.toRat = b.mantissa * (2 : Rat) ^ b.exponent := by
  unfold toRat toFraction scale
  rw [Rat.mkRat_eq_div]
  split
  · rename_i h
    obtain ⟨k, hk⟩ := Int.eq_ofNat_of_zero_le h
    rw [hk, Int.toNat_natCast, zpow_natCast, Nat.pow_eq]
    push_cast
    ring
  · rename_i h
    obtain ⟨k, hk⟩ := Int.eq_ofNat_of_zero_le (a := -b.exponent) (by omega)
    have hexp : b.exponent = -(k : Int) := by omega
    rw [hexp, neg_neg, Int.toNat_natCast, zpow_neg, zpow_natCast, Nat.pow_eq]
    push_cast
    ring

theorem toRat_nonneg (b : Binary) : 0 ≤ b.toRat := by
  rw [toRat_eq]
  positivity

theorem scale_pos {num den : Nat} (hden : 0 < den) (e : Int) : 0 < (scale num den e).2 := by
  unfold scale
  split
  · exact hden
  · exact Nat.mul_pos hden (Nat.pow_pos (by decide))

/-- What is scaled is the quotient times a power of two. -/
theorem scale_quotient (num den : Nat) (e : Int) :
    ((scale num den e).1 : Rat) / (scale num den e).2 = (num : Rat) / den * (2 : Rat) ^ e := by
  unfold scale
  split
  · rename_i h
    obtain ⟨k, rfl⟩ := Int.eq_ofNat_of_zero_le h
    rw [Int.toNat_natCast, zpow_natCast, Nat.pow_eq]
    push_cast
    ring
  · rename_i h
    obtain ⟨k, hk⟩ := Int.eq_ofNat_of_zero_le (a := -e) (by omega)
    have hexp : e = -(k : Int) := by omega
    rw [hexp, neg_neg, Int.toNat_natCast, zpow_neg, zpow_natCast, Nat.pow_eq]
    push_cast
    rw [← div_eq_mul_inv, div_div]

/-- Scaled by its exponent, a quotient has 53 bits before the point. -/
theorem exponentOf_bounds {num den : Nat} (hnum : num ≠ 0) (hden : 0 < den) :
    (2 : Rat) ^ 52 ≤ (num : Rat) / den * 2 ^ (-exponentOf num den) ∧
      (num : Rat) / den * 2 ^ (-exponentOf num den) < 2 ^ 53 := by
  have hden' : (0 : Rat) < den := by exact_mod_cast hden
  have hlow : ((2 : Rat) ^ num.log2) ≤ num := by exact_mod_cast Nat.log2_self_le hnum
  have hhigh : (num : Rat) < 2 ^ (num.log2 + 1) := by exact_mod_cast Nat.lt_log2_self
  have hlow' : ((2 : Rat) ^ den.log2) ≤ den := by exact_mod_cast Nat.log2_self_le hden.ne'
  have hhigh' : (den : Rat) < 2 ^ (den.log2 + 1) := by exact_mod_cast Nat.lt_log2_self
  -- With the first guess there are 52 or 53 bits.
  generalize hguess : (num.log2 : Int) - (den.log2 : Int) - 52 = guess
  have hsplit : (2 : Rat) ^ (-guess) * 2 ^ num.log2 = 2 ^ 52 * 2 ^ den.log2 := by
    rw [← zpow_natCast, ← zpow_natCast, ← zpow_natCast, ← zpow_add₀ (by norm_num),
      ← zpow_add₀ (by norm_num)]
    congr 1
    omega
  have hpos : (0 : Rat) < 2 ^ (-guess) := by positivity
  have hmin : (2 : Rat) ^ 51 < (num : Rat) / den * 2 ^ (-guess) := by
    rw [div_mul_eq_mul_div, lt_div_iff₀ hden']
    calc (2 : Rat) ^ 51 * den < 2 ^ 51 * 2 ^ (den.log2 + 1) := by gcongr
      _ = 2 ^ (-guess) * 2 ^ num.log2 := by rw [hsplit]; ring
      _ ≤ num * 2 ^ (-guess) := by rw [mul_comm]; gcongr
  have hmax : (num : Rat) / den * 2 ^ (-guess) < 2 ^ 53 := by
    rw [div_mul_eq_mul_div, div_lt_iff₀ hden']
    calc (num : Rat) * 2 ^ (-guess) < 2 ^ (num.log2 + 1) * 2 ^ (-guess) := by gcongr
      _ = 2 ^ 53 * 2 ^ den.log2 := by
        rw [pow_succ, mul_right_comm, mul_comm ((2 : Rat) ^ num.log2), hsplit]; ring
      _ ≤ 2 ^ 53 * den := by gcongr
  have hscale := scale_quotient num den (-guess)
  have hd : 0 < (scale num den (-guess)).2 := scale_pos hden _
  have hd' : (0 : Rat) < (scale num den (-guess)).2 := by exact_mod_cast hd
  unfold exponentOf
  simp only [hguess]
  split
  · rename_i hlt
    rw [Nat.pow_eq, Nat.div_lt_iff_lt_mul hd] at hlt
    have hshort : (num : Rat) / den * 2 ^ (-guess) < 2 ^ 52 := by
      rw [← hscale, div_lt_iff₀ hd']
      exact_mod_cast hlt
    have hshift : (2 : Rat) ^ (-(guess - 1)) = 2 ^ (-guess) * 2 := by
      rw [neg_sub, sub_eq_neg_add, zpow_add₀ (by norm_num), zpow_one]
    rw [hshift, ← mul_assoc]
    constructor <;> linarith
  · rename_i hge
    rw [Nat.pow_eq, Nat.div_lt_iff_lt_mul hd, not_lt] at hge
    refine ⟨?_, hmax⟩
    rw [← hscale, le_div_iff₀ hd']
    exact_mod_cast hge

/-- A rounded quotient is the integer next to the scaled one, scaled back. -/
theorem toRat_ofFraction {num den : Nat} (hnum : num ≠ 0) :
    (ofFraction num den).toRat =
      roundHalfEven (scale num den (-exponentOf num den)).1 (scale num den (-exponentOf num den)).2 *
        (2 : Rat) ^ exponentOf num den := by
  unfold ofFraction
  rw [if_neg hnum]
  simp only
  split
  · rename_i hm
    rw [hm, toRat_eq, zpow_add₀ (by norm_num), zpow_one, Nat.pow_eq, Nat.pow_eq]
    push_cast
    ring
  · exact toRat_eq _

/-- The mantissa of a number that is not zero has 53 bits. -/
theorem le_mantissa {num den : Nat} (hnum : num ≠ 0) (hden : 0 < den) :
    2 ^ 52 ≤ roundHalfEven (scale num den (-exponentOf num den)).1
      (scale num den (-exponentOf num den)).2 := by
  obtain ⟨hlow, -⟩ := exponentOf_bounds hnum hden
  have hd : 0 < (scale num den (-exponentOf num den)).2 := scale_pos hden _
  refine le_roundHalfEven hd ?_
  rw [← scale_quotient, le_div_iff₀ (by exact_mod_cast hd)] at hlow
  exact_mod_cast hlow

theorem ofFraction_mono {num den num' den' : Nat} (hnum : num ≠ 0) (hden : 0 < den)
    (hnum' : num' ≠ 0) (hden' : 0 < den') (h : (num : Rat) / den ≤ (num' : Rat) / den') :
    (ofFraction num den).toRat ≤ (ofFraction num' den').toRat := by
  obtain ⟨hlow, hhigh⟩ := exponentOf_bounds hnum hden
  obtain ⟨hlow', hhigh'⟩ := exponentOf_bounds hnum' hden'
  have hdown := le_mantissa hnum' hden'
  rw [toRat_ofFraction hnum, toRat_ofFraction hnum']
  have hquotient := scale_quotient num den (-exponentOf num den)
  have hquotient' := scale_quotient num' den' (-exponentOf num' den')
  have hd : 0 < (scale num den (-exponentOf num den)).2 := scale_pos hden _
  have hd' : 0 < (scale num' den' (-exponentOf num' den')).2 := scale_pos hden' _
  generalize exponentOf num den = e at *
  generalize exponentOf num' den' = e' at *
  generalize scale num den (-e) = p at *
  generalize scale num' den' (-e') = p' at *
  have hdq : (0 : Rat) < p.2 := by exact_mod_cast hd
  have hdq' : (0 : Rat) < p'.2 := by exact_mod_cast hd'
  have hle : e ≤ e' := by
    by_contra hnot
    have hgt : e' + 1 ≤ e := by omega
    have hpow : (2 : Rat) ^ (-e) * 2 ≤ 2 ^ (-e') := by
      rw [← zpow_add_one₀ (by norm_num)]
      exact zpow_le_zpow_right₀ (by norm_num) (by omega)
    have hsmall : (num : Rat) / den * 2 ^ (-e) * 2 ≤ (num' : Rat) / den' * 2 ^ (-e') := by
      rw [mul_assoc]
      gcongr
    linarith
  rcases eq_or_lt_of_le hle with rfl | hlt
  · -- Of one exponent, the numbers are in the order of their mantissas.
    have hmono : roundHalfEven p.1 p.2 ≤ roundHalfEven p'.1 p'.2 := by
      refine roundHalfEven_mono hd hd' ?_
      have hq : (p.1 : Rat) / p.2 ≤ (p'.1 : Rat) / p'.2 := by
        rw [hquotient, hquotient']
        gcongr
      rw [div_le_div_iff₀ hdq hdq'] at hq
      exact_mod_cast hq
    gcongr
  · -- Otherwise a power of two lies between them.
    have hup : roundHalfEven p.1 p.2 ≤ 2 ^ 53 := by
      refine roundHalfEven_le hd ?_
      rw [← hquotient, div_lt_iff₀ hdq] at hhigh
      exact_mod_cast hhigh.le
    calc (roundHalfEven p.1 p.2 : Rat) * 2 ^ e ≤ (2 ^ 53 : Nat) * 2 ^ e := by gcongr
      _ = (2 ^ 52 : Nat) * 2 ^ (e + 1) := by
        rw [zpow_add_one₀ (by norm_num)]; push_cast; ring
      _ ≤ (2 ^ 52 : Nat) * 2 ^ e' := by
        gcongr
        · norm_num
        · omega
      _ ≤ roundHalfEven p'.1 p'.2 * 2 ^ e' := by gcongr

/-! ## Rounding rationals -/

theorem round_zero : round 0 = 0 := by decide

theorem round_of_nonneg {r : Rat} (h : 0 ≤ r) : round r = (ofRat r).toRat := by
  unfold round
  simp only
  rw [if_neg (by simpa using h)]

theorem round_nonneg {r : Rat} (h : 0 ≤ r) : 0 ≤ round r := by
  rw [round_of_nonneg h]
  exact toRat_nonneg _

/-- A positive number as the quotient that is rounded. -/
theorem natAbs_num_div_den {r : Rat} (h : 0 < r) :
    r.num.natAbs ≠ 0 ∧ (r.num.natAbs : Rat) / r.den = r := by
  refine ⟨Int.natAbs_ne_zero.mpr (Rat.num_ne_zero.mpr h.ne'), ?_⟩
  have habs : (r.num.natAbs : Int) = r.num := Int.natAbs_of_nonneg (Rat.num_nonneg.mpr h.le)
  rw [← Int.cast_natCast, habs, Rat.num_div_den]

/-- A positive number is not rounded to zero. -/
theorem round_pos {r : Rat} (h : 0 < r) : 0 < round r := by
  obtain ⟨hnum, -⟩ := natAbs_num_div_den h
  have hm : (0 : Rat) < roundHalfEven (scale r.num.natAbs r.den (-exponentOf r.num.natAbs r.den)).1
      (scale r.num.natAbs r.den (-exponentOf r.num.natAbs r.den)).2 := by
    exact_mod_cast lt_of_lt_of_le (by decide) (le_mantissa hnum r.den_pos)
  rw [round_of_nonneg h.le, ofRat, toRat_ofFraction hnum]
  positivity

/-- Rounding keeps the order of numbers that are not negative. -/
theorem round_mono {r s : Rat} (hr : 0 ≤ r) (h : r ≤ s) : round r ≤ round s := by
  have hs : 0 ≤ s := hr.trans h
  rcases eq_or_lt_of_le hr with rfl | hpos
  · rw [round_zero]
    exact round_nonneg hs
  · obtain ⟨hnum, hval⟩ := natAbs_num_div_den hpos
    obtain ⟨hnum', hval'⟩ := natAbs_num_div_den (hpos.trans_le h)
    rw [round_of_nonneg hr, round_of_nonneg hs]
    exact ofFraction_mono hnum r.den_pos hnum' s.den_pos (by rwa [hval, hval'])

/-- Integers of at most 53 bits are doubles. -/
theorem round_natCast {n : Nat} (h : n ≤ 2 ^ 53) : round n = n := by
  rcases Nat.eq_zero_or_pos n with rfl | hpos
  · exact round_zero
  rcases eq_or_lt_of_le h with rfl | hlt
  · decide +kernel
  · obtain ⟨hlow, -⟩ := exponentOf_bounds hpos.ne' Nat.one_pos
    have hexp : exponentOf n 1 ≤ 0 := by
      by_contra hnot
      have hpow : (2 : Rat) ^ (-exponentOf n 1) ≤ 2 ^ (-1 : Int) :=
        zpow_le_zpow_right₀ (by norm_num) (by omega)
      have hn : (n : Rat) ≤ 2 ^ 53 - 1 := by
        rw [le_sub_iff_add_le]
        exact_mod_cast hlt
      rw [Nat.cast_one, div_one] at hlow
      have hup : (n : Rat) * 2 ^ (-exponentOf n 1) ≤ (2 ^ 53 - 1) * 2 ^ (-1 : Int) := by gcongr
      have hnum : ((2 : Rat) ^ 53 - 1) * 2 ^ (-1 : Int) < 2 ^ 52 := by norm_num
      linarith
    have hscale : scale n 1 (-exponentOf n 1) = (n * 2 ^ (-exponentOf n 1).toNat, 1) := by
      unfold scale
      rw [if_pos (by omega), Nat.pow_eq]
    have hwhole : ∀ k, roundHalfEven k 1 = k := by
      intro k
      simp [roundHalfEven, Nat.mod_one]
    obtain ⟨k, hk⟩ := Int.eq_ofNat_of_zero_le (a := -exponentOf n 1) (by omega)
    have hexp' : exponentOf n 1 = -(k : Int) := by omega
    rw [round_of_nonneg (by exact_mod_cast n.zero_le)]
    unfold ofRat
    rw [Rat.num_natCast, Rat.den_natCast, Int.natAbs_natCast, toRat_ofFraction hpos.ne', hscale,
      hwhole, hexp', neg_neg, Int.toNat_natCast, zpow_neg, zpow_natCast]
    push_cast
    field_simp

end Concord.Binary

namespace Concord

/-! ## Ways to round -/

/-- A way to round rationals that are not negative: it keeps their order, rounds nothing positive to
zero, and leaves integers of at most 53 bits alone. -/
structure Rounding (round : Rat → Rat) : Prop where
  mono : ∀ {r s : Rat}, 0 ≤ r → r ≤ s → round r ≤ round s
  pos : ∀ {r : Rat}, 0 < r → 0 < round r
  natCast : ∀ {n : Nat}, n ≤ 2 ^ 53 → round n = n

namespace Rounding

/-- Exact numbers. -/
theorem exact : Rounding id where
  mono _ h := h
  pos h := h
  natCast _ := rfl

/-- Double precision. -/
theorem double : Rounding Binary.round where
  mono := Binary.round_mono
  pos := Binary.round_pos
  natCast := Binary.round_natCast

variable {round : Rat → Rat} (h : Rounding round)

include h

theorem zero : round 0 = 0 := by exact_mod_cast h.natCast (n := 0) (by decide)

theorem one : round 1 = 1 := by exact_mod_cast h.natCast (n := 1) (by decide)

theorem nonneg {r : Rat} (hr : 0 ≤ r) : 0 ≤ round r := by
  have hround := h.mono le_rfl hr
  rwa [h.zero] at hround

theorem le_natCast {r : Rat} {n : Nat} (hr : 0 ≤ r) (hn : n ≤ 2 ^ 53) (hle : r ≤ n) :
    round r ≤ n := by
  have hround := h.mono hr hle
  rwa [h.natCast hn] at hround

theorem le_one {r : Rat} (hr : 0 ≤ r) (hle : r ≤ 1) : round r ≤ 1 := by
  exact_mod_cast h.le_natCast (n := 1) hr (by decide) (by exact_mod_cast hle)

theorem eq_zero_iff {r : Rat} (hr : 0 ≤ r) : round r = 0 ↔ r = 0 := by
  constructor
  · intro hround
    by_contra hne
    exact absurd hround (h.pos (lt_of_le_of_ne hr (Ne.symm hne))).ne'
  · rintro rfl
    exact h.zero

end Rounding

end Concord
