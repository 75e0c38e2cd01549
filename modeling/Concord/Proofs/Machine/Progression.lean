import Mathlib.Algebra.Order.Ring.Int
import Mathlib.Tactic.ByContra
import Concord.Machine.Native
import Concord.Proofs.Machine.Plain
import Concord.Proofs.Machine.Budget

/-!
# Ranges as arithmetic progressions

A range stands for the integers `start`, `start + step`, and so on, strictly before `stop`. Going through
it, asking for a member, its length and its truth value all speak of this one progression, up to the bounds
of 64 bits. Reaching a member by its index does so as long as the distance from `start` fits in 64 bits.

Main statement: `Machine.range_progression`.
-/

namespace Concord.Machine

theorem fits_iff {i : Int} : fits i = true ↔ minInt ≤ i ∧ i ≤ maxInt := decide_eq_true_iff

/-- Steps from the next member on. -/
theorem step_add_mul (i step : Int) (k : Nat) : i + step + k * step = i + (k + 1 : Nat) * step := by
  push_cast
  rw [add_mul, one_mul, add_assoc, add_comm step]

namespace Range

variable {start stop step : Int}

/-! ## The length -/

/-- The length counts the members: the progression leaves the range once and for all. -/
theorem lt_length_iff (hstep : step ≠ 0) (k : Nat) :
    k < length start stop step ↔ Before stop step (start + k * step) := by
  unfold length Before
  rcases lt_or_gt_of_ne hstep with hdown | hup
  · rw [if_neg (by omega)]
    have hprod : (k : Int) * step = -(k * -step) := by rw [mul_neg, neg_neg]
    have hpos : 0 ≤ (k : Int) * -step := mul_nonneg (by omega) (by omega)
    by_cases hsome : stop < start
    · rw [if_pos ⟨hdown, hsome⟩, Int.lt_toNat, ← Int.add_one_le_iff, Int.le_ediv_iff_mul_le (by omega),
        add_mul]
      omega
    · rw [if_neg fun h => hsome h.2]
      omega
  · have hpos : 0 ≤ (k : Int) * step := mul_nonneg (by omega) (by omega)
    by_cases hsome : start < stop
    · rw [if_pos ⟨hup, hsome⟩, Int.lt_toNat, ← Int.add_one_le_iff, Int.le_ediv_iff_mul_le hup, add_mul]
      omega
    · rw [if_neg fun h => hsome h.2, if_neg (by omega)]
      omega

/-- Members of a range between integers of 64 bits fit in 64 bits. -/
theorem fits_member (hstart : fits start = true) (hstop : fits stop = true) (hstep : step ≠ 0) {k : Nat}
    (hk : k < length start stop step) : fits (start + k * step) = true := by
  rw [fits_iff] at *
  rcases (lt_length_iff hstep k).mp hk with ⟨hup, hbefore⟩ | ⟨hdown, hbefore⟩
  · have hpos : 0 ≤ (k : Int) * step := mul_nonneg (by omega) (by omega)
    omega
  · have hneg : (k : Int) * step ≤ 0 := mul_nonpos_of_nonneg_of_nonpos (by omega) (by omega)
    omega

/-! ## The members -/

/-- A walk that stays within 64 bits is a progression. -/
theorem walk_eq (count : Nat) (i step : Int) (hfits : ∀ k < count, fits (i + k * step) = true) :
    walk count i step = (List.range count).map fun k : Nat => i + k * step := by
  induction count generalizing i with
  | zero => rfl
  | succ count ih =>
    rw [walk, List.range_succ_eq_map, List.map_cons, List.map_map]
    congr 1
    · simp
    · -- The last member is followed by nothing, so that it does not matter where its successor lies.
      rcases Nat.eq_zero_or_pos count with rfl | hcount
      · rfl
      · have hnext : saturate (i + step) = i + step := by
          apply saturate_eq_self
          simpa using hfits 1 (by omega)
        rw [hnext, ih]
        · exact List.map_congr_left fun k _ => step_add_mul i step k
        · intro k hk
          rw [step_add_mul]
          exact hfits (k + 1) (by omega)

theorem members_eq (hstart : fits start = true) (hstop : fits stop = true) (hstep : step ≠ 0) :
    members start stop step =
      (List.range (length start stop step)).map fun k : Nat => start + k * step :=
  walk_eq _ _ _ fun _ hk => fits_member hstart hstop hstep hk

/-- The members are the integers strictly before `stop`, but not before `start`, that some steps lead to. -/
theorem exists_member_iff (hstep : step ≠ 0) (i : Int) :
    (∃ k < length start stop step, i = start + (k : Nat) * step) ↔
      Before stop step i ∧ ¬ Before start step i ∧ step ∣ i - start := by
  constructor
  · rintro ⟨k, hk, rfl⟩
    refine ⟨(lt_length_iff hstep k).mp hk, ?_, by rw [add_sub_cancel_left]; exact dvd_mul_left _ _⟩
    rintro (⟨hup, hlt⟩ | ⟨hdown, hlt⟩)
    · have : 0 ≤ (k : Int) * step := mul_nonneg (by omega) (by omega)
      omega
    · have : (k : Int) * step ≤ 0 := mul_nonpos_of_nonneg_of_nonpos (by omega) (by omega)
      omega
  · rintro ⟨hbefore, hside, q, hq⟩
    -- No negative number of steps leads to a member.
    have hnonneg : 0 ≤ q := by
      by_contra hneg
      apply hside
      rcases lt_or_gt_of_ne hstep with hdown | hup
      · have := mul_pos_of_neg_of_neg hdown (not_le.mp hneg)
        exact .inr ⟨hdown, by omega⟩
      · have := mul_neg_of_pos_of_neg hup (not_le.mp hneg)
        exact .inl ⟨hup, by omega⟩
    obtain ⟨k, rfl⟩ := Int.eq_ofNat_of_zero_le hnonneg
    have hi : i = start + k * step := by
      rw [mul_comm] at hq
      omega
    exact ⟨k, (lt_length_iff hstep k).mpr (hi ▸ hbefore), hi⟩

/-- An integer belongs to a range if and only if it is one of the members. -/
theorem holds_iff (hstep : step ≠ 0) (i : Int) :
    holds start stop step i = true ↔ ∃ k < length start stop step, i = start + (k : Nat) * step := by
  have hbounds : (if 0 < step then decide (start ≤ i ∧ i < stop) else decide (i ≤ start ∧ stop < i)) = true ↔
      Before stop step i ∧ ¬ Before start step i := by
    unfold Before
    split <;> rw [decide_eq_true_iff] <;> omega
  unfold holds
  rw [Bool.and_eq_true, Bool.and_eq_true, hbounds, beq_iff_eq, decide_eq_true_iff]
  constructor
  · rintro ⟨⟨⟨hbefore, hside⟩, hmod⟩, -⟩
    exact (exists_member_iff hstep i).mpr ⟨hbefore, hside, Int.dvd_of_emod_eq_zero hmod⟩
  · intro hmember
    obtain ⟨hbefore, hside, hdvd⟩ := (exists_member_iff hstep i).mp hmember
    obtain ⟨k, hk, -⟩ := hmember
    exact ⟨⟨⟨hbefore, hside⟩, Int.emod_eq_zero_of_dvd hdvd⟩, by omega⟩

/-! ## Reaching a member -/

/-- Arithmetic that stops at the bounds of 64 bits finds a member if and only if its distance from `start`
fits: a member lies strictly before `stop`, so that it is no bound itself. -/
theorem saturate_member_iff (hstart : fits start = true) (hstop : fits stop = true) (hstep : step ≠ 0)
    {k : Nat} (hk : k < length start stop step) :
    saturate (start + saturate (k * step)) = start + k * step ↔ fits (k * step) = true := by
  have hmember := fits_member hstart hstop hstep hk
  constructor
  · intro hreached
    have hbefore := (lt_length_iff hstep k).mp hk
    rw [fits_iff] at *
    unfold Before at hbefore
    unfold saturate minInt maxInt at *
    omega
  · intro hdistance
    rw [saturate_eq_self hdistance, saturate_eq_self hmember]

end Range

/-! ## Ranges as values -/

section

variable {start stop step : Int}

/-- Going through a range is charged for, and gives the progression. -/
theorem iterate_range (hstart : fits start = true) (hstop : fits stop = true) (hstep : step ≠ 0) :
    iterate (.range start stop step) = (Exec.charge (Range.length start stop step) >>= fun _ =>
      pure ((List.range (Range.length start stop step)).map fun k : Nat => .int (start + k * step))) := by
  show (Exec.charge (Range.length start stop step) >>= fun _ =>
    pure ((Range.members start stop step).map .int) : Exec (List Value)) = _
  rw [Range.members_eq hstart hstop hstep, List.map_map]
  rfl

/-- An index that stands for the place `k` reaches what saturating arithmetic makes of it. -/
theorem getItem_range {index : Value} {k : Nat}
    (hplace : position index (Range.length start stop step) "range object index out of range" = .ok k) :
    getItem (.range start stop step) index =
      pure (.int (saturate (start + saturate (k * step)))) := by
  unfold getItem
  dsimp only
  rw [hplace]
  rfl

/-- Indices from the front and from the back stand for the places of items. -/
theorem position_of_lt {len k : Nat} (hlen : (len : Int) ≤ maxInt) (hk : k < len) (message : String) :
    position (.int k) len message = .ok k ∧ position (.int (k - len)) len message = .ok k := by
  have hmin : min (len : Int) maxInt = len := min_eq_left hlen
  have hfront : (if (k : Int) < 0 then (k : Int) + len else k) = k := if_neg (by omega)
  have hback : (if (k - len : Int) < 0 then (k - len : Int) + len else k - len) = k := by
    rw [if_pos (by omega), sub_add_cancel]
  constructor <;> simp only [position, Value.int?, Value.number?, hmin]
  · rw [hfront, if_pos (by omega), Int.toNat_natCast]
  · rw [hback, if_pos (by omega), Int.toNat_natCast]

/-- A range of integers of 64 bits, with not more members than an integer can count, is one progression
`start + k * step` for all its operations: its members are those strictly before `stop`; going through it,
asking for a member, its length and its truth value agree with them; and the indices `k` and `k - n` reach
the member number `k` if and only if `k * step` fits in 64 bits. -/
theorem range_progression (hstart : fits start = true) (hstop : fits stop = true)
    (hstep : step ≠ 0) (hlength : (Range.length start stop step : Int) ≤ maxInt) :
    let n := Range.length start stop step
    let r : Value := .range start stop step
    let member (k : Nat) : Int := start + k * step
    (∀ k, k < n ↔ Range.Before stop step (member k)) ∧
    (∀ s : State, n ≤ s.fuel →
      iterate r s = .ok ((List.range n).map fun k => .int (member k)) { s with fuel := s.fuel - n }) ∧
    (∀ i s, ∃ answer, contains r (.int i) s = .ok answer s ∧
      (answer = true ↔ ∃ k < n, i = member k)) ∧
    (∀ k < n, ∀ s, ∃ i, getItem r (.int k) s = .ok (.int i) s ∧
      getItem r (.int (k - n)) s = .ok (.int i) s ∧ (i = member k ↔ fits (k * step) = true)) ∧
    (∀ s, lengthOf r s = .ok (.int n) s) ∧
    ∀ s, Exec.truthy r s = .ok (decide (0 < n)) s := by
  intro n r member
  refine ⟨Range.lt_length_iff hstep, fun s hfuel => ?_, fun i s => ?_, fun k hk s => ?_, fun s => ?_,
    fun _ => rfl⟩
  · rw [iterate_range hstart hstop hstep, Exec.bind_apply, Exec.charge_apply, if_neg (by omega)]
    rfl
  · exact ⟨Range.holds start stop step i, rfl, Range.holds_iff hstep i⟩
  · obtain ⟨hfront, hback⟩ := position_of_lt hlength hk "range object index out of range"
    refine ⟨saturate (start + saturate (k * step)), ?_, ?_,
      Range.saturate_member_iff hstart hstop hstep hk⟩
    · rw [getItem_range hfront]
      rfl
    · rw [getItem_range hback]
      rfl
  · show EStateM.Result.ok (Value.int (min (Range.length start stop step) maxInt)) s = _
    rw [min_eq_left hlength]

/-- Downwards across zero, with the last member next to the least integer. -/
theorem range_progression_downwards :
    let start : Int := 0x3fffffffffffffff
    let step : Int := -0x4000000000000000
    (fits start = true ∧ fits minInt = true ∧ step ≠ 0 ∧
      (Range.length start minInt step : Int) ≤ maxInt) ∧
    ∀ s, ∃ i, getItem (.range start minInt step) (.int 2) s = .ok (.int i) s ∧
      getItem (.range start minInt step) (.int (2 - 3)) s = .ok (.int i) s ∧
      i = start + 2 * step := by
  intro start step
  have hlength : Range.length start minInt step = 3 := by decide
  have hstart : fits start = true := by decide
  have hstop : fits minInt = true := by decide
  have hcount : (Range.length start minInt step : Int) ≤ maxInt := by
    rw [hlength]
    decide
  refine ⟨⟨hstart, hstop, by decide, hcount⟩, fun s => ?_⟩
  obtain ⟨-, -, -, hitem, -, -⟩ := range_progression hstart hstop (by decide) hcount
  obtain ⟨i, hfront, hback, hi⟩ := hitem 2 (by rw [hlength]; decide) s
  rw [hlength] at hback
  exact ⟨i, hfront, hback, hi.mpr (by decide)⟩

/-- Four members from the least integer on, a quarter of all integers apart: the member number 2 is zero,
but its index gives -1, which is no member, as the distance from `start` is cut off. -/
theorem getItem_range_cut :
    let r : Value := .range minInt maxInt 0x4000000000000000
    Range.members minInt maxInt 0x4000000000000000 = [minInt, -0x4000000000000000, 0, 0x4000000000000000] ∧
    (∀ s, contains r (.int 0) s = .ok true s ∧ contains r (.int (-1)) s = .ok false s) ∧
    ∀ s, getItem r (.int 2) s = .ok (.int (-1)) s := by
  intro r
  exact ⟨by decide, fun _ => ⟨rfl, rfl⟩, fun _ => rfl⟩

end

end Concord.Machine
