import Mathlib.Data.List.Sort
import Concord.Proofs.Machine.Progression

/-!
# Slices and numbered items

A slice goes from its first position in strides up to its last one. Between the bounds of 64 bits this
picks the positions that Python picks: `Slice.selected` says which they are, without going from one to the
next. A stride behind the last position that passes the greatest integer starts again at the least one,
and picks positions that the slice does not have.

Numbering items adds their places to a start in the same arithmetic.

Main statements: `Machine.slicePositions_selected` and `Machine.native_enumerate`.
-/

namespace Concord.Machine

theorem wrap_of_fits {i : Int} (h : fits i = true) : wrap i = i := by
  rw [fits_iff] at h
  unfold wrap minInt maxInt at *
  omega

/-- What wraps round is another integer. -/
theorem wrap_eq_self_iff {i : Int} : wrap i = i ↔ fits i = true := by
  rw [fits_iff]
  unfold wrap minInt maxInt
  omega

/-! ## Python's positions -/

namespace Slice

/-- A bound of a slice of `len` items. A negative bound counts from the end, and a bound that lies outside
moves to the end on its side: behind the last item upwards, and before the first one downwards. -/
def adjust (len : Nat) (step bound : Int) : Int :=
  let place := if bound < 0 then bound + len else bound
  if place < 0 then (if step < 0 then -1 else 0)
  else if len ≤ place then (if step < 0 then len - 1 else len)
  else place

/-- A bound that may be left out: then it is the end that the direction says. -/
def bound (len : Nat) (step down up : Int) : Option Int → Int
  | none => if step < 0 then down else up
  | some place => adjust len step place

/-- Where a slice starts. -/
def start (len : Nat) (step : Int) (lower : Option Int) : Int := bound len step (len - 1) 0 lower

/-- Where a slice ends. -/
def stop (len : Nat) (step : Int) (upper : Option Int) : Int := bound len step (-1) len upper

/-- The positions of a slice: from its start on and before its end, those whose distance from the start is
a multiple of the step, in the direction of the step. -/
def selected (len : Nat) (lower upper step : Option Int) : List Nat :=
  let step := step.getD 1
  let start := start len step lower
  let stop := stop len step upper
  (if 0 < step then List.range len else (List.range len).reverse).filter fun i =>
    (if 0 < step then start ≤ i ∧ i < stop else i ≤ start ∧ stop < i) ∧ step ∣ i - start

end Slice

/-! ## Strides -/

section

variable {start stop step : Int}

/-- A range that has a first member has one member more than the range from the next one on. -/
theorem Range.length_succ (hstep : step ≠ 0) (h : Before stop step start) :
    length start stop step = length (start + step) stop step + 1 := by
  have hnext (k : Nat) : k < length (start + step) stop step ↔ k + 1 < length start stop step := by
    rw [lt_length_iff hstep, lt_length_iff hstep, step_add_mul]
  have hfirst : 0 < length start stop step := by
    rw [lt_length_iff hstep]
    simpa using h
  generalize length start stop step = n at hnext hfirst
  generalize length (start + step) stop step = m at hnext
  have hle := (hnext m).not.mp (lt_irrefl m)
  have hge := (hnext (n - 1)).mp
  omega

theorem Range.length_eq_zero (hstep : step ≠ 0) (h : ¬ Before stop step start) :
    length start stop step = 0 := by
  by_contra hpos
  have hfirst : 0 < length start stop step := Nat.pos_of_ne_zero hpos
  rw [lt_length_iff hstep] at hfirst
  apply h
  simpa using hfirst

/-- Strides that stay within 64 bits go through the members of a range. -/
theorem strides_eq (hstep : step ≠ 0) {fuel : Nat} {i : Int}
    (hfuel : Range.length i stop step ≤ fuel)
    (hfits : ∀ k < Range.length i stop step, fits (i + k * step + step) = true) :
    strides fuel i stop step = (List.range (Range.length i stop step)).map fun k : Nat => i + k * step := by
  induction fuel generalizing i with
  | zero =>
    rw [Nat.le_zero.mp hfuel]
    rfl
  | succ fuel ih =>
    by_cases hbefore : Range.Before stop step i
    · have hlength := Range.length_succ hstep hbefore
      have hnext : wrap (i + step) = i + step := by
        apply wrap_eq_self_iff.mpr
        simpa using hfits 0 (by omega)
      rw [strides, if_pos hbefore, hnext, ih (by omega), hlength, List.range_succ_eq_map, List.map_cons,
        List.map_map]
      · simp only [Function.comp_def, step_add_mul, Nat.cast_zero, zero_mul, add_zero]
      · intro k hk
        rw [step_add_mul]
        exact hfits (k + 1) (by omega)
    · rw [strides, if_neg hbefore, Range.length_eq_zero hstep hbefore]
      rfl

/-- Strides stay before `stop`, and there are none unless the first one is. -/
theorem before_of_mem_strides {fuel : Nat} {i j : Int} (h : j ∈ strides fuel i stop step) :
    Range.Before stop step i ∧ Range.Before stop step j := by
  induction fuel generalizing i with
  | zero => cases h
  | succ fuel ih =>
    rw [strides] at h
    split at h
    · rename_i hbefore
      rcases List.mem_cons.mp h with rfl | h
      · exact ⟨hbefore, hbefore⟩
      · exact ⟨hbefore, (ih h).2⟩
    · cases h

/-- Strides upwards past the greatest integer pick more than the members of the range: what comes behind
the last one is negative, and lies before `stop` again. -/
theorem lt_length_strides (hup : 0 < step) (hstep : step ≤ maxInt) (hstop : 0 ≤ stop ∧ stop ≤ maxInt)
    {fuel : Nat} {i : Int} (hi : 0 ≤ i ∧ i ≤ maxInt) (hfuel : Range.length i stop step < fuel)
    (hover : maxInt < i + Range.length i stop step * step) :
    Range.length i stop step < (strides fuel i stop step).length := by
  induction fuel generalizing i with
  | zero => omega
  | succ fuel ih =>
    by_cases hbefore : Range.Before stop step i
    · have hlength := Range.length_succ hup.ne' hbefore
      rw [hlength] at hfuel hover ⊢
      rw [strides, if_pos hbefore, List.length_cons, Nat.add_lt_add_iff_right]
      by_cases hnext : i + step ≤ maxInt
      · rw [wrap_eq_self_iff.mpr (fits_iff.mpr ⟨by unfold minInt; omega, hnext⟩)]
        apply ih ⟨by omega, hnext⟩ (by omega)
        push_cast at hover
        rw [add_mul, one_mul] at hover
        omega
      · have hwrapped : Range.Before stop step (wrap (i + step)) := by
          refine .inl ⟨hup, ?_⟩
          unfold wrap maxInt at *
          omega
        have hlast : Range.length (i + step) stop step = 0 := by
          apply Range.length_eq_zero hup.ne'
          unfold Range.Before
          omega
        rw [hlast] at hfuel ⊢
        obtain ⟨rest, rfl⟩ := Nat.exists_eq_add_of_lt (Nat.lt_of_succ_lt_succ hfuel)
        rw [Nat.zero_add, strides, if_pos hwrapped]
        exact Nat.succ_pos _
    · rw [Range.length_eq_zero hup.ne' hbefore, Nat.cast_zero, zero_mul] at hover
      omega

theorem strides_of_before {i : Int} (h : Range.Before stop step i) (fuel : Nat) :
    strides (fuel + 1) i stop step = i :: strides fuel (wrap (i + step)) stop step := by
  rw [strides, if_pos h]

theorem strides_of_not_before {i : Int} (h : ¬ Range.Before stop step i) (fuel : Nat) :
    strides fuel i stop step = [] := by
  cases fuel with
  | zero => rfl
  | succ fuel => rw [strides, if_neg h]

/-- Strides upwards that wrap round come back lower and lower, until they end: two of them lead back by
twice the distance `d` of the step from `2 ^ 63`. -/
theorem strides_settle {d : Int} (hd : 0 < d ∧ step = 0x8000000000000000 - d)
    (hstop : stop + 2 * d ≤ 0x8000000000000000) {i : Int} (hi : 0 ≤ i ∧ i < stop) {fuel fuel' : Nat}
    (hfuel : i + 2 ≤ fuel) (hfuel' : i + 2 ≤ fuel') :
    strides fuel i stop step = strides fuel' i stop step := by
  have hup : 0 < step := by omega
  induction hn : i.toNat using Nat.strong_induction_on generalizing i fuel fuel' with
  | _ n ih =>
    obtain ⟨f, rfl⟩ : ∃ f, fuel = f + 2 := ⟨fuel - 2, by omega⟩
    obtain ⟨g, rfl⟩ : ∃ g, fuel' = g + 2 := ⟨fuel' - 2, by omega⟩
    have hfirst : Range.Before stop step i := .inl ⟨hup, hi.2⟩
    rw [strides_of_before hfirst, strides_of_before hfirst]
    congr 1
    by_cases hwraps : d ≤ i
    · have hnegative : wrap (i + step) = i - d - 0x8000000000000000 := by
        unfold wrap
        omega
      have hback : wrap (wrap (i + step) + step) = i - 2 * d := by
        rw [hnegative]
        unfold wrap
        omega
      have hbefore : Range.Before stop step (wrap (i + step)) := .inl ⟨hup, by omega⟩
      rw [strides_of_before hbefore, strides_of_before hbefore, hback]
      congr 1
      by_cases hagain : 0 ≤ i - 2 * d
      · exact ih (i - 2 * d).toNat (by omega) ⟨hagain, by omega⟩ (by omega) (by omega) rfl
      · -- A negative position is followed by one behind the last item.
        obtain ⟨f, rfl⟩ : ∃ f', f = f' + 1 := ⟨f - 1, by omega⟩
        obtain ⟨g, rfl⟩ : ∃ g', g = g' + 1 := ⟨g - 1, by omega⟩
        have hlast : Range.Before stop step (i - 2 * d) := .inl ⟨hup, by omega⟩
        have hreached : wrap (i - 2 * d + step) = i - 2 * d + step :=
          wrap_eq_self_iff.mpr (fits_iff.mpr (by unfold minInt maxInt; omega))
        have hbehind : ¬ Range.Before stop step (wrap (i - 2 * d + step)) := by
          rw [hreached]
          unfold Range.Before
          omega
        rw [strides_of_before hlast, strides_of_before hlast, strides_of_not_before hbehind,
          strides_of_not_before hbehind]
    · have hbehind : ¬ Range.Before stop step (wrap (i + step)) := by
        unfold Range.Before wrap
        omega
      rw [strides_of_not_before hbehind, strides_of_not_before hbehind]

/-! ## Slices -/

section

variable {len : Nat}

theorem clampBound_eq_adjust {place : Int} (hlen : (len : Int) ≤ maxInt) (hplace : fits place = true)
    {step : Int} (hstep : step ≠ 0) :
    Slice.adjust len step place =
      if 0 < step then clampBound len place 0 len else clampBound len place (-1) (len - 1) := by
  have hwrap : (if place < 0 then wrap (place + len) else place) =
      if place < 0 then place + len else place := by
    split
    · rw [fits_iff] at hplace
      exact wrap_eq_self_iff.mpr (fits_iff.mpr (by unfold minInt maxInt at *; omega))
    · rfl
  unfold clampBound Slice.adjust
  rw [hwrap]
  dsimp only
  generalize (if place < 0 then place + len else place) = place
  split <;> split <;> omega

theorem bound_eq {given : Option Int} (hlen : (len : Int) ≤ maxInt) (hgiven : ∀ b ∈ given, fits b = true)
    {step : Int} (hstep : step ≠ 0) (down up : Int) :
    Slice.bound len step down up given =
      if 0 < step then (given.map (clampBound len · 0 len)).getD up
      else (given.map (clampBound len · (-1) (len - 1))).getD down := by
  cases given with
  | none =>
    show (if step < 0 then down else up) = if 0 < step then up else down
    split <;> split <;> omega
  | some b => exact clampBound_eq_adjust hlen (hgiven b rfl) hstep

/-- A slice goes in strides from its start to its end. -/
theorem slicePositions_eq_strides (hlen : (len : Int) ≤ maxInt) {lower upper step : Option Int}
    (hlower : ∀ b ∈ lower, fits b = true) (hupper : ∀ b ∈ upper, fits b = true)
    (hstep : step.getD 1 ≠ 0) :
    slicePositions len lower upper step =
      .ok ((strides (len + 1) (Slice.start len (step.getD 1) lower) (Slice.stop len (step.getD 1) upper)
        (step.getD 1)).map Int.toNat) := by
  generalize hd : step.getD 1 = d at hstep
  unfold slicePositions Slice.start Slice.stop
  rw [bound_eq hlen hlower hstep, bound_eq hlen hupper hstep]
  simp only [hd, hstep, if_false, min_eq_left hlen]
  split <;> rfl

/-- Upwards a slice lies between the first position and the place behind the last one, and downwards
between the last position and the place before the first one. -/
theorem bound_mem (len : Nat) (given : Option Int) (step down up : Int) (hup : 0 ≤ up ∧ up ≤ len)
    (hdown : -1 ≤ down ∧ down ≤ (len : Int) - 1) :
    (0 < step → 0 ≤ Slice.bound len step down up given ∧ Slice.bound len step down up given ≤ len) ∧
    (step < 0 → -1 ≤ Slice.bound len step down up given ∧
      Slice.bound len step down up given ≤ (len : Int) - 1) := by
  cases given with
  | none =>
    unfold Slice.bound
    constructor <;> intro h
    · rwa [if_neg (by omega)]
    · rwa [if_pos h]
  | some place =>
    unfold Slice.bound Slice.adjust
    dsimp only
    generalize (if place < 0 then place + len else place) = place
    constructor <;> intro h <;> split <;> omega

variable {lower upper step : Option Int}

theorem Slice.bounds (len : Nat) (lower upper : Option Int) (d : Int) :
    (0 < d → (0 ≤ Slice.start len d lower ∧ Slice.start len d lower ≤ len) ∧
      0 ≤ Slice.stop len d upper ∧ Slice.stop len d upper ≤ len) ∧
    (d < 0 → (-1 ≤ Slice.start len d lower ∧ Slice.start len d lower ≤ (len : Int) - 1) ∧
      -1 ≤ Slice.stop len d upper ∧ Slice.stop len d upper ≤ (len : Int) - 1) := by
  have hstart := bound_mem len lower d (len - 1) 0 (by omega) (by omega)
  have hstop := bound_mem len upper d (-1) len (by omega) (by omega)
  exact ⟨fun h => ⟨hstart.1 h, hstop.1 h⟩, fun h => ⟨hstart.2 h, hstop.2 h⟩⟩

/-- The range that a slice goes through. -/
def Slice.Through (len : Nat) (lower upper step : Option Int) (i : Int) : Prop :=
  ∃ k < Range.length (Slice.start len (step.getD 1) lower) (Slice.stop len (step.getD 1) upper)
    (step.getD 1), i = Slice.start len (step.getD 1) lower + (k : Nat) * step.getD 1

/-- A slice goes through places of items only. -/
theorem Slice.Through.lt (hstep : step.getD 1 ≠ 0) {i : Int} (h : Slice.Through len lower upper step i) :
    0 ≤ i ∧ i < len := by
  obtain ⟨hbefore, hside, -⟩ := (Range.exists_member_iff hstep i).mp h
  have hbounds := Slice.bounds len lower upper (step.getD 1)
  unfold Range.Before at hbefore hside
  omega

theorem mem_selected_iff (hstep : step.getD 1 ≠ 0) (p : Nat) :
    p ∈ Slice.selected len lower upper step ↔ Slice.Through len lower upper step p := by
  have hplaces : p ∈ (if 0 < step.getD 1 then List.range len else (List.range len).reverse) ↔ p < len := by
    split <;> simp
  unfold Slice.selected
  dsimp only
  rw [List.mem_filter, hplaces, decide_eq_true_iff]
  constructor
  · rintro ⟨-, hbetween, hdvd⟩
    refine (Range.exists_member_iff hstep _).mpr ⟨?_, ?_, hdvd⟩ <;> unfold Range.Before <;>
      split at hbetween <;> omega
  · intro h
    obtain ⟨hbefore, hside, hdvd⟩ := (Range.exists_member_iff hstep _).mp h
    refine ⟨by have := h.lt hstep; omega, ?_, hdvd⟩
    unfold Range.Before at hbefore hside
    split <;> omega

/-- The positions of a slice in order are the members of the range in order. -/
theorem selected_eq (hstep : step.getD 1 ≠ 0) :
    let start := Slice.start len (step.getD 1) lower
    Slice.selected len lower upper step =
      (List.range (Range.length start (Slice.stop len (step.getD 1) upper) (step.getD 1))).map
        fun k : Nat => (start + k * step.getD 1).toNat := by
  intro start
  have hnonneg {k : Nat} (hk : k ∈ List.range (Range.length start (Slice.stop len (step.getD 1) upper)
      (step.getD 1))) : 0 ≤ start + k * step.getD 1 := by
    have hthrough : Slice.Through len lower upper step (start + k * step.getD 1) :=
      ⟨k, List.mem_range.mp hk, rfl⟩
    exact (hthrough.lt hstep).1
  have hmem (p : Nat) : p ∈ Slice.selected len lower upper step ↔
      p ∈ (List.range (Range.length start (Slice.stop len (step.getD 1) upper) (step.getD 1))).map
        fun k : Nat => (start + k * step.getD 1).toNat := by
    rw [mem_selected_iff hstep, List.mem_map]
    constructor
    · rintro ⟨k, hk, hp⟩
      exact ⟨k, List.mem_range.mpr hk, by rw [← hp, Int.toNat_natCast]⟩
    · rintro ⟨k, hk, rfl⟩
      exact ⟨k, List.mem_range.mp hk, Int.toNat_of_nonneg (hnonneg hk)⟩
  -- Lists in order with the same members are equal, in either direction.
  rcases lt_or_gt_of_ne hstep with hdown | hup
  · refine List.Pairwise.eq_of_mem_iff (r := (· > ·)) ?_ ?_ hmem
    · refine List.Pairwise.filter _ ?_
      rw [if_neg (by omega)]
      exact List.pairwise_reverse.mpr List.pairwise_lt_range
    · refine List.pairwise_map.mpr (List.pairwise_lt_range.imp_of_mem fun hk hl hkl => ?_)
      have hless := mul_lt_mul_of_neg_right (Int.ofNat_lt.mpr hkl) hdown
      have := hnonneg hl
      omega
  · refine List.Pairwise.eq_of_mem_iff (r := (· < ·)) ?_ ?_ hmem
    · refine List.Pairwise.filter _ ?_
      rw [if_pos hup]
      exact List.pairwise_lt_range
    · refine List.pairwise_map.mpr (List.pairwise_lt_range.imp_of_mem fun hk hl hkl => ?_)
      have hless := mul_lt_mul_of_pos_right (Int.ofNat_lt.mpr hkl) hup
      have := hnonneg hk
      omega

theorem length_le (hstep : step.getD 1 ≠ 0) :
    Range.length (Slice.start len (step.getD 1) lower) (Slice.stop len (step.getD 1) upper) (step.getD 1) ≤
      len := by
  have hcount : (Slice.selected len lower upper step).length ≤ len := by
    refine (List.length_filter_le _ _).trans ?_
    split <;> simp
  rwa [selected_eq hstep, List.length_map, List.length_range] at hcount

theorem fits_through (hstep : step.getD 1 ≠ 0)
    (hfits : ∀ p ∈ Slice.selected len lower upper step, fits (p + step.getD 1) = true) :
    ∀ k < Range.length (Slice.start len (step.getD 1) lower) (Slice.stop len (step.getD 1) upper)
      (step.getD 1), fits (Slice.start len (step.getD 1) lower + k * step.getD 1 + step.getD 1) = true := by
  intro k hk
  have hthrough : Slice.Through len lower upper step _ := ⟨k, hk, rfl⟩
  have hplace := Int.toNat_of_nonneg (hthrough.lt hstep).1
  rw [← hplace]
  exact hfits _ ((mem_selected_iff hstep _).mpr (hplace.symm ▸ hthrough))

/-- Strides within 64 bits pick Python's positions. -/
theorem slicePositions_of_fits (hstep : step.getD 1 ≠ 0)
    (hfits : ∀ p ∈ Slice.selected len lower upper step, fits (p + step.getD 1) = true) :
    (strides (len + 1) (Slice.start len (step.getD 1) lower) (Slice.stop len (step.getD 1) upper)
      (step.getD 1)).map Int.toNat = Slice.selected len lower upper step := by
  rw [strides_eq hstep ((length_le hstep).trans (Nat.le_succ _)) (fits_through hstep hfits),
    selected_eq hstep, List.map_map]
  rfl

theorem fits_downwards (hlen : (len : Int) ≤ maxInt) (hd : fits (step.getD 1) = true)
    (hdown : step.getD 1 < 0) {p : Nat} (hp : p ∈ Slice.selected len lower upper step) :
    fits (p + step.getD 1) = true := by
  have hlt := ((mem_selected_iff hdown.ne p).mp hp).lt hdown.ne
  rw [fits_iff] at *
  unfold minInt at *
  omega

/-- The strides of a slice end before their fuel does: more fuel gives no more positions. -/
theorem slice_strides_settle (hlen : (len : Int) ≤ 0x2000000000000000) (hd : fits (step.getD 1) = true)
    (hstep : step.getD 1 ≠ 0) {fuel : Nat} (hfuel : len + 1 ≤ fuel) :
    strides fuel (Slice.start len (step.getD 1) lower) (Slice.stop len (step.getD 1) upper) (step.getD 1) =
      strides (len + 1) (Slice.start len (step.getD 1) lower) (Slice.stop len (step.getD 1) upper)
        (step.getD 1) := by
  by_cases hwithin : ∀ p ∈ Slice.selected len lower upper step, fits (p + step.getD 1) = true
  · have hmembers := fits_through hstep hwithin
    rw [strides_eq hstep ((length_le hstep).trans (by omega)) hmembers,
      strides_eq hstep ((length_le hstep).trans (by omega)) hmembers]
  · push Not at hwithin
    obtain ⟨p, hp, hover⟩ := hwithin
    have hlt := ((mem_selected_iff hstep p).mp hp).lt hstep
    have hup : 0 < step.getD 1 := by
      rcases lt_or_gt_of_ne hstep with hdown | hup
      · have hmax : (len : Int) ≤ maxInt := hlen.trans (by decide)
        exact absurd (fits_downwards hmax hd hdown hp) hover
      · exact hup
    obtain ⟨hstart, hstop⟩ := (Slice.bounds len lower upper _).1 hup
    rw [Ne, fits_iff] at hover
    rw [fits_iff] at hd
    by_cases hfirst : Range.Before (Slice.stop len (step.getD 1) upper) (step.getD 1)
        (Slice.start len (step.getD 1) lower)
    · have hbefore : Slice.start len (step.getD 1) lower < Slice.stop len (step.getD 1) upper := by
        unfold Range.Before at hfirst
        omega
      unfold minInt maxInt at *
      exact strides_settle (d := 0x8000000000000000 - step.getD 1) (by omega) (by omega)
        ⟨hstart.1, hbefore⟩ (by omega) (by omega)
    · rw [strides_of_not_before hfirst, strides_of_not_before hfirst]

/-- A slice of at most as many items as an integer counts picks positions of items only. They are those
that Python picks if and only if no stride leaves 64 bits, the one behind the last position included.
Downwards no stride does. -/
theorem slicePositions_selected (hlen : (len : Int) ≤ maxInt) (hlower : ∀ b ∈ lower, fits b = true)
    (hupper : ∀ b ∈ upper, fits b = true) (hstep : ∀ d ∈ step, fits d = true ∧ d ≠ 0) :
    ∃ positions, slicePositions len lower upper step = .ok positions ∧ (∀ p ∈ positions, p < len) ∧
      (positions = Slice.selected len lower upper step ↔
        ∀ p ∈ Slice.selected len lower upper step, fits (p + step.getD 1) = true) := by
  have hd : fits (step.getD 1) = true ∧ step.getD 1 ≠ 0 := by
    cases step with
    | none => decide
    | some d => exact hstep d rfl
  refine ⟨_, slicePositions_eq_strides hlen hlower hupper hd.2, ?_, ?_, slicePositions_of_fits hd.2⟩
  · intro p hp
    obtain ⟨i, hi, rfl⟩ := List.mem_map.mp hp
    rcases lt_or_gt_of_ne hd.2 with hdown | hup
    · rw [slicePositions_of_fits hd.2 fun p hp => fits_downwards hlen hd.1 hdown hp,
        mem_selected_iff hd.2] at hp
      have := hp.lt hd.2
      omega
    · obtain ⟨hfirst, hbefore⟩ := before_of_mem_strides hi
      have hstart := ((Slice.bounds len lower upper _).1 hup).1
      have hstop := ((Slice.bounds len lower upper _).1 hup).2
      unfold Range.Before at hfirst hbefore
      omega
  · intro hselected p hp
    rcases lt_or_gt_of_ne hd.2 with hdown | hup
    · exact fits_downwards hlen hd.1 hdown hp
    · by_contra hover
      obtain ⟨hstart, hstop⟩ := (Slice.bounds len lower upper _).1 hup
      obtain ⟨k, hk, hplace⟩ := (mem_selected_iff hd.2 p).mp hp
      have hlast : (k : Int) * step.getD 1 + step.getD 1 ≤ Range.length (Slice.start len (step.getD 1) lower)
          (Slice.stop len (step.getD 1) upper) (step.getD 1) * step.getD 1 := by
        rw [← add_one_mul]
        exact mul_le_mul_of_nonneg_right (by exact_mod_cast hk) hup.le
      rw [fits_iff] at hover hd
      have hbehind : maxInt < Slice.start len (step.getD 1) lower + Range.length
          (Slice.start len (step.getD 1) lower) (Slice.stop len (step.getD 1) upper) (step.getD 1) *
          step.getD 1 := by
        unfold minInt at *
        omega
      have hmore := lt_length_strides hup hd.1.2 ⟨hstop.1, by omega⟩ ⟨hstart.1, by omega⟩
        (Nat.lt_add_one_iff.mpr (length_le hd.2)) hbehind
      have hsame := congrArg List.length hselected
      rw [List.length_map, selected_eq hd.2, List.length_map, List.length_range] at hsame
      omega

end

end

/-! ## Numbered items -/

/-- New tuples stand one behind the other. -/
theorem mapM_newTuple_apply {α : Type} (row : α → List Value) (xs : List α) (s : State) :
    xs.mapM (fun x => Exec.newTuple (row x)) s =
      .ok ((List.range' s.heap.tuples.size xs.length).map Value.tuple)
        { s with heap.tuples := s.heap.tuples ++ (xs.map row).toArray } := by
  induction xs generalizing s with
  | nil =>
    rw [List.mapM_nil, List.map_nil, Array.append_empty]
    rfl
  | cons x xs ih =>
    rw [List.mapM_cons, Exec.bind_apply]
    show (List.mapM _ xs >>= _ : Exec (List Value)) { s with heap.tuples := s.heap.tuples.push (row x) } = _
    rw [Exec.bind_apply, ih]
    simp [List.range'_succ]
    rfl

/-- Numbering items makes a list of pairs in the order of the items. The items are paired with the numbers
from the start on if and only if these fit in 64 bits. -/
theorem native_enumerate (apply : Apply) {v : Value} {start : Int} {s t : State} {items : List Value}
    (hfuel : 1 ≤ s.fuel) (hitems : iterate v { s with fuel := s.fuel - 1 } = .ok items t) :
    ∃ (pairs : Ref) (tuples : List Ref) (u : State),
      native apply .enumerate [v, .int start] [] s = .ok (.list pairs) u ∧
      u.heap.list pairs = tuples.map .tuple ∧
      (tuples.map u.heap.tuple = items.zipIdx.map (fun (x, k) => [Value.int (start + k), x]) ↔
        ∀ k < items.length, fits (start + k) = true) := by
  let row : Value × Nat → List Value := fun (x, k) => [.int (wrap (start + k)), x]
  have hrun : native apply .enumerate [v, .int start] [] s =
      (items.zipIdx.mapM (fun p => Exec.newTuple (row p)) >>= Exec.newList) t := by
    unfold native
    rw [Exec.bind_apply, Exec.charge_apply, if_neg (by omega)]
    show (iterate v >>= fun items => _ : Exec Value) _ = _
    rw [Exec.bind_apply, hitems]
  have hrows : (List.range' t.heap.tuples.size items.zipIdx.length).map
      (fun r => (t.heap.tuples ++ (items.zipIdx.map row).toArray)[r]?.getD []) = items.zipIdx.map row := by
    apply List.ext_getElem
    · simp
    · intro k hk hk'
      simp at hk
      simp [hk]
  rw [hrun, Exec.bind_apply, mapM_newTuple_apply]
  refine ⟨_, List.range' t.heap.tuples.size items.zipIdx.length, _, rfl, ?_, ?_⟩
  · show (t.heap.lists.push _)[t.heap.lists.size]?.getD [] = _
    rw [Array.getElem?_push_size]
    rfl
  · show List.map (fun r => (t.heap.tuples ++ (items.zipIdx.map row).toArray)[r]?.getD []) _ = _ ↔ _
    rw [hrows]
    constructor
    · intro heq k hk
      have hrow := congrArg (fun rows => rows[k]?) heq
      simp [row, hk] at hrow
      exact wrap_eq_self_iff.mp hrow
    · intro hfits
      apply List.map_congr_left
      rintro ⟨x, k⟩ hx
      have hk := List.snd_lt_of_mem_zipIdx hx
      show [Value.int (wrap (start + k)), x] = _
      rw [wrap_eq_self_iff.mpr (hfits k (by simpa using hk))]

/-! ## Both -/

/-- The positions of a slice are Python's, and the numbers of items count from their start, if and only if
no addition leaves 64 bits. The positions of a slice are always those of items. -/
theorem python_indices (len : Nat) (lower upper step : Option Int) (hlen : (len : Int) ≤ maxInt)
    (hlower : ∀ b ∈ lower, fits b = true) (hupper : ∀ b ∈ upper, fits b = true)
    (hstep : ∀ d ∈ step, fits d = true ∧ d ≠ 0) (apply : Apply) (v : Value) (start : Int) (s t : State)
    (items : List Value) (hfuel : 1 ≤ s.fuel)
    (hitems : iterate v { s with fuel := s.fuel - 1 } = .ok items t) :
    (∃ positions, slicePositions len lower upper step = .ok positions ∧ (∀ p ∈ positions, p < len) ∧
      (positions = Slice.selected len lower upper step ↔
        ∀ p ∈ Slice.selected len lower upper step, fits (p + step.getD 1) = true)) ∧
    ∃ (pairs : Ref) (tuples : List Ref) (u : State),
      native apply .enumerate [v, .int start] [] s = .ok (.list pairs) u ∧
      u.heap.list pairs = tuples.map .tuple ∧
      (tuples.map u.heap.tuple = items.zipIdx.map (fun (x, k) => [Value.int (start + k), x]) ↔
        ∀ k < items.length, fits (start + k) = true) :=
  ⟨slicePositions_selected hlen hlower hupper hstep, native_enumerate apply hfuel hitems⟩

/-- Seven items from the last but one on downwards in steps of three, and two items numbered from the last
but one integer on. -/
theorem python_indices_near_bounds :
    (slicePositions 7 (some (-2)) (some minInt) (some (-3)) =
        .ok (Slice.selected 7 (some (-2)) (some minInt) (some (-3))) ∧
      Slice.selected 7 (some (-2)) (some minInt) (some (-3)) = [5, 2]) ∧
    ∃ (pairs : Ref) (tuples : List Ref) (u : State),
      native (fun _ _ => pure .none) .enumerate [.str "ab", .int (maxInt - 1)] []
        { fuel := 3, maxDepth := 0 } = .ok (.list pairs) u ∧
      u.heap.list pairs = tuples.map .tuple ∧
      tuples.map u.heap.tuple = [[.int (maxInt - 1), .str "a"], [.int maxInt, .str "b"]] := by
  have hselected : Slice.selected 7 (some (-2)) (some minInt) (some (-3)) = [5, 2] := by decide
  have hlen : ((7 : Nat) : Int) ≤ maxInt := by decide
  have hiterate : iterate (.str "ab") { fuel := 2, maxDepth := 0 } =
      .ok [.str "a", .str "b"] { fuel := 0, maxDepth := 0 } := rfl
  obtain ⟨⟨positions, hslice, -, hpositions⟩, pairs, tuples, u, hrun, hlist, hnumbers⟩ :=
    python_indices 7 (some (-2)) (some minInt) (some (-3)) hlen (by decide) (by decide) (by decide)
      (fun _ _ => pure .none) (.str "ab") (maxInt - 1) { fuel := 3, maxDepth := 0 } _ _ (by decide) hiterate
  refine ⟨⟨?_, hselected⟩, pairs, tuples, u, hrun, hlist, hnumbers.mpr (by decide)⟩
  rw [hslice, hpositions.mpr (by rw [hselected]; decide)]

/-- The items of three from the second one on, in the greatest steps: the slice has one item, and the
stride behind it wraps round, so that the first item is picked twice as well. Two items that are numbered
from the greatest integer on get this one and the least one. -/
theorem python_indices_wrap :
    Slice.selected 3 (some 1) none (some maxInt) = [1] ∧
    slicePositions 3 (some 1) none (some maxInt) = .ok [1, 0, 0] ∧
    ∃ u, native (fun _ _ => pure .none) .enumerate [.str "ab", .int maxInt] [] { fuel := 3, maxDepth := 0 } =
        .ok (.list 0) u ∧ u.heap.list 0 = [.tuple 0, .tuple 1] ∧
      u.heap.tuple 0 = [.int maxInt, .str "a"] ∧ u.heap.tuple 1 = [.int minInt, .str "b"] := by
  refine ⟨by decide, by decide, _, rfl, rfl, rfl, rfl⟩

end Concord.Machine
