import Concord.Store.Selection
import Mathlib.Algebra.Order.Field.Rat
import Mathlib.Data.Prod.Lex

/-!
# The chosen canon

The order in which candidates are compared is a linear order of what is known of them (`rank`), so the
fold over the candidates that pass ends with the greatest of them, and with the first one of those. Scores
and pass rates count as the rational numbers they stand for, except that a zero with a negative sign comes
directly before zero: `select_negative_zero` shows a choice for which that makes a difference.

Main statement:

* `select_optimal`: which candidate is chosen, and what of it does not depend on the order of the list.
-/

namespace Concord

/-- An oracle that answers by the text alone. -/
def Oracle.stateless (judge : Contract → String → Verdict) : Oracle :=
  fun contract _ text => judge contract text

namespace Choice

/-- What a judge and a checker say about the candidate that stands at a place of a list. -/
def ofText (judge : Contract → String → Verdict) (checker : Checker) (contract : Contract)
    (index : Nat) (code : String) : Choice :=
  { index, code, oracle := judge contract code, compliance := checker contract code }

/-- Full compliance, score and pass rate of a candidate, the numbers as rationals. -/
def merit (c : Choice) : Bool ×ₗ ℚ ×ₗ ℚ :=
  toLex (c.compliance.fullyCompliant,
    toLex (Binary.valueOf c.compliance.score, Binary.valueOf c.oracle.passRate))

/-! ## The order of quality -/

/-- A number as the rational it stands for, with a negative zero directly before zero. -/
def numberRank (x : Float) : ℚ ×ₗ Bool := toLex (Binary.valueOf x, !Binary.isNegative x)

/-- What makes one candidate better than another: full compliance, then the score, then the pass
rate. -/
def rank (c : Choice) : Bool ×ₗ (ℚ ×ₗ Bool) ×ₗ (ℚ ×ₗ Bool) :=
  toLex (c.compliance.fullyCompliant,
    toLex (numberRank c.compliance.score, numberRank c.oracle.passRate))

theorem numberOrder_eq_compare (x y : Float) :
    numberOrder x y = compare (numberRank x) (numberRank y) := by
  rw [Prod.Lex.compare_def]
  unfold numberOrder compareLex compareOn numberRank
  rcases lt_trichotomy (Binary.valueOf x) (Binary.valueOf y) with h | h | h
  · simp [h, compare_lt_iff_lt.mpr h]
  · simp [h]
  · simp [h, h.not_gt, compare_gt_iff_gt.mpr h]

theorem quality_eq_compare (a b : Choice) : quality a b = compare a.rank b.rank := by
  simp only [quality, rank, numberOrder_eq_compare, Prod.Lex.compare_def, compareLex, compareOn,
    ofLex_toLex]

theorem better_eq (a b : Choice) : better a b = if a.rank < b.rank then b else a := by
  simp only [better, quality_eq_compare, Ordering.isLT_iff_eq_lt, compare_lt_iff_lt]

/-! ## The greatest candidate -/

/-- The fold ends with a candidate that no one behind it surpasses and that surpasses everyone before
it. -/
theorem foldl_better (c : Choice) (cs : List Choice) :
    ∃ before after, c :: cs = before ++ cs.foldl better c :: after ∧
      (∀ x ∈ before, x.rank < (cs.foldl better c).rank) ∧
      ∀ x ∈ after, x.rank ≤ (cs.foldl better c).rank := by
  induction cs generalizing c with
  | nil => exact ⟨[], [], rfl, nofun, nofun⟩
  | cons x xs ih =>
    rw [List.foldl_cons, better_eq]
    split
    · next hlt =>
      obtain ⟨before, after, hsplit, hbefore, hafter⟩ := ih x
      refine ⟨c :: before, after, by rw [hsplit, List.cons_append], ?_, hafter⟩
      rintro y (_ | ⟨_, hy⟩)
      · cases before with
        | nil => rwa [(List.cons.inj hsplit).1] at hlt
        | cons b bs =>
          rw [(List.cons.inj hsplit).1] at hlt
          exact hlt.trans (hbefore b List.mem_cons_self)
      · exact hbefore y hy
    · next hle =>
      obtain ⟨before, after, hsplit, hbefore, hafter⟩ := ih c
      cases before with
      | nil =>
        obtain ⟨hc, rfl⟩ := List.cons.inj hsplit
        refine ⟨[], x :: xs, by rw [← hc]; rfl, nofun, ?_⟩
        rintro y (_ | ⟨_, hy⟩)
        · rw [← hc]
          exact not_lt.mp hle
        · exact hafter y hy
      | cons b bs =>
        obtain ⟨rfl, hxs⟩ := List.cons.inj hsplit
        refine ⟨c :: x :: bs, after, congrArg (c :: x :: ·) hxs, ?_, hafter⟩
        rintro y (_ | ⟨_, _ | ⟨_, hy⟩⟩)
        · exact hbefore c List.mem_cons_self
        · exact (not_lt.mp hle).trans_lt (hbefore c List.mem_cons_self)
        · exact hbefore y (List.mem_cons_of_mem _ hy)

/-! ## The candidates that pass -/

section Passing

variable (judge : Contract → String → Verdict) (checker : Checker) (contract : Contract)

/-- A judge that answers as a function of the text looks at every candidate by itself. -/
theorem passing_eq (candidates asked : List String) (i : Nat) :
    passing (.stateless judge) checker contract i asked candidates =
      ((candidates.zipIdx i).map fun p => ofText judge checker contract p.2 p.1).filter
        (·.oracle.passed) := by
  induction candidates generalizing i asked with
  | nil => rfl
  | cons code rest ih =>
    rw [passing, ih, List.zipIdx_cons, List.map_cons, List.filter_cons]
    rfl

variable {judge checker contract} {candidates : List String}

theorem mem_passing {c : Choice} :
    c ∈ passing (.stateless judge) checker contract 0 [] candidates ↔
      candidates[c.index]? = some c.code ∧ c = ofText judge checker contract c.index c.code ∧
        c.oracle.passed = true := by
  rw [passing_eq, List.mem_filter, List.mem_map]
  constructor
  · rintro ⟨⟨p, hp, rfl⟩, hpassed⟩
    exact ⟨List.mem_zipIdx_iff_getElem?.mp hp, rfl, hpassed⟩
  · rintro ⟨hat, hc, hpassed⟩
    exact ⟨⟨(c.code, c.index), List.mem_zipIdx_iff_getElem?.mpr hat, hc.symm⟩, hpassed⟩

/-- The candidates that pass stand in the order of their places. -/
theorem passing_pairwise :
    (passing (.stateless judge) checker contract 0 [] candidates).Pairwise
      fun a b => a.index < b.index := by
  rw [passing_eq]
  refine List.Pairwise.filter _ (List.pairwise_map.mpr ?_)
  have hplaces : (candidates.zipIdx.map Prod.snd).Pairwise (· < ·) := by
    rw [List.zipIdx_map_snd]
    exact List.pairwise_lt_range'
  exact List.pairwise_map.mp hplaces

theorem select_eq_none_iff :
    select (.stateless judge) checker contract candidates = none ↔
      ∀ code ∈ candidates, (judge contract code).passed = false := by
  have hnone : select (.stateless judge) checker contract candidates = none ↔
      passing (.stateless judge) checker contract 0 [] candidates = [] := by
    unfold select
    split <;> simp_all
  rw [hnone, passing_eq, List.filter_eq_nil_iff]
  constructor
  · intro h code hcode
    obtain ⟨i, hi⟩ := List.mem_iff_getElem?.mp hcode
    have hfails := h (ofText judge checker contract i code)
      (List.mem_map.mpr ⟨(code, i), List.mem_zipIdx_iff_getElem?.mpr hi, rfl⟩)
    exact Bool.eq_false_iff.mpr hfails
  · intro h c hc
    obtain ⟨p, hp, rfl⟩ := List.mem_map.mp hc
    exact Bool.eq_false_iff.mp
      (h p.1 (List.mem_of_getElem? (List.mem_zipIdx_iff_getElem?.mp hp)))

/-- The chosen candidate is the first one of those of the greatest rank. -/
theorem select_greatest {c : Choice}
    (h : select (.stateless judge) checker contract candidates = some c) :
    (candidates[c.index]? = some c.code ∧ c = ofText judge checker contract c.index c.code ∧
      c.oracle.passed = true) ∧
    ∀ i code, candidates[i]? = some code → (judge contract code).passed = true →
      (ofText judge checker contract i code).rank ≤ c.rank ∧
        (i < c.index → (ofText judge checker contract i code).rank < c.rank) := by
  unfold select at h
  split at h
  · cases h
  · next first rest hpassing =>
    obtain ⟨before, after, hsplit, hbefore, hafter⟩ := foldl_better first rest
    rw [Option.some.inj h] at hsplit hbefore hafter
    rw [hsplit] at hpassing
    have hc : c ∈ passing (.stateless judge) checker contract 0 [] candidates := by
      rw [hpassing]
      exact List.mem_append_right _ List.mem_cons_self
    refine ⟨mem_passing.mp hc, ?_⟩
    intro i code hat hpassed
    have hmem : ofText judge checker contract i code ∈ before ++ c :: after := by
      rw [← hpassing]
      exact mem_passing.mpr ⟨hat, rfl, hpassed⟩
    have hplaces : (passing (.stateless judge) checker contract 0 [] candidates).Pairwise
        fun a b => a.index < b.index := passing_pairwise
    rw [hpassing] at hplaces
    have hbehind := (List.pairwise_cons.mp (List.pairwise_append.mp hplaces).2.1).1
    rcases List.mem_append.mp hmem with hmem | hmem
    · exact ⟨(hbefore _ hmem).le, fun _ => hbefore _ hmem⟩
    · rcases List.mem_cons.mp hmem with he | hmem
      · rw [he]
        refine ⟨le_rfl, fun hi => ?_⟩
        rw [← he] at hi
        exact absurd hi (Nat.lt_irrefl i)
      · exact ⟨hafter _ hmem, fun hi => absurd hi (Nat.lt_asymm (hbehind _ hmem))⟩

/-- In a list with the same texts the chosen candidate is at least as good. -/
theorem rank_le_of_subset {others : List String} (hsub : candidates ⊆ others) {c d : Choice}
    (hc : select (.stateless judge) checker contract candidates = some c)
    (hd : select (.stateless judge) checker contract others = some d) :
    c.rank ≤ d.rank := by
  obtain ⟨⟨hat, hof, hpassed⟩, -⟩ := select_greatest hc
  obtain ⟨i, hi⟩ := List.mem_iff_getElem?.mp (hsub (List.mem_of_getElem? hat))
  have hjudged : (judge contract c.code).passed = true := by
    rw [hof] at hpassed
    exact hpassed
  have hle := ((select_greatest hd).2 i c.code hi hjudged).1
  rwa [show (ofText judge checker contract i c.code).rank = c.rank by rw [hof]; rfl] at hle

/-- The rank of the choice depends on which texts there are, not on their order. -/
theorem select_perm {others : List String} (h : candidates.Perm others) :
    (select (.stateless judge) checker contract others).map rank =
      (select (.stateless judge) checker contract candidates).map rank := by
  have hnone : select (.stateless judge) checker contract others = none ↔
      select (.stateless judge) checker contract candidates = none := by
    simp only [select_eq_none_iff, h.mem_iff]
  cases hc : select (.stateless judge) checker contract candidates with
  | none => rw [hnone.mpr hc]
  | some c =>
    cases hd : select (.stateless judge) checker contract others with
    | none => simp [hnone.mp hd] at hc
    | some d =>
      exact congrArg some (le_antisymm (rank_le_of_subset h.symm.subset hd hc)
        (rank_le_of_subset h.subset hc hd))

end Passing

/-- A candidate is chosen whenever one passes. The choice passes itself, no other candidate that passes
ranks above it, and of those that rank as high as it does it is the first one. In another order of the list
the choice ranks the same. -/
theorem select_optimal (judge : Contract → String → Verdict) (checker : Checker) (contract : Contract)
    (candidates : List String) :
    (select (.stateless judge) checker contract candidates = none ↔
      ∀ code ∈ candidates, (judge contract code).passed = false) ∧
    (∀ c ∈ select (.stateless judge) checker contract candidates,
      (candidates[c.index]? = some c.code ∧ c = ofText judge checker contract c.index c.code ∧
        c.oracle.passed = true) ∧
      ∀ i code, candidates[i]? = some code → (judge contract code).passed = true →
        (ofText judge checker contract i code).rank < c.rank ∨
          (ofText judge checker contract i code).rank = c.rank ∧ c.index ≤ i) ∧
    ∀ others, candidates.Perm others →
      (select (.stateless judge) checker contract others).map rank =
        (select (.stateless judge) checker contract candidates).map rank := by
  refine ⟨select_eq_none_iff, fun c hc => ?_, fun others => select_perm⟩
  obtain ⟨hchosen, hgreatest⟩ := select_greatest hc
  refine ⟨hchosen, fun i code hat hpassed => ?_⟩
  obtain ⟨hle, hfirst⟩ := hgreatest i code hat hpassed
  exact hle.lt_or_eq.imp_right fun heq => ⟨heq, Nat.not_lt.mp fun hi => (hfirst hi).ne heq⟩

/-- Two candidates pass, and both score zero. The first one passes fully and the second one does not, but
the zero of the first one has a negative sign, so the second one is chosen. -/
theorem select_negative_zero :
    let judge : Contract → String → Verdict := fun _ =>
      judgeByRows [("n + 0", .pass "")] { passed := true, passRate := 0.5 }
    let checker : Checker := .byRows [("n + 0", { fullyCompliant := true, score := -0.0 })]
      { fullyCompliant := true, score := 0.0 }
    let contract : Contract := {}
    let candidates := ["def f(n):\n    return n + 0\n", "def f(n):\n    return n\n"]
    (select (.stateless judge) checker contract candidates).map (·.index) =
      some 1 ∧
    (∀ code ∈ candidates, (judge contract code).passed = true) ∧
    (ofText judge checker contract 1 "def f(n):\n    return n\n").merit <
      (ofText judge checker contract 0 "def f(n):\n    return n + 0\n").merit := by
  decide +kernel

end Choice

end Concord
