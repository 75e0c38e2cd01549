import Concord.Proofs.Engine.Moves
import Mathlib.Data.List.Nodup

/-!
# Every run comes to its end

A run is two loops, one inside the other. The inner loop explains what is left and tries the first
target that was not tried; the outer one repeats that while distance and iterations are left. Here
both are written as bodies that either leave the loop with a result or go on, with nothing that would
bound the number of turns. `Leaves` says that such a loop ends, and after how many turns.

Nothing is assumed of what is explained or proposed. What ends the inner loop is the set of tried
targets: every round that does not leave puts a new target into it.

Main statements:

* `Course.round_tries`: a round that goes on tries exactly one new target.
* `Course.leaves_iterate`, `Course.leaves_drive`: both loops end, with what `iterate` and `drive`
  give.
* `Course.run_ends`: the bounds on the number of rounds and of iterations.
-/

namespace Concord

/-! ## Loops -/

/-- The loop with this body ends: begun at `a` it leaves with `b` in its `n`-th turn. -/
inductive Leaves {α β : Type} (body : α → β ⊕ α) : Nat → α → β → Prop
  | now {a : α} {b : β} : body a = .inl b → Leaves body 1 a b
  | later {n : Nat} {a a' : α} {b : β} :
      body a = .inr a' → Leaves body n a' b → Leaves body (n + 1) a b

namespace Leaves

variable {α β : Type} {body : α → β ⊕ α}

/-- A loop ends in one way only. -/
theorem unique {n n' : Nat} {a : α} {b b' : β} (h : Leaves body n a b)
    (h' : Leaves body n' a b') : n = n' ∧ b = b' := by
  induction h generalizing n' with
  | now hb =>
    cases h' with
    | now hb' =>
      rw [hb] at hb'
      exact ⟨rfl, Sum.inl.inj hb'⟩
    | later hb' _ =>
      rw [hb] at hb'
      cases hb'
  | later hb _ ih =>
    cases h' with
    | now hb' =>
      rw [hb] at hb'
      cases hb'
    | later hb' hrest =>
      rw [hb] at hb'
      cases hb'
      obtain ⟨rfl, rfl⟩ := ih hrest
      exact ⟨rfl, rfl⟩

/-- A loop with a measure that falls in every turn ends, at most one turn after the measure is used
up. -/
theorem exists_of_measure (measure : α → Nat)
    (hless : ∀ a a', body a = .inr a' → measure a' < measure a) (a : α) :
    ∃ n b, n ≤ measure a + 1 ∧ Leaves body n a b := by
  induction hm : measure a using Nat.strongRecOn generalizing a with
  | ind m ih =>
    cases hb : body a with
    | inl b => exact ⟨1, b, by omega, .now hb⟩
    | inr a' =>
      have hlt : measure a' < m := hm ▸ hless a a' hb
      obtain ⟨n, b, hn, hrest⟩ := ih (measure a') hlt a' rfl
      exact ⟨n + 1, b, by omega, .later hb hrest⟩

end Leaves

namespace Course

/-! ## Targets -/

/-- Every pair of a facet and a tag is a target, once. -/
theorem nodup_targets : (targets.map fun t => (t.1, t.2.tag)).Nodup := by
  have hproduct : targets = Facet.all.product DifferenceKind.all := rfl
  have hfacets : Facet.all.Nodup := by decide
  have hkinds : (DifferenceKind.all.map DifferenceKind.tag).Nodup := by decide +kernel
  rw [hproduct]
  refine List.Nodup.map_on ?_ (hfacets.product hkinds.of_map)
  intro s _ t _ hst
  simp only [Prod.mk.injEq] at hst
  have hkind : s.2 = t.2 :=
    List.inj_on_of_nodup_map hkinds (DifferenceKind.mem_all s.2) (DifferenceKind.mem_all t.2) hst.2
  exact Prod.ext hst.1 hkind

/-! ## Rounds -/

/-- A way to explain the differences that are left of a text. -/
abbrev Explanation := Snapshot → Except ExplainError (List Difference)

/-- Where an iteration stands between two rounds. -/
structure Pass where
  /-- The targets tried so far. -/
  tried : List Target := []
  run : Run
  /-- Whether anything was kept. -/
  kept : Bool := false

variable (c : Course)

/-- One round of an iteration, with any explanation: the differences are explained, and the
strategies for the first one with an untried target are tried. The iteration is over if there is none
or if nothing can be explained. -/
def round (explain : Explanation) (p : Pass) : (Run × Except ExplainError Bool) ⊕ Pass :=
  match explain p.run.current with
  | .error e => .inl (p.run, .error e)
  | .ok differences =>
    match differences.find? (fun d => !p.tried.contains (target d)) with
    | none => .inl (p.run, .ok p.kept)
    | some d =>
      let (r, now) := c.tryStrategies d (c.strategies.applicable d) p.run
      .inr ⟨target d :: p.tried, r, p.kept || now⟩

variable {c}

/-- A round that goes on tries a target that was not tried before, and forgets none. -/
theorem round_tries {explain : Explanation} {p p' : Pass} (h : c.round explain p = .inr p') :
    ∃ t, t ∉ p.tried ∧ p'.tried = t :: p.tried := by
  unfold round at h
  split at h
  · cases h
  · split at h
    · cases h
    · rename_i d hfind
      cases h
      refine ⟨target d, ?_, rfl⟩
      have hnew := List.find?_some hfind
      simpa using hnew

theorem round_untried_lt {explain : Explanation} {p p' : Pass} (h : c.round explain p = .inr p') :
    (untried p'.tried).length < (untried p.tried).length := by
  obtain ⟨t, hnew, htried⟩ := round_tries h
  rw [htried]
  exact untried_lt (by simpa using hnew)

/-- Whatever is explained, the rounds of an iteration end, at most one round after all targets are
tried. -/
theorem exists_leaves_round (explain : Explanation) (p : Pass) :
    ∃ n out, n ≤ targets.length + 1 ∧ Leaves (c.round explain) n p out := by
  obtain ⟨n, out, hn, hleaves⟩ := Leaves.exists_of_measure
    (fun p => (untried p.tried).length) (fun _ _ h => round_untried_lt h) p
  have huntried : (untried p.tried).length ≤ targets.length := List.length_filter_le _ _
  exact ⟨n, out, by omega, hleaves⟩

/-- The rounds with the explainers of the course lead to what `iterate` gives. -/
theorem iterate_of_leaves {n : Nat} {p : Pass} {out : Run × Except ExplainError Bool}
    (h : Leaves (c.round c.explain) n p out) : c.iterate p.tried p.run p.kept = out := by
  induction h with
  | @now p out hround =>
    rw [iterate]
    cases hds : c.explain p.run.current with
    | error e =>
      simp only [round, hds] at hround
      exact Sum.inl.inj hround
    | ok ds =>
      dsimp only
      split
      · rename_i hnone
        simp only [round, hds, hnone] at hround
        exact Sum.inl.inj hround
      · rename_i d hsome
        simp only [round, hds, hsome] at hround
        cases hround
  | @later n p p' out hround _ ih =>
    rw [iterate]
    cases hds : c.explain p.run.current with
    | error e =>
      simp only [round, hds] at hround
      cases hround
    | ok ds =>
      dsimp only
      split
      · rename_i hnone
        simp only [round, hds, hnone] at hround
        cases hround
      · rename_i d hsome
        simp only [round, hds, hsome] at hround
        cases hround
        exact ih

theorem leaves_iterate (r : Run) :
    ∃ n, n ≤ targets.length + 1 ∧
      Leaves (c.round c.explain) n { run := r } (c.iterate [] r false) := by
  obtain ⟨n, out, hn, hleaves⟩ := exists_leaves_round (c := c) c.explain { run := r }
  have hout := iterate_of_leaves hleaves
  refine ⟨n, hn, ?_⟩
  rw [hout]
  exact hleaves

/-! ## Iterations -/

/-- Inside an iteration its number stays. -/
theorem respects_iteration (i : Nat) : c.Respects fun r => r.iteration = i where
  answers := by
    intro r name tier generated hr
    generalize hp : c.propose r name tier generated = p
    have ha := c.propose_answers r name tier generated
    rw [hp] at ha
    cases ha with
    | nothing => exact hr
    | kept hk => exact hk.iteration.trans hr
    | repeated _ _ h => exact h.iteration.trans hr
    | refused _ h => exact h.iteration.trans hr
    | failed h => exact h.iteration.trans hr
  consults := fun _ _ hr => hr

/-- One turn of the outer loop is one iteration. -/
theorem turn_iteration (r : Run) : (c.turn r).1.iteration = r.iteration + 1 :=
  (respects_iteration (r.iteration + 1)).turn rfl

variable (c) in
/-- The body of the outer loop: it leaves where no distance is left, where the budget of iterations is
spent, and after an iteration that failed or kept nothing. -/
def pursue (budget : Nat) (r : Run) : (Run × Ending) ⊕ Run :=
  if r.current.distance ≤ 0 then .inl (r, .converged)
  else if budget ≤ r.iteration then .inl (r, .exhausted)
  else
    match c.turn r with
    | (r, .error _) => .inl (r, .aborted)
    | (r, .ok true) => .inr { r with used := r.used + 1 }
    | (r, .ok false) => .inl (r, .exhausted)

/-- The outer loop leads to what `drive` gives. With `left` iterations to go it ends in at most one
turn more, and the last iteration is within the budget. -/
theorem leaves_drive {budget left : Nat} {r : Run} (h : r.iteration + left = budget) :
    ∃ n, n ≤ left + 1 ∧ Leaves (c.pursue budget) n r (c.drive left r) ∧
      (c.drive left r).1.iteration ≤ budget := by
  induction left generalizing r with
  | zero =>
    by_cases hd : r.current.distance ≤ 0
    · rw [drive_of_le 0 hd]
      refine ⟨1, Nat.le_refl 1, .now ?_, Nat.le_of_eq h⟩
      rw [pursue, if_pos hd]
    · rw [drive_zero hd]
      refine ⟨1, Nat.le_refl 1, .now ?_, Nat.le_of_eq h⟩
      rw [pursue, if_neg hd, if_pos (by omega)]
  | succ left ih =>
    by_cases hd : r.current.distance ≤ 0
    · rw [drive_of_le _ hd]
      refine ⟨1, by omega, .now ?_, by show r.iteration ≤ budget; omega⟩
      rw [pursue, if_pos hd]
    · have hopen : ¬ budget ≤ r.iteration := by omega
      have hturn := turn_iteration (c := c) r
      rw [drive_succ left hd]
      split
      · rename_i r' e hp
        rw [hp] at hturn
        refine ⟨1, by omega, .now ?_, ?_⟩
        · rw [pursue, if_neg hd, if_neg hopen, hp]
        · show r'.iteration ≤ budget
          have : r'.iteration = r.iteration + 1 := hturn
          omega
      · rename_i r' hp
        rw [hp] at hturn
        have hnext : r'.iteration + left = budget := by
          have : r'.iteration = r.iteration + 1 := hturn
          omega
        obtain ⟨n, hn, hleaves, hlast⟩ := ih (r := { r' with used := r'.used + 1 }) hnext
        refine ⟨n + 1, by omega, .later ?_ hleaves, hlast⟩
        rw [pursue, if_neg hd, if_neg hopen, hp]
      · rename_i r' hp
        rw [hp] at hturn
        refine ⟨1, by omega, .now ?_, ?_⟩
        · rw [pursue, if_neg hd, if_neg hopen, hp]
        · show r'.iteration ≤ budget
          have : r'.iteration = r.iteration + 1 := hturn
          omega

/-- **Every run ends.** Whatever the strategies propose, the explainers explain and the oracle says,
with or without the guard against repeated texts: each round that goes on adds one target to those
that were tried, so an iteration takes at most one round more than there are targets, and a run takes
at most as many iterations as its budget allows. -/
theorem run_ends (c : Course) :
    ((targets.map fun t => (t.1, t.2.tag)).Nodup ∧ ∀ t, t ∈ targets) ∧
    (∀ explain p p', c.round explain p = .inr p' → ∃ t, t ∉ p.tried ∧ p'.tried = t :: p.tried) ∧
    (∀ explain r, ∃ n out, n ≤ targets.length + 1 ∧ Leaves (c.round explain) n { run := r } out ∧
      ∀ n' out', Leaves (c.round explain) n' { run := r } out' → n' = n ∧ out' = out) ∧
    (∀ r, ∃ n, n ≤ targets.length + 1 ∧
      Leaves (c.round c.explain) n { run := r } (c.iterate [] r false)) ∧
    ∀ budget first, ∃ n, n ≤ budget + 1 ∧
      Leaves (c.pursue budget) n (.start first) (c.drive budget (.start first)) ∧
      (c.drive budget (.start first)).1.iteration ≤ budget := by
  refine ⟨⟨nodup_targets, mem_targets⟩, ?_, ?_, leaves_iterate, ?_⟩
  · intro explain p p' h
    exact round_tries h
  · intro explain r
    obtain ⟨n, out, hn, hleaves⟩ := exists_leaves_round (c := c) explain { run := r }
    exact ⟨n, out, hn, hleaves, fun _ _ h => h.unique hleaves⟩
  · intro budget first
    exact leaves_drive (Nat.zero_add budget)

/-- A course without strategies, and an explanation that always names the same difference: the first
round tries its target and goes on. -/
theorem run_ends_stubborn :
    let canon : Snapshot := Gate.measure { canon := {} } "" ⟨[]⟩
    let c : Course := { gate := { canon := {} }, canon, explainers := .empty, strategies := [] }
    let explain : Explanation := fun _ => .ok [{ kind := .naming, hint := .none }]
    let p : Pass := { run := .start canon }
    ∃ p', c.round explain p = .inr p' ∧ ∃ t, t ∉ p.tried ∧ p'.tried = t :: p.tried := by
  intro canon c explain p
  refine ⟨⟨[(.normalizedStructure, .naming)], p.run, false⟩, rfl, ?_⟩
  exact (run_ends c).2.1 explain p _ rfl

end Course

end Concord
