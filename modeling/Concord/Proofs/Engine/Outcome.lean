import Concord.Proofs.Engine.Moves
import Concord.Proofs.Profile.Distance
import Mathlib.Data.List.Nodup

/-!
# What a transformation promises

A transformation either returns its candidate as it was or a text that descends from it by accepted
steps. Its outcome, its distances and its counters agree, along every way in which a run can end.

Main statements:

* `Engine.transform_descends`: at every point of a run the current text descends from the candidate,
  and so does the text that is returned.
* `Engine.transform_consistent`: outcome, success, distances and counters agree, and a text that is
  its own canon comes back untouched.
-/

namespace Concord

/-! ## What a step of a run gains -/

/-- A part of a run, with the word on whether it kept something: if it did, more strategies are
applied, and if it did not, the current text is the same. -/
structure Run.Advances (r : Run) (p : Run × Bool) : Prop where
  used : p.1.used = r.used
  moved : p.2 = true → r.applied.length < p.1.applied.length
  still : p.2 = false → p.1.current = r.current ∧ p.1.applied = r.applied

namespace Run.Advances

theorem refl (r : Run) : r.Advances (r, false) :=
  ⟨rfl, by simp, fun _ => ⟨rfl, rfl⟩⟩

theorem applied_le {r : Run} {p : Run × Bool} (h : r.Advances p) :
    r.applied.length ≤ p.1.applied.length := by
  obtain ⟨r', _ | _⟩ := p
  · exact (congrArg List.length (h.still rfl).2).ge
  · exact (h.moved rfl).le

theorem trans {r r₁ r₂ : Run} {b₁ b₂ : Bool} (h₁ : r.Advances (r₁, b₁))
    (h₂ : r₁.Advances (r₂, b₂)) : r.Advances (r₂, b₁ || b₂) := by
  refine ⟨h₂.used.trans h₁.used, ?_, ?_⟩
  · intro hb
    rcases Bool.or_eq_true_iff.mp hb with hb | hb
    · exact (h₁.moved hb).trans_le h₂.applied_le
    · exact h₁.applied_le.trans_lt (h₂.moved hb)
  · intro hb
    obtain ⟨hb₁, hb₂⟩ := Bool.or_eq_false_iff.mp hb
    exact ⟨(h₂.still hb₂).1.trans (h₁.still hb₁).1, (h₂.still hb₂).2.trans (h₁.still hb₁).2⟩

theorem of_rejected {r r' : Run} {name : String} {o : Objection} (h : r.Rejected name o r') :
    r.Advances (r', false) :=
  ⟨h.used, by simp, fun _ => ⟨h.current, h.applied⟩⟩

end Run.Advances

namespace Course

variable {c : Course}

theorem propose_advances (r : Run) (name : String) (tier : Tier)
    (generated : Except StrategyError (Option String)) :
    r.Advances (c.propose r name tier generated) := by
  generalize hp : c.propose r name tier generated = p
  have ha := c.propose_answers r name tier generated
  rw [hp] at ha
  cases ha with
  | nothing => exact .refl r
  | kept hk => exact ⟨hk.used, fun _ => by simp [hk.applied], by simp⟩
  | repeated _ _ hr => exact .of_rejected hr
  | refused _ hr => exact .of_rejected hr
  | failed hr => exact .of_rejected hr

theorem tryStrategies_advances (d : Difference) (ss : Strategies) (r : Run) :
    r.Advances (c.tryStrategies d ss r) := by
  fun_induction tryStrategies c d ss r with
  | case1 r => exact .refl r
  | case2 s rest r r' h =>
    have hone := propose_advances (c := c) r s.name .strategy (s.generate d r.current.source)
    rw [h] at hone
    exact hone
  | case3 s rest r r' h ih =>
    have hone := propose_advances (c := c) r s.name .strategy (s.generate d r.current.source)
    rw [h] at hone
    simpa using hone.trans ih

/-- An iteration answers whether it, or what came before it, kept something. -/
theorem iterate_advances {tried : List Target} {r r' : Run} {kept kept' : Bool}
    (h : c.iterate tried r kept = (r', .ok kept')) :
    ∃ now, kept' = (kept || now) ∧ r.Advances (r', now) := by
  fun_induction iterate c tried r kept with
  | case1 => cases h
  | case2 r kept =>
    cases h
    exact ⟨false, by simp, .refl _⟩
  | case3 tried r kept ds _ d _ _ r₁ now htry ih =>
    obtain ⟨later, hkept, hlater⟩ := ih h
    have hnow := tryStrategies_advances (c := c) d (c.strategies.applicable d) r
    rw [htry] at hnow
    exact ⟨now || later, by rw [hkept, Bool.or_assoc], hnow.trans hlater⟩

theorem validated_advances (r : Run) : r.Advances ((c.validated r).1, false) := by
  unfold validated
  split
  · exact .refl r
  · simp only
    split
    · exact ⟨rfl, by simp, fun _ => ⟨rfl, rfl⟩⟩
    · exact ⟨rfl, by simp, fun _ => ⟨rfl, rfl⟩⟩

theorem tryTemplate_advances (r : Run) : r.Advances (c.tryTemplate r) := by
  unfold tryTemplate
  split
  · exact .refl r
  · have hv := validated_advances (c := c) r
    split
    · rename_i hp
      rw [hp] at hv
      exact hv
    · rename_i hp
      rw [hp] at hv
      exact hv.trans (propose_advances _ _ _ _)

theorem turn_advances {r r' : Run} {kept : Bool} (h : c.turn r = (r', .ok kept)) :
    r.Advances (r', kept) := by
  have hbegin : r.Advances ({ r with iteration := r.iteration + 1 }, false) :=
    ⟨rfl, by simp, fun _ => ⟨rfl, rfl⟩⟩
  unfold turn at h
  split at h
  · cases h
  · rename_i r₁ now hiter
    obtain ⟨now', hnow, hadv⟩ := iterate_advances hiter
    rw [Bool.false_or] at hnow
    subst hnow
    have hturn := hbegin.trans hadv
    rw [Bool.false_or] at hturn
    split at h
    · rename_i hcond
      have hnot : now = false := by
        rw [Bool.and_eq_true] at hcond
        simpa using hcond.1
      cases h
      have hboth := hturn.trans (tryTemplate_advances (c := c) r₁)
      rw [hnot, Bool.false_or] at hboth
      exact hboth
    · cases h
      exact hturn

/-! ## How a run ends -/

/-- What the ending of a run says about the distance that is left, and how many iterations count. -/
structure Ends (left : Nat) (r : Run) (p : Run × Ending) : Prop where
  converged : p.2 = .converged → p.1.current.distance ≤ 0
  exhausted : p.2 = .exhausted → 0 < p.1.current.distance
  aborted : p.2 = .aborted → 0 < r.current.distance
  within : p.2 ≠ .aborted → p.1.used ≤ r.used + left
  covered : p.2 ≠ .aborted → p.1.used + r.applied.length ≤ r.used + p.1.applied.length

theorem drive_ends (left : Nat) (r : Run) : Ends left r (c.drive left r) := by
  induction left generalizing r with
  | zero =>
    by_cases h : r.current.distance ≤ 0
    · rw [drive_of_le 0 h]
      exact ⟨fun _ => h, by simp, by simp, fun _ => le_refl _, fun _ => le_refl _⟩
    · rw [drive_zero h]
      exact ⟨by simp, fun _ => not_le.mp h, by simp, fun _ => le_refl _, fun _ => le_refl _⟩
  | succ left ih =>
    by_cases h : r.current.distance ≤ 0
    · rw [drive_of_le _ h]
      exact ⟨fun _ => h, by simp, by simp, fun _ => Nat.le_add_right _ _, fun _ => le_refl _⟩
    · rw [drive_succ left h]
      split
      · exact ⟨by simp, by simp, fun _ => not_le.mp h, by simp, by simp⟩
      · -- Something was kept: the iteration counts, and it applied at least one strategy.
        rename_i r' hturn
        have hadv := turn_advances hturn
        have hmore : r.applied.length < r'.applied.length := hadv.moved rfl
        have hused : r'.used = r.used := hadv.used
        obtain ⟨hconv, hexh, -, hwithin, hcovered⟩ := ih { r' with used := r'.used + 1 }
        refine ⟨hconv, hexh, fun _ => not_le.mp h, ?_, ?_⟩
        · intro hne
          have := hwithin hne
          simp only at this
          omega
        · intro hne
          have := hcovered hne
          simp only at this
          omega
      · rename_i r' hturn
        have hadv := turn_advances hturn
        obtain ⟨hcur, happ⟩ := hadv.still rfl
        have hused : r'.used = r.used := hadv.used
        refine ⟨by simp, fun _ => ?_, by simp, fun _ => ?_, fun _ => ?_⟩
        · show 0 < r'.current.distance
          rw [show r'.current = r.current from hcur]
          exact not_le.mp h
        · show r'.used ≤ _
          omega
        · show r'.used + r.applied.length ≤ r.used + r'.applied.length
          rw [hused, show r'.applied = r.applied from happ]

end Course

/-! ## Transformations -/

namespace Gate

variable {g : Gate}

theorem snapshot?_eq_some {source : String} {s : Snapshot} (h : g.snapshot? source = some s) :
    ∃ m, Module.parse? source = some m ∧ s = g.measure source m := by
  obtain ⟨m, hm, rfl⟩ := Option.map_eq_some_iff.mp h
  exact ⟨m, hm, rfl⟩

theorem snapshot?_of_parse {source : String} {m : Module} (h : Module.parse? source = some m) :
    g.snapshot? source = some (g.measure source m) := by
  unfold snapshot?
  rw [h]
  rfl

theorem measure_distance_nonneg (g : Gate) (source : String) (m : Module) :
    0 ≤ (g.measure source m).distance :=
  Profile.distance_nonneg _ _ _

/-- Every text that a run comes to has a distance that is not negative. -/
theorem distance_nonneg_of_lineage {first s : Snapshot} {names : List String}
    (h : Lineage g first names s) (hfirst : 0 ≤ first.distance) : 0 ≤ s.distance := by
  cases h with
  | origin => exact hfirst
  | kept _ _ hacc =>
    rw [hacc.improves.measured]
    exact measure_distance_nonneg _ _ _

end Gate

namespace Engine

/-- The number of iterations a request may take. -/
def budgetFor (e : Engine) (q : Request) : Nat := q.maxIterations.getD e.config.maxIterations

/-- The last state and the ending of the run for a request, given the measured texts. -/
def outcomeFor (e : Engine) (q : Request) (canon first : Snapshot) : Run × Course.Ending :=
  (e.courseFor q canon).drive (e.budgetFor q) (.start first)

/-- A transformation is either the candidate as it was, or read off the last state of a run. -/
inductive Result (e : Engine) (q : Request) : Transformation → Prop
  | unmeasured :
      (e.gateFor q).snapshot? q.canon = none ∨ (e.gateFor q).snapshot? q.candidate = none →
      Result e q (.aborted q.candidate 1 [] [])
  | aborted {canon first : Snapshot} {r : Run} :
      (e.gateFor q).snapshot? q.canon = some canon →
      (e.gateFor q).snapshot? q.candidate = some first →
      e.outcomeFor q canon first = (r, .aborted) →
      Result e q (.aborted q.candidate first.distance r.rejections r.memo.asked)
  | finished {canon first : Snapshot} {r : Run} {ending : Course.Ending} :
      (e.gateFor q).snapshot? q.canon = some canon →
      (e.gateFor q).snapshot? q.candidate = some first →
      e.outcomeFor q canon first = (r, ending) → ending ≠ .aborted →
      Result e q
        { text := r.current.source, ending, used := r.used, applied := r.applied
          initialDistance := first.distance, finalDistance := r.current.distance
          rejections := r.rejections, asked := r.memo.asked }

theorem transform_result (e : Engine) (q : Request) : e.Result q (e.transform q) := by
  unfold transform
  simp only
  split
  · rename_i canon first hcanon hfirst
    generalize hrun : e.outcomeFor q canon first = p
    have hdrive : (e.courseFor q canon).drive (q.maxIterations.getD e.config.maxIterations)
        (.start first) = p := hrun
    obtain ⟨r, ending⟩ := p
    rw [hdrive]
    simp only
    split
    · rename_i hend
      rw [hend] at hrun
      exact .aborted hcanon hfirst hrun
    · rename_i hend
      exact .finished hcanon hfirst hrun hend
  · rename_i hnone
    refine .unmeasured ?_
    rcases hc : (e.gateFor q).snapshot? q.canon with _ | canon
    · exact .inl rfl
    · rcases hf : (e.gateFor q).snapshot? q.candidate with _ | first
      · exact .inr rfl
      · exact absurd hf (hnone canon first hc)

/-- **Runs descend from their candidate.** At every point of a run, whatever was proposed on the
way, the current text is the candidate or was accepted in the place of the one before it; a proposal
that is not kept leaves the state as it was, but for one line in the log. -/
theorem transform_descends (e : Engine) (q : Request) :
    (∀ canon first, (e.gateFor q).snapshot? q.canon = some canon →
      (e.gateFor q).snapshot? q.candidate = some first →
      (e.courseFor q canon).Reaches (.start first) (e.outcomeFor q canon first).1 ∧
      ∀ r, (e.courseFor q canon).Reaches (.start first) r →
        Lineage (e.gateFor q) first r.applied r.current ∧
        ∀ name tier generated, (e.courseFor q canon).Answer name tier r generated
          ((e.courseFor q canon).propose r name tier generated)) ∧
    (∀ before after, (e.gateFor q).Accepts before after →
      (e.gateFor q).Improves before after) ∧
    (e.transform q).finalDistance ≤ (e.transform q).initialDistance ∧
    (∀ before, Module.parse? q.candidate = some before →
      ∃ after, Module.parse? (e.transform q).text = some after ∧
        after.unboundNames ⊆ before.unboundNames) ∧
    ((e.transform q).applied = [] → (e.transform q).text = q.candidate) := by
  refine ⟨?_, fun _ _ hacc => hacc.improves, ?_⟩
  · intro canon first _ _
    exact ⟨Course.drive_reaches _ _, fun r hr =>
      ⟨hr.lineage, fun name tier generated => Course.propose_answers _ r name tier generated⟩⟩
  · have hresult := e.transform_result q
    generalize e.transform q = t at hresult
    cases hresult with
    | unmeasured => exact ⟨le_refl _, fun m hm => ⟨m, hm, fun _ hn => hn⟩, fun _ => rfl⟩
    | aborted => exact ⟨le_refl _, fun m hm => ⟨m, hm, fun _ hn => hn⟩, fun _ => rfl⟩
    | @finished canon first r ending _ hfirst hrun _ =>
      obtain ⟨m, hm, rfl⟩ := Gate.snapshot?_eq_some hfirst
      have hreach := Course.drive_reaches (c := e.courseFor q canon) (e.budgetFor q)
        (.start ((e.gateFor q).measure q.candidate m))
      rw [show (e.courseFor q canon).drive _ _ = _ from hrun] at hreach
      have hline := hreach.lineage
      refine ⟨hline.distance_le, ?_, ?_⟩
      · intro m' hm'
        obtain rfl := Option.some.inj (hm.symm.trans hm')
        exact ⟨r.current.module, hline.parses hm, hline.unboundNames_subset⟩
      · intro happlied
        simp only at happlied
        rw [happlied] at hline
        show r.current.source = q.candidate
        rw [hline.eq_first]
        rfl

/-- A doubling through a name, and its shorter form as the canon. -/
def doubling : Request where
  candidate := "def f(n):\n    r = n * 2\n    return r\n"
  canon := "def f(n):\n    return n * 2\n"

/-- The run for `doubling` gets from its first state to its last one by moves. -/
theorem transform_descends_doubling :
    ∃ canon first : Snapshot,
      (gateFor {} doubling).snapshot? doubling.canon = some canon ∧
      (gateFor {} doubling).snapshot? doubling.candidate = some first ∧
      (courseFor {} doubling canon).Reaches (.start first) (outcomeFor {} doubling canon first).1 ∧
      Lineage (gateFor {} doubling) first (outcomeFor {} doubling canon first).1.applied
        (outcomeFor {} doubling canon first).1.current := by
  have hcanon : (Module.parse? doubling.canon).isSome = true := by decide +kernel
  have hfirst : (Module.parse? doubling.candidate).isSome = true := by decide +kernel
  obtain ⟨mc, hmc⟩ := Option.isSome_iff_exists.mp hcanon
  obtain ⟨mf, hmf⟩ := Option.isSome_iff_exists.mp hfirst
  have hsc := Gate.snapshot?_of_parse (g := gateFor {} doubling) hmc
  have hsf := Gate.snapshot?_of_parse (g := gateFor {} doubling) hmf
  obtain ⟨hreach, hall⟩ := (transform_descends {} doubling).1 _ _ hsc hsf
  exact ⟨_, _, hsc, hsf, hreach, (hall _ hreach).1⟩

/-- The canon of a request is at no distance from itself. -/
theorem measure_canon_distance (e : Engine) (q : Request) {m : Module}
    (h : Module.parse? q.canon = some m) (source : String) :
    ((e.gateFor q).measure source m).distance = 0 := by
  have hcanon : (e.gateFor q).canon = m.profile e.config.mode := by
    show Profile.ofSource e.config.mode q.canon = _
    unfold Profile.ofSource
    rw [h]
  show Profile.distance _ (m.profile e.config.mode) (e.gateFor q).canon = 0
  rw [hcanon]
  exact Module.distance_self _ _ _

/-- The run of a text that is its own canon ends before the first iteration. -/
theorem outcomeFor_canon (e : Engine) (q : Request) {m : Module}
    (h : Module.parse? q.canon = some m) (canon : Snapshot) (source : String) :
    e.outcomeFor q canon ((e.gateFor q).measure source m) =
      (.start ((e.gateFor q).measure source m), .converged) :=
  Course.drive_of_le _ (e.measure_canon_distance q h source).le

/-- **Outcomes are consistent.** A run converges exactly when no distance is left, it is exhausted
only at some distance, an aborted one changes nothing, no more iterations count than the request
allows and than strategies were applied, and a text that is its own canon comes back untouched. -/
theorem transform_consistent (e : Engine) (q : Request) :
    ((e.transform q).success = true ↔ (e.transform q).ending = .converged) ∧
    ((e.transform q).ending = .converged ↔ (e.transform q).finalDistance = 0) ∧
    ((e.transform q).ending = .exhausted → 0 < (e.transform q).finalDistance) ∧
    ((e.transform q).ending = .aborted →
      (e.transform q).text = q.candidate ∧ (e.transform q).applied = [] ∧
      (e.transform q).used = 0 ∧ (e.transform q).finalDistance = (e.transform q).initialDistance ∧
      0 < (e.transform q).initialDistance) ∧
    (e.transform q).used ≤ q.maxIterations.getD e.config.maxIterations ∧
    (e.transform q).used ≤ (e.transform q).applied.length ∧
    (q.candidate = q.canon → (Module.parse? q.canon).isSome = true →
      (e.transform q).ending = .converged ∧ (e.transform q).text = q.canon ∧
      (e.transform q).applied = [] ∧ (e.transform q).used = 0) := by
  have hresult := e.transform_result q
  generalize e.transform q = t at hresult
  refine ⟨by simp [Transformation.success], ?_⟩
  cases hresult with
  | unmeasured hnone =>
    refine ⟨by simp [Transformation.aborted], by simp [Transformation.aborted], fun _ => ?_,
      Nat.zero_le _, Nat.zero_le _, ?_⟩
    · exact ⟨rfl, rfl, rfl, rfl, (by decide : (0 : Rat) < 1)⟩
    · intro hsame hparse
      obtain ⟨m, hm⟩ := Option.isSome_iff_exists.mp hparse
      rw [hsame, or_self, Gate.snapshot?_of_parse hm] at hnone
      cases hnone
  | @aborted canon first r _ hfirst hrun =>
    have hends := Course.drive_ends (c := e.courseFor q canon) (e.budgetFor q) (.start first)
    rw [show (e.courseFor q canon).drive _ _ = _ from hrun] at hends
    have hpos : 0 < first.distance := hends.aborted rfl
    refine ⟨?_, by simp [Transformation.aborted], fun _ => ⟨rfl, rfl, rfl, rfl, hpos⟩,
      Nat.zero_le _, Nat.zero_le _, ?_⟩
    · simp [Transformation.aborted, hpos.ne']
    · intro hsame hparse
      obtain ⟨m, hm⟩ := Option.isSome_iff_exists.mp hparse
      rw [hsame, Gate.snapshot?_of_parse hm] at hfirst
      obtain rfl := Option.some.inj hfirst
      exact absurd (e.measure_canon_distance q hm q.canon) hpos.ne'
  | @finished canon first r ending _ hfirst hrun hend =>
    have hends := Course.drive_ends (c := e.courseFor q canon) (e.budgetFor q) (.start first)
    have hreach := Course.drive_reaches (c := e.courseFor q canon) (e.budgetFor q) (.start first)
    rw [show (e.courseFor q canon).drive _ _ = _ from hrun] at hends hreach
    have hnonneg : 0 ≤ r.current.distance := by
      obtain ⟨m, -, rfl⟩ := Gate.snapshot?_eq_some hfirst
      exact Gate.distance_nonneg_of_lineage hreach.lineage (Gate.measure_distance_nonneg _ _ _)
    refine ⟨⟨?_, ?_⟩, hends.exhausted, fun h => absurd h hend, ?_, ?_, ?_⟩
    · exact fun h => le_antisymm (hends.converged h) hnonneg
    · intro hzero
      have hzero' : r.current.distance = 0 := hzero
      cases ending with
      | converged => rfl
      | exhausted => exact absurd hzero' (hends.exhausted rfl).ne'
      | aborted => exact absurd rfl hend
    · have := hends.within hend
      simpa [Run.start, budgetFor] using this
    · have := hends.covered hend
      simpa [Run.start] using this
    · intro hsame hparse
      obtain ⟨m, hm⟩ := Option.isSome_iff_exists.mp hparse
      rw [hsame, Gate.snapshot?_of_parse hm] at hfirst
      obtain rfl := Option.some.inj hfirst
      rw [e.outcomeFor_canon q hm] at hrun
      cases hrun
      exact ⟨rfl, rfl, rfl, rfl⟩

/-- A function that is its own canon, without any iteration allowed. -/
theorem transform_consistent_identity :
    (Module.parse? "def f(n):\n    return n * 2\n").isSome = true ∧
    (transform {} { candidate := "def f(n):\n    return n * 2\n"
                    canon := "def f(n):\n    return n * 2\n"
                    maxIterations := some 0 }).ending = .converged := by
  have hparse : (Module.parse? "def f(n):\n    return n * 2\n").isSome = true := by
    decide +kernel
  exact ⟨hparse, ((transform_consistent {} _).2.2.2.2.2.2 rfl hparse).1⟩

end Engine

end Concord

/-!
## Runs do not come back

Steps of equal distance are allowed, so the distance alone does not keep a run from going in
circles. The guard does: it compares the digest of every proposal, from a strategy or from the
template, with those of the first text and of all kept ones. What it compares are digests, and texts
with different digests are different; so two texts with one digest could at most make a run stop
early, and nothing has to be assumed of digests here.

Main statements:

* `Course.Move.fresh_or_still`: under the guard a move keeps a text with a new digest, or none.
* `Course.Trail.visited`: the visited digests are those of the texts kept on the way and of the
  first.
* `Engine.transform_never_returns`: the texts of a run differ, and a text that was left is left for
  good.
-/

namespace Concord

namespace Course

variable {c : Course}

/-! ### One move -/

/-- Under the guard a text that is kept has a digest that was not there before. -/
theorem consider_fresh (hguard : c.visitedGuard = true) {r : Run} {name text : String} {tier : Tier}
    (h : (c.consider r name text tier).2 = true) : Digest.ofText text ∉ r.visited := by
  intro hseen
  have hcontains : (c.visitedGuard && r.visited.contains (Digest.ofText text)) = true := by
    rw [hguard, Bool.true_and]
    exact List.contains_iff_mem.mpr hseen
  unfold consider at h
  simp only [hcontains, if_true] at h
  cases h

theorem propose_fresh (hguard : c.visitedGuard = true) {r r' : Run} {name text : String}
    {tier : Tier} (h : c.propose r name tier (.ok (some text)) = (r', true)) :
    Digest.ofText text ∉ r.visited :=
  consider_fresh hguard (congrArg Prod.snd h)

/-- Under the guard a move keeps an accepted text with a new digest, or it leaves the current text,
the visited texts and the applied strategies alone. -/
theorem Move.fresh_or_still (hguard : c.visitedGuard = true) {r r' : Run} (h : c.Move r r') :
    (∃ name text, r.Kept c.gate name text r' ∧ Digest.ofText text ∉ r.visited) ∨
      (r'.current = r.current ∧ r'.visited = r.visited ∧ r'.applied = r.applied) := by
  cases h with
  | begins => exact .inr ⟨rfl, rfl, rfl⟩
  | consults => exact .inr ⟨rfl, rfl, rfl⟩
  | counts => exact .inr ⟨rfl, rfl, rfl⟩
  | answers name tier generated =>
    generalize hp : c.propose r name tier generated = p
    have ha := c.propose_answers r name tier generated
    rw [hp] at ha
    cases ha with
    | nothing => exact .inr ⟨rfl, rfl, rfl⟩
    | kept hk => exact .inl ⟨name, _, hk, propose_fresh hguard hp⟩
    | repeated _ _ hr => exact .inr ⟨hr.current, hr.visited, hr.applied⟩
    | refused _ hr => exact .inr ⟨hr.current, hr.visited, hr.applied⟩
    | failed hr => exact .inr ⟨hr.current, hr.visited, hr.applied⟩

/-! ### The texts kept on the way -/

/-- The moves from one state to another keep these texts, the latest first. -/
inductive Trail (c : Course) (r : Run) : List String → Run → Prop
  | here : Trail c r [] r
  | keeps {texts : List String} {r' r'' : Run} {name text : String} :
      Trail c r texts r' → c.Move r' r'' → r'.Kept c.gate name text r'' →
      Trail c r (text :: texts) r''
  | stays {texts : List String} {r' r'' : Run} :
      Trail c r texts r' → c.Move r' r'' → r''.current = r'.current → r''.visited = r'.visited →
      r''.applied = r'.applied → Trail c r texts r''

/-- Whatever a run can come to, it came to by keeping some texts. -/
theorem Reaches.trail {r r' : Run} (h : c.Reaches r r') : ∃ texts, c.Trail r texts r' := by
  induction h with
  | refl => exact ⟨[], .here⟩
  | tail _ hmove ih =>
    obtain ⟨texts, htrail⟩ := ih
    obtain ⟨name, text, hkept⟩ | ⟨hcurrent, hvisited, happlied⟩ := hmove.cases
    · exact ⟨text :: texts, .keeps htrail hmove hkept⟩
    · exact ⟨texts, .stays htrail hmove hcurrent hvisited happlied⟩

namespace Trail

variable {r r' : Run} {texts : List String}

theorem reaches (h : c.Trail r texts r') : c.Reaches r r' := by
  induction h with
  | here => exact .refl
  | keeps _ hmove _ ih => exact ih.tail hmove
  | stays _ hmove _ _ _ ih => exact ih.tail hmove

/-- One text is kept for each strategy that is applied. -/
theorem applied (h : c.Trail r texts r') :
    r'.applied.length = texts.length + r.applied.length := by
  induction h with
  | here => exact (Nat.zero_add _).symm
  | keeps _ _ hkept ih =>
    rw [hkept.applied, List.length_append, ih]
    simp only [List.length_cons, List.length_nil]
    omega
  | stays _ _ _ _ happlied ih =>
    rw [happlied]
    exact ih

/-- The digests of the texts are put before those that were there. -/
theorem visited (h : c.Trail r texts r') : r'.visited = texts.map Digest.ofText ++ r.visited := by
  induction h with
  | here => rfl
  | keeps _ _ hkept ih => rw [hkept.visited, ih, List.map_cons, List.cons_append]
  | stays _ _ _ hvisited _ ih =>
    rw [hvisited]
    exact ih

/-- The current text is the latest one that was kept, or the first if none was. -/
theorem latest (h : c.Trail r texts r') :
    (texts ++ [r.current.source]).head? = some r'.current.source := by
  induction h with
  | here => rfl
  | keeps _ _ hkept _ =>
    rw [hkept.source]
    rfl
  | stays _ _ hcurrent _ _ ih =>
    rw [hcurrent]
    exact ih

theorem eq_of_nil (h : c.Trail r [] r') : r'.current = r.current := by
  generalize hnil : ([] : List String) = texts at h
  induction h with
  | here => rfl
  | keeps => cases hnil
  | stays _ _ hcurrent _ _ ih => exact hcurrent.trans (ih hnil)

/-- The current text was kept on the way, or it is still the one at the start of the trail. -/
theorem source_mem_or (h : c.Trail r texts r') :
    r'.current.source ∈ texts ∨ r'.current = r.current := by
  cases texts with
  | nil => exact .inr h.eq_of_nil
  | cons text texts =>
    left
    obtain rfl : text = r'.current.source := Option.some.inj h.latest
    exact List.mem_cons_self

/-- Under the guard the visited digests differ from each other all along. -/
theorem nodup_visited (hguard : c.visitedGuard = true) (h : c.Trail r texts r')
    (hr : r.visited.Nodup) : r'.visited.Nodup := by
  induction h with
  | here => exact hr
  | keeps _ hmove hkept ih =>
    rw [hkept.visited]
    refine List.nodup_cons.mpr ⟨?_, ih⟩
    obtain ⟨name, text, hkept', hfresh⟩ | ⟨-, -, happlied⟩ := hmove.fresh_or_still hguard
    · rw [← hkept.source, hkept'.source]
      exact hfresh
    · rw [hkept.applied] at happlied
      exact absurd happlied (by simp)
  | stays _ _ _ hvisited _ ih =>
    rw [hvisited]
    exact ih

end Trail

/-! ### Whole runs -/

variable {first : Snapshot}

/-- The texts kept on the way from a measured text differ from each other and from it. -/
theorem Trail.nodup (hguard : c.visitedGuard = true)
    (hfirst : first.hash = Digest.ofText first.source) {r : Run} {texts : List String}
    (h : c.Trail (.start first) texts r) :
    (texts ++ [first.source]).Nodup := by
  have hvisited : r.visited = (texts ++ [first.source]).map Digest.ofText := by
    rw [h.visited, List.map_append, List.map_singleton, ← hfirst]
    rfl
  have hnodup := h.nodup_visited hguard (List.nodup_singleton _)
  rw [hvisited] at hnodup
  exact hnodup.of_map

/-- A text that was left does not become the current one again. -/
theorem Reaches.never_returns (hguard : c.visitedGuard = true)
    (hfirst : first.hash = Digest.ofText first.source) {r r' r'' : Run}
    (h : c.Reaches (.start first) r) (h' : c.Reaches r r') (h'' : c.Reaches r' r'')
    (hleft : r'.current.source ≠ r.current.source) : r''.current.source ≠ r.current.source := by
  obtain ⟨texts, htrail⟩ := h.trail
  obtain ⟨later, hlater⟩ := h'.trail
  obtain ⟨latest, hlatest⟩ := h''.trail
  obtain ⟨all, hall⟩ := Reaches.trail ((h.trans h').trans h'')
  have hnodup : r''.visited.Nodup := hall.nodup_visited hguard (List.nodup_singleton _)
  rw [hlatest.visited, hlater.visited, ← List.append_assoc] at hnodup
  have hold : Digest.ofText r.current.source ∈ r.visited := by
    rw [htrail.visited]
    rcases htrail.source_mem_or with hmem | hsame
    · exact List.mem_append_left _ (List.mem_map_of_mem hmem)
    · rw [hsame]
      exact List.mem_append_right _ (List.mem_singleton.mpr hfirst.symm)
  -- Another text was kept after it, so a text that is current again would be kept a second time.
  have hnew : Digest.ofText r''.current.source ∈
      latest.map Digest.ofText ++ later.map Digest.ofText := by
    rcases hlatest.source_mem_or with hmem | hsame
    · exact List.mem_append_left _ (List.mem_map_of_mem hmem)
    · rw [hsame]
      rcases hlater.source_mem_or with hmem | hstill
      · exact List.mem_append_right _ (List.mem_map_of_mem hmem)
      · exact absurd (congrArg Snapshot.source hstill) hleft
  intro hback
  rw [hback] at hnew
  exact List.disjoint_of_nodup_append hnodup hnew hold

end Course

/-! ### Transformations -/

namespace Engine

/-- **Runs do not oscillate.** Under the guard, with any strategies, explainers, templates and
oracle and for any budget: the texts kept up to some point of a run, one for each applied strategy,
differ from each other and from the candidate, and the latest of them is the current text; a text
that is not current any more never becomes so again. This holds in particular of the run that gives
the transformation. -/
theorem transform_never_returns {e : Engine} {q : Request} (hguard : e.config.visitedGuard = true)
    {canon first : Snapshot} (hcanon : (e.gateFor q).snapshot? q.canon = some canon)
    (hfirst : (e.gateFor q).snapshot? q.candidate = some first) :
    let c := e.courseFor q canon
    let start := Run.start first
    (∀ texts r, c.Trail start texts r →
      (texts ++ [q.candidate]).Nodup ∧ texts.length = r.applied.length ∧
      (texts ++ [q.candidate]).head? = some r.current.source) ∧
    (∀ r r' r'', c.Reaches start r → c.Reaches r r' → c.Reaches r' r'' →
      r'.current.source ≠ r.current.source → r''.current.source ≠ r.current.source) ∧
    ∃ texts r, c.Trail start texts r ∧ r = (e.outcomeFor q canon first).1 ∧
      ((e.transform q).ending ≠ .aborted → (e.transform q).text = r.current.source) ∧
      ((e.transform q).ending = .aborted → (e.transform q).text = q.candidate) := by
  intro c start
  obtain ⟨m, -, hmeasured⟩ := Gate.snapshot?_eq_some hfirst
  have hsource : first.source = q.candidate := by rw [hmeasured, Gate.measure_source]
  have hhash : first.hash = Digest.ofText first.source := by
    rw [hmeasured]
    rfl
  refine ⟨?_, ?_, ?_⟩
  · intro texts r htrail
    have hnodup := htrail.nodup hguard hhash
    have hlatest := htrail.latest
    rw [hsource] at hnodup
    rw [show start.current.source = q.candidate from hsource] at hlatest
    exact ⟨hnodup, htrail.applied.symm, hlatest⟩
  · intro r r' r'' h h' h'' hleft
    exact Course.Reaches.never_returns hguard hhash h h' h'' hleft
  · obtain ⟨texts, htrail⟩ :=
      Course.Reaches.trail (Course.drive_reaches (c := c) (e.budgetFor q) start)
    refine ⟨texts, _, htrail, rfl, ?_⟩
    have hresult := e.transform_result q
    generalize e.transform q = t at hresult
    cases hresult with
    | unmeasured hnone =>
      rw [hcanon, hfirst] at hnone
      rcases hnone with hnone | hnone <;> cases hnone
    | aborted => exact ⟨fun hne => absurd rfl hne, fun _ => rfl⟩
    | finished hcanon' hfirst' hrun hend =>
      obtain rfl := Option.some.inj (hcanon.symm.trans hcanon')
      obtain rfl := Option.some.inj (hfirst.symm.trans hfirst')
      refine ⟨fun _ => ?_, fun habort => absurd habort hend⟩
      rw [show c.drive (e.budgetFor q) start = _ from hrun]

/-- Without an oracle another text of the same module may always be proposed in the place of a text
that is as far from the canon; under the guard it is kept unless it was visited. -/
theorem trail_of_same_module {e : Engine} {q : Request} (horacle : e.oracle = none)
    (canon : Snapshot) {m : Module} (hdefines : m.hasDefinition = true) {text : String}
    (hparse : Module.parse? text = some m)
    (hfresh : Digest.ofText text ≠ Digest.ofText q.candidate) :
    ∃ r, (e.courseFor q canon).Trail (.start ((e.gateFor q).measure q.candidate m)) [text] r := by
  have hinspect : (e.gateFor q).inspect ((e.gateFor q).measure q.candidate m) text =
      .ok ((e.gateFor q).measure text m) := by
    unfold Gate.inspect
    rw [hparse]
    simp [hdefines, Gate.measure]
  have hjudge : (e.gateFor q).judge = none := by
    unfold gateFor
    rw [horacle]
    rfl
  have hanswer := (e.courseFor q canon).propose_answers
    (.start ((e.gateFor q).measure q.candidate m)) Template.name .template (.ok (some text))
  generalize hp : (e.courseFor q canon).propose _ Template.name .template _ = p at hanswer
  cases hanswer with
  | kept hkept =>
    refine ⟨_, .keeps .here ?_ hkept⟩
    have hmove := Course.Move.answers (c := e.courseFor q canon)
      (.start ((e.gateFor q).measure q.candidate m)) Template.name .template (.ok (some text))
    rw [hp] at hmove
    exact hmove
  | repeated _ hseen _ => exact absurd (List.mem_singleton.mp hseen) hfresh
  | refused hcheck _ =>
    have hok : ((e.gateFor q).check ((e.gateFor q).measure q.candidate m) text .template {}).1 =
        .ok ((e.gateFor q).measure text m) := by
      unfold Gate.check Gate.behaviourObjection?
      rw [hinspect, hjudge]
    have hcontra := hok.symm.trans hcheck
    cases hcontra

/-- A text that is its own canon. -/
def itself : Request where
  candidate := "def f(n):\n    return n\n"
  canon := "def f(n):\n    return n\n"

/-- A text may be kept in the place of one that it extends by a blank line. -/
theorem transform_never_returns_blank :
    ∃ canon first r, (gateFor {} itself).snapshot? itself.canon = some canon ∧
      (gateFor {} itself).snapshot? itself.candidate = some first ∧
      (courseFor {} itself canon).Trail (.start first) [itself.candidate ++ "\n"] r ∧
      ([itself.candidate ++ "\n"] ++ [itself.candidate]).Nodup := by
  have hparses : (Module.parse? itself.canon).isSome = true := by decide +kernel
  have hsame : Module.parse? (itself.candidate ++ "\n") = Module.parse? itself.canon := by
    decide +kernel
  have hfresh : Digest.ofText (itself.candidate ++ "\n") ≠ Digest.ofText itself.candidate := by
    decide +kernel
  have hdefine : (Module.parse? itself.canon).all Module.hasDefinition = true := by
    decide +kernel
  obtain ⟨m, hm⟩ := Option.isSome_iff_exists.mp hparses
  rw [hm] at hsame hdefine
  have hs := Gate.snapshot?_of_parse (g := gateFor {} itself) hm
  obtain ⟨r, htrail⟩ := trail_of_same_module (e := {}) (q := itself) rfl
    ((gateFor {} itself).measure itself.canon m) hdefine hsame hfresh
  exact ⟨_, _, r, hs, hs, htrail, ((transform_never_returns rfl hs hs).1 _ r htrail).1⟩

end Engine

end Concord
