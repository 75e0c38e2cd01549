import Concord.Engine.Basic
import Mathlib.Logic.Relation

/-!
# What a run can do to its state

A run is made of four kinds of moves: it begins an iteration, it answers a proposal, it consults the
oracle, and it counts an iteration that kept something. `Course.Move` says once what each of them
does, for proposals of any text or failure under any name; everything below is read off it.

Main statements:

* `Gate.Accepts.improves`: an accepted text parses, still defines something, reads no name that was
  bound before, and is not farther from the canon.
* `Course.propose_answers`: a proposal is dropped without a trace, kept, or noted as rejected; a
  rejected one leaves the current text, the visited texts and the applied strategies alone.
* `Course.drive_reaches`: every run is a sequence of moves, whatever its registries are.
* `Course.Reaches.lineage`: at every point of a run the current text descends from the first one by
  accepted steps, one for each applied strategy.
-/

namespace Concord

/-! ## What the gate accepts -/

/-- The gate lets `after` take the place of `before`, as a proposal of some tier and after some
questions to the oracle. -/
def Gate.Accepts (g : Gate) (before after : Snapshot) : Prop :=
  ∃ tier memo, (g.check before after.source tier memo).1 = .ok after

/-- What every accepted step keeps up. -/
structure Gate.Improves (g : Gate) (before after : Snapshot) : Prop where
  parses : Module.parse? after.source = some after.module
  defines : after.module.hasDefinition = true
  measured : after = g.measure after.source after.module
  closer : after.distance ≤ before.distance
  bound : after.module.unboundNames ⊆ before.module.unboundNames

namespace Gate

variable {g : Gate}

@[simp] theorem measure_source (g : Gate) (source : String) (m : Module) :
    (g.measure source m).source = source := rfl

@[simp] theorem measure_module (g : Gate) (source : String) (m : Module) :
    (g.measure source m).module = m := rfl

/-- The checks by the text alone give the measured text, and what they check holds of it. -/
theorem inspect_eq_ok {before : Snapshot} {text : String} {s : Snapshot}
    (h : g.inspect before text = .ok s) : s.source = text ∧ g.Improves before s := by
  unfold inspect at h
  split at h
  · cases h
  · rename_i m hparse
    split at h
    · cases h
    · rename_i hdef
      simp only at h
      split at h
      · cases h
      · rename_i hnames
        split at h
        · cases h
        · rename_i hdist
          cases h
          refine ⟨rfl, hparse, by simpa using hdef, rfl, Rat.not_lt.mp hdist, ?_⟩
          have hnil : ∀ n ∈ m.unboundNames, n ∈ before.module.unboundNames := by
            simpa using hnames
          exact hnil

/-- What the gate accepts has passed the checks by the text alone. -/
theorem inspect_of_check {before s : Snapshot} {text : String} {tier : Tier} {memo : Memo}
    (h : (g.check before text tier memo).1 = .ok s) : g.inspect before text = .ok s := by
  unfold check at h
  split at h
  · cases h
  · rename_i s' hs
    split at h
    · cases h
    · rw [hs]
      exact h

theorem Accepts.improves {before after : Snapshot} (h : g.Accepts before after) :
    g.Improves before after := by
  obtain ⟨tier, memo, hcheck⟩ := h
  exact (inspect_eq_ok (inspect_of_check hcheck)).2

end Gate

/-! ## Descent from the first text -/

/-- `s` descends from `first` by accepted steps, made under the names in the list. -/
inductive Lineage (g : Gate) (first : Snapshot) : List String → Snapshot → Prop
  | origin : Lineage g first [] first
  | kept {names : List String} {s s' : Snapshot} (name : String) :
      Lineage g first names s → g.Accepts s s' → Lineage g first (names ++ [name]) s'

namespace Lineage

variable {g : Gate} {first s : Snapshot} {names : List String}

theorem distance_le (h : Lineage g first names s) : s.distance ≤ first.distance := by
  induction h with
  | origin => exact Rat.le_refl
  | kept _ _ hacc ih => exact Rat.le_trans hacc.improves.closer ih

theorem unboundNames_subset (h : Lineage g first names s) :
    s.module.unboundNames ⊆ first.module.unboundNames := by
  induction h with
  | origin => exact fun _ hn => hn
  | kept _ _ hacc ih => exact fun _ hn => ih (hacc.improves.bound hn)

theorem parses (h : Lineage g first names s)
    (hfirst : Module.parse? first.source = some first.module) :
    Module.parse? s.source = some s.module := by
  cases h with
  | origin => exact hfirst
  | kept _ _ hacc => exact hacc.improves.parses

/-- Everything that a run comes to is measured by its gate. -/
theorem measured (h : Lineage g first names s)
    (hfirst : first = g.measure first.source first.module) :
    s = g.measure s.source s.module := by
  cases h with
  | origin => exact hfirst
  | kept _ _ hacc => exact hacc.improves.measured

theorem eq_first (h : Lineage g first [] s) : s = first := by
  generalize hn : ([] : List String) = names at h
  cases h with
  | origin => rfl
  | kept => simp at hn

end Lineage

/-! ## Answers to proposals -/

/-- `r'` is `r` with a proposal noted as rejected, and nothing else that a later step looks at. -/
structure Run.Rejected (name : String) (o : Objection) (r r' : Run) : Prop where
  current : r'.current = r.current
  visited : r'.visited = r.visited
  applied : r'.applied = r.applied
  iteration : r'.iteration = r.iteration
  used : r'.used = r.used
  rejections : r'.rejections = r.rejections ++ [⟨name, r.iteration, o⟩]

/-- `r'` is `r` with an accepted text in the place of the current one. -/
structure Run.Kept (g : Gate) (name text : String) (r r' : Run) : Prop where
  source : r'.current.source = text
  accepted : g.Accepts r.current r'.current
  visited : r'.visited = Digest.ofText text :: r.visited
  applied : r'.applied = r.applied ++ [name]
  iteration : r'.iteration = r.iteration
  used : r'.used = r.used
  rejections : r'.rejections = r.rejections

namespace Course

/-- The answers of a run to what a strategy or the template generated. -/
inductive Answer (c : Course) (name : String) (tier : Tier) (r : Run) :
    Except StrategyError (Option String) → Run × Bool → Prop
  | nothing : Answer c name tier r (.ok none) (r, false)
  | kept {text : String} {r' : Run} :
      r.Kept c.gate name text r' → Answer c name tier r (.ok (some text)) (r', true)
  | repeated {text : String} {r' : Run} :
      c.visitedGuard = true → Digest.ofText text ∈ r.visited → r.Rejected name .revisited r' →
      Answer c name tier r (.ok (some text)) (r', false)
  | refused {text : String} {o : Objection} {r' : Run} :
      (c.gate.check r.current text tier r.memo).1 = .error o → r.Rejected name o r' →
      Answer c name tier r (.ok (some text)) (r', false)
  | failed {error : StrategyError} {r' : Run} :
      r.Rejected name (.strategyFailed error.message) r' →
      Answer c name tier r (.error error) (r', false)

variable (c : Course)

/-- A text that is considered is kept, or noted as rejected with the reason. -/
theorem consider_answers (r : Run) (name text : String) (tier : Tier) :
    c.Answer name tier r (.ok (some text)) (c.consider r name text tier) := by
  unfold consider
  simp only
  split
  · rename_i hseen
    rw [Bool.and_eq_true, List.contains_iff_mem] at hseen
    exact .repeated hseen.1 hseen.2 ⟨rfl, rfl, rfl, rfl, rfl, rfl⟩
  · split
    · rename_i s hcheck
      have hok : (c.gate.check r.current text tier r.memo).1 = .ok s := hcheck
      have hsource : s.source = text := (Gate.inspect_eq_ok (Gate.inspect_of_check hok)).1
      subst hsource
      exact .kept ⟨rfl, ⟨tier, r.memo, hok⟩, rfl, rfl, rfl, rfl, rfl⟩
    · rename_i o hcheck
      exact .refused hcheck ⟨rfl, rfl, rfl, rfl, rfl, rfl⟩

/-- Whatever is proposed is dropped, kept, or noted as rejected with the reason. -/
theorem propose_answers (r : Run) (name : String) (tier : Tier)
    (generated : Except StrategyError (Option String)) :
    c.Answer name tier r generated (c.propose r name tier generated) := by
  unfold propose
  split
  · exact .nothing
  · exact c.consider_answers r name _ tier
  · exact .failed ⟨rfl, rfl, rfl, rfl, rfl, rfl⟩

/-! ## Moves -/

/-- One move of a run. A proposal may hold any text or failure, under any name. -/
inductive Move : Run → Run → Prop
  | begins (r : Run) : Move r { r with iteration := r.iteration + 1 }
  | answers (r : Run) (name : String) (tier : Tier)
      (generated : Except StrategyError (Option String)) :
      Move r (c.propose r name tier generated).1
  | consults (r : Run) (memo : Memo) : Move r { r with memo }
  | counts (r : Run) : Move r { r with used := r.used + 1 }

/-- A run can get from one state to another. -/
abbrev Reaches : Run → Run → Prop := Relation.ReflTransGen c.Move

variable {c}

/-- A move keeps an accepted text, or it leaves the current text, the visited texts and the applied
strategies alone. -/
theorem Move.cases {r r' : Run} (h : c.Move r r') :
    (∃ name text, r.Kept c.gate name text r') ∨
      (r'.current = r.current ∧ r'.visited = r.visited ∧ r'.applied = r.applied) := by
  cases h with
  | begins => exact .inr ⟨rfl, rfl, rfl⟩
  | consults => exact .inr ⟨rfl, rfl, rfl⟩
  | counts => exact .inr ⟨rfl, rfl, rfl⟩
  | answers name tier generated =>
    generalize hp : c.propose r name tier generated = p
    have ha := c.propose_answers r name tier generated
    rw [hp] at ha
    cases ha with
    | nothing => exact .inr ⟨rfl, rfl, rfl⟩
    | kept hk => exact .inl ⟨name, _, hk⟩
    | repeated _ _ hr => exact .inr ⟨hr.current, hr.visited, hr.applied⟩
    | refused _ hr => exact .inr ⟨hr.current, hr.visited, hr.applied⟩
    | failed hr => exact .inr ⟨hr.current, hr.visited, hr.applied⟩

theorem Move.lineage {first : Snapshot} {r r' : Run} (h : c.Move r r')
    (hr : Lineage c.gate first r.applied r.current) :
    Lineage c.gate first r'.applied r'.current := by
  obtain ⟨name, text, hk⟩ | ⟨hcur, -, happ⟩ := h.cases
  · rw [hk.applied]
    exact .kept name hr hk.accepted
  · rw [hcur, happ]
    exact hr

/-- At every point of a run the current text descends from the first one. -/
theorem Reaches.lineage {first : Snapshot} {r : Run} (h : c.Reaches (.start first) r) :
    Lineage c.gate first r.applied r.current := by
  induction h with
  | refl => exact .origin
  | tail _ hmove ih => exact hmove.lineage ih

/-! ## Runs are made of moves -/

theorem propose_reaches (r : Run) (name : String) (tier : Tier)
    (generated : Except StrategyError (Option String)) :
    c.Reaches r (c.propose r name tier generated).1 :=
  .single (.answers r name tier generated)

theorem tryStrategies_reaches (d : Difference) (ss : Strategies) (r : Run) :
    c.Reaches r (c.tryStrategies d ss r).1 := by
  fun_induction tryStrategies c d ss r with
  | case1 => exact .refl
  | case2 s rest r r' h =>
    have hmove := propose_reaches (c := c) r s.name .strategy (s.generate d r.current.source)
    rw [h] at hmove
    exact hmove
  | case3 s rest r r' h ih =>
    have hmove := propose_reaches (c := c) r s.name .strategy (s.generate d r.current.source)
    rw [h] at hmove
    exact hmove.trans ih

theorem iterate_reaches (tried : List Target) (r : Run) (kept : Bool) :
    c.Reaches r (c.iterate tried r kept).1 := by
  fun_induction iterate c tried r kept with
  | case1 => exact .refl
  | case2 => exact .refl
  | case3 tried r kept ds _ d _ _ r' now htry ih =>
    have hmoves := tryStrategies_reaches (c := c) d (c.strategies.applicable d) r
    rw [htry] at hmoves
    exact hmoves.trans ih

theorem validated_reaches (r : Run) : c.Reaches r (c.validated r).1 := by
  unfold validated
  split
  · exact .refl
  · simp only
    split
    · exact .single (.consults r _)
    · exact .single (.consults r _)

theorem tryTemplate_reaches (r : Run) : c.Reaches r (c.tryTemplate r).1 := by
  unfold tryTemplate
  split
  · exact .refl
  · have hmoves := validated_reaches (c := c) r
    split
    · rename_i r' hv
      rw [hv] at hmoves
      exact hmoves
    · rename_i r' hv
      rw [hv] at hmoves
      exact hmoves.trans (propose_reaches r' _ _ _)

/-! ## One turn of the outer loop -/

variable (c) in
/-- An iteration with the template after it, where nothing was kept: whether something was kept in
the end. -/
def turn (r : Run) : Run × Except ExplainError Bool :=
  match c.iterate [] { r with iteration := r.iteration + 1 } false with
  | (r, .error e) => (r, .error e)
  | (r, .ok kept) =>
    if !kept && 0 < r.current.distance then ((c.tryTemplate r).1, .ok (c.tryTemplate r).2)
    else (r, .ok kept)

theorem drive_of_le (left : Nat) {r : Run} (h : r.current.distance ≤ 0) :
    c.drive left r = (r, .converged) := by
  unfold drive
  rw [if_pos h]

theorem drive_zero {r : Run} (h : ¬ r.current.distance ≤ 0) : c.drive 0 r = (r, .exhausted) := by
  unfold drive
  rw [if_neg h]

theorem drive_succ (left : Nat) {r : Run} (h : ¬ r.current.distance ≤ 0) :
    c.drive (left + 1) r =
      match c.turn r with
      | (r, .error _) => (r, .aborted)
      | (r, .ok true) => c.drive left { r with used := r.used + 1 }
      | (r, .ok false) => (r, .exhausted) := by
  rw [drive, if_neg h]
  unfold turn
  generalize c.iterate [] { r with iteration := r.iteration + 1 } false = p
  obtain ⟨r', _ | kept⟩ := p
  · rfl
  · cases kept with
    | true => rfl
    | false =>
      simp only [Bool.not_false, Bool.true_and, decide_eq_true_eq]
      split
      · generalize c.tryTemplate r' = t
        obtain ⟨r'', _ | _⟩ := t <;> rfl
      · rfl

theorem turn_reaches (r : Run) : c.Reaches r (c.turn r).1 := by
  have hbegin : c.Reaches r { r with iteration := r.iteration + 1 } := .single (.begins r)
  have hiter := hbegin.trans
    (iterate_reaches (c := c) [] { r with iteration := r.iteration + 1 } false)
  unfold turn
  split
  · rename_i h
    rw [h] at hiter
    exact hiter
  · rename_i r' kept h
    rw [h] at hiter
    split
    · exact hiter.trans (tryTemplate_reaches r')
    · exact hiter

theorem drive_reaches (left : Nat) (r : Run) : c.Reaches r (c.drive left r).1 := by
  induction left generalizing r with
  | zero =>
    unfold drive
    split <;> exact .refl
  | succ left ih =>
    by_cases h : r.current.distance ≤ 0
    · rw [drive_of_le _ h]
    · rw [drive_succ left h]
      have hturn := turn_reaches (c := c) r
      split
      · rename_i hp
        rw [hp] at hturn
        exact hturn
      · rename_i r' hp
        rw [hp] at hturn
        exact (hturn.tail (.counts r')).trans (ih _)
      · rename_i hp
        rw [hp] at hturn
        exact hturn

end Course

end Concord

/-!
## Properties that the steps of a run preserve

What holds at every point of a run is shown here once for all properties: it is enough that the single
steps preserve it. Inside an iteration a run only answers proposals and consults the oracle
(`Course.Respects`); between iterations it also counts (`Course.Preserves`).
-/

namespace Concord

namespace Course

/-- The steps inside an iteration preserve a property of the run. A proposal may hold any text or
failure under any name, and the oracle is consulted about the current text and the canon. -/
structure Respects (c : Course) (P : Run → Prop) : Prop where
  answers : ∀ {r} name tier generated, P r → P (c.propose r name tier generated).1
  consults : ∀ {r} s, s = r.current ∨ s = c.canon → P r →
    P { r with memo := (c.gate.passes s r.memo).2 }

/-- All steps of a run preserve a property of it. -/
structure Preserves (c : Course) (P : Run → Prop) : Prop extends c.Respects P where
  begins : ∀ {r}, P r → P { r with iteration := r.iteration + 1 }
  counts : ∀ {r}, P r → P { r with used := r.used + 1 }

namespace Respects

variable {c : Course} {P : Run → Prop} (h : c.Respects P)
include h

theorem tryStrategies (d : Difference) (ss : Strategies) {r : Run} (hr : P r) :
    P (c.tryStrategies d ss r).1 := by
  fun_induction Course.tryStrategies c d ss r with
  | case1 => exact hr
  | case2 s rest r r' heq =>
    have hone := h.answers s.name .strategy (s.generate d r.current.source) hr
    rw [heq] at hone
    exact hone
  | case3 s rest r r' heq ih =>
    have hone := h.answers s.name .strategy (s.generate d r.current.source) hr
    rw [heq] at hone
    exact ih hone

theorem iterate (tried : List Target) {r : Run} (hr : P r) (kept : Bool) :
    P (c.iterate tried r kept).1 := by
  fun_induction Course.iterate c tried r kept with
  | case1 => exact hr
  | case2 => exact hr
  | case3 tried r kept ds _ d _ _ r' now htry ih =>
    have hround := h.tryStrategies d (c.strategies.applicable d) hr
    rw [htry] at hround
    exact ih hround

theorem validated {r : Run} (hr : P r) : P (c.validated r).1 := by
  unfold Course.validated
  split
  · exact hr
  · have hours := h.consults r.current (.inl rfl) hr
    simp only
    split
    · exact h.consults c.canon (.inr rfl) hours
    · exact hours

theorem tryTemplate {r : Run} (hr : P r) : P (c.tryTemplate r).1 := by
  unfold Course.tryTemplate
  split
  · exact hr
  · have hv := h.validated hr
    split
    · rename_i heq
      rw [heq] at hv
      exact hv
    · rename_i heq
      rw [heq] at hv
      exact h.answers _ _ _ hv

/-- One turn of the outer loop, once its iteration has begun. -/
theorem turn {r : Run} (hr : P { r with iteration := r.iteration + 1 }) : P (c.turn r).1 := by
  have hiter := h.iterate [] hr false
  unfold Course.turn
  split
  · rename_i heq
    rw [heq] at hiter
    exact hiter
  · rename_i heq
    rw [heq] at hiter
    split
    · exact h.tryTemplate hiter
    · exact hiter

end Respects

/-- What every step preserves holds when the run is over. -/
theorem Preserves.drive {c : Course} {P : Run → Prop} (h : c.Preserves P) (left : Nat) {r : Run}
    (hr : P r) : P (c.drive left r).1 := by
  induction left generalizing r with
  | zero =>
    unfold Course.drive
    split <;> exact hr
  | succ left ih =>
    by_cases hd : r.current.distance ≤ 0
    · rw [drive_of_le _ hd]
      exact hr
    · have hturn := h.turn (h.begins hr)
      rw [drive_succ left hd]
      split
      · rename_i heq
        rw [heq] at hturn
        exact hturn
      · rename_i heq
        rw [heq] at hturn
        exact ih (h.counts hturn)
      · rename_i heq
        rw [heq] at hturn
        exact hturn

end Course

end Concord
