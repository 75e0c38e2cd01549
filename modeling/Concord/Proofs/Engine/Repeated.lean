import Concord.Proofs.Difference.Acted
import Concord.Proofs.Engine.Outcome

/-!
# Transforming a result again

A second run starts from the text that the first one returned, but without its memory: no target is
tried and no other text visited. Without an oracle nothing else differs, so the second run goes
through the proposals of the last iteration of the first one again, and each of them is answered as
before, unless it was turned down only because its text had been visited. A run that ends with such
a proposal, for a text that it has left and that the gate would let in again, *oscillates*; every
other run that stops by itself gives a text that a second run leaves alone.

Main statements:

* `Course.iterate_still_iff`: an iteration keeps nothing exactly if everything offered is declined.
* `Course.drive_stops`: a run that is exhausted with iterations left declines everything offered.
* `Course.drive_of_leads`: of two texts that lead to each other, a run ends at the one that it did
  not start from.
* `Engine.transform_idempotent_iff`: a second transformation changes nothing exactly if the first
  one does not oscillate.
-/

namespace Concord

namespace Course

/-! ## Offers -/

/-- The text is offered in the place of another: it is what a strategy generates for the first
difference with some target. -/
def Offers (c : Course) (s : Snapshot) (text : String) : Prop :=
  ∃ ds d strategy, c.explain s = .ok ds ∧ ds.find? (fun d' => target d' == target d) = some d ∧
    strategy ∈ c.strategies.applicable d ∧ strategy.generate d s.source = .ok (some text)

/-- The text is not taken: it was visited, or the gate objects to it. -/
def Declines (c : Course) (s : Snapshot) (visited : List Digest) (text : String) : Prop :=
  (c.visitedGuard = true ∧ Digest.ofText text ∈ visited) ∨
    ∃ o, (c.gate.check s text .strategy {}).1 = .error o

/-- The differences can be explained, and everything that is offered is declined. -/
def Settled (c : Course) (s : Snapshot) (visited : List Digest) : Prop :=
  (∃ ds, c.explain s = .ok ds) ∧ ∀ text, c.Offers s text → c.Declines s visited text

/-- A text that the run has left is offered, and the gate would let it in again. -/
def Oscillates (c : Course) (r : Run) : Prop :=
  ∃ text, c.Offers r.current text ∧ c.visitedGuard = true ∧ Digest.ofText text ∈ r.visited ∧
    Digest.ofText text ≠ Digest.ofText r.current.source ∧
    ∃ s, (c.gate.check r.current text .strategy {}).1 = .ok s

/-- A text that is settled with all visited texts is settled with itself alone, unless the run
oscillates. -/
theorem Settled.alone_iff {c : Course} {r : Run} (h : c.Settled r.current r.visited) :
    c.Settled r.current [Digest.ofText r.current.source] ↔ ¬ c.Oscillates r := by
  constructor
  · rintro ⟨-, hdeclines⟩ ⟨text, hoffer, -, -, hleft, s, hcheck⟩
    rcases hdeclines text hoffer with ⟨-, hsame⟩ | ⟨o, hobject⟩
    · exact hleft (List.mem_singleton.mp hsame)
    · rw [hcheck] at hobject
      cases hobject
  · intro hcalm
    refine ⟨h.1, ?_⟩
    intro text hoffer
    rcases h.2 text hoffer with ⟨hguard, hseen⟩ | hobject
    · by_cases hsame : Digest.ofText text = Digest.ofText r.current.source
      · exact .inl ⟨hguard, List.mem_singleton.mpr hsame⟩
      · cases hcheck : (c.gate.check r.current text .strategy {}).1 with
        | error o => exact .inr ⟨o, hcheck⟩
        | ok s => exact absurd ⟨text, hoffer, hguard, hseen, hsame, s, hcheck⟩ hcalm
    · exact .inr hobject

/-! ## Iterations without an oracle -/

/-- Without a judge a check asks nothing and recalls nothing. -/
theorem check_of_judge_none {g : Gate} (hjudge : g.judge = none) (before : Snapshot) (text : String)
    (tier : Tier) (m : Memo) :
    (g.check before text tier m).1 = (g.check before text tier {}).1 := by
  unfold Gate.check Gate.behaviourObjection?
  rw [hjudge]
  cases g.inspect before text with
  | error o => rfl
  | ok s =>
    cases tier with
    | template => rfl
    | strategy =>
      simp only
      cases g.probeObjection? before s <;> rfl

/-- A part of a run that applied no strategy left the text and the visited texts alone. -/
theorem Reaches.still {c : Course} {r r' : Run} (h : c.Reaches r r')
    (happlied : r'.applied = r.applied) : r'.current = r.current ∧ r'.visited = r.visited := by
  obtain ⟨texts, htrail⟩ := h.trail
  have hnone : texts = [] := by
    have hlength := htrail.applied
    rw [happlied] at hlength
    exact List.length_eq_zero_iff.mp (by omega)
  subst hnone
  exact ⟨htrail.eq_of_nil, htrail.visited⟩

variable {c : Course}

section Unjudged

variable (hjudge : c.gate.judge = none)
include hjudge

theorem consider_still_iff (r : Run) (name text : String) :
    (c.consider r name text .strategy).2 = false ↔ c.Declines r.current r.visited text := by
  have hcheck := check_of_judge_none hjudge r.current text .strategy r.memo
  unfold consider Declines
  rw [← hcheck]
  simp only
  split
  · rename_i hseen
    rw [Bool.and_eq_true, List.contains_iff_mem] at hseen
    exact iff_of_true rfl (.inl hseen)
  · rename_i hnew
    rw [Bool.and_eq_true, List.contains_iff_mem] at hnew
    split
    · rename_i s hok
      refine iff_of_false (by simp) ?_
      rintro (hseen | ⟨o, hobject⟩)
      · exact hnew hseen
      · rw [hok] at hobject
        cases hobject
    · rename_i o hobject
      exact iff_of_true rfl (.inr ⟨o, hobject⟩)

theorem propose_still_iff (r : Run) (name : String)
    (generated : Except StrategyError (Option String)) :
    (c.propose r name .strategy generated).2 = false ↔
      ∀ text, generated = .ok (some text) → c.Declines r.current r.visited text := by
  unfold propose
  split
  · exact iff_of_true rfl (fun text htext => by cases htext)
  · rename_i text
    rw [consider_still_iff hjudge]
    constructor
    · rintro hdeclines text' htext
      cases htext
      exact hdeclines
    · intro h
      exact h text rfl
  · exact iff_of_true rfl (fun text htext => by cases htext)

/-- Strategies keep nothing exactly if everything they generate is declined. -/
theorem tryStrategies_still_iff (d : Difference) (ss : Strategies) (r : Run) :
    (c.tryStrategies d ss r).2 = false ↔
      ∀ s ∈ ss, ∀ text, s.generate d r.current.source = .ok (some text) →
        c.Declines r.current r.visited text := by
  induction ss generalizing r with
  | nil => exact iff_of_true rfl (by simp)
  | cons s rest ih =>
    have hone := propose_still_iff hjudge r s.name (s.generate d r.current.source)
    have hreach := propose_reaches (c := c) r s.name .strategy (s.generate d r.current.source)
    have hadvances := propose_advances (c := c) r s.name .strategy (s.generate d r.current.source)
    rw [List.forall_mem_cons, ← hone]
    unfold tryStrategies
    generalize c.propose r s.name .strategy (s.generate d r.current.source) = p at *
    obtain ⟨r', kept⟩ := p
    cases kept with
    | true => simp
    | false =>
      -- Nothing was kept, so the next strategy meets the same text and the same visited texts.
      obtain ⟨hcurrent, hvisited⟩ := hreach.still (hadvances.still rfl).2
      simp only [true_and]
      rw [ih r', hcurrent, hvisited]

omit hjudge in
/-- The first difference with an untried target is the first one with its target. -/
theorem find?_target {tried : List Target} {ds : List Difference} {d : Difference}
    (h : ds.find? (fun d => !tried.contains (target d)) = some d) :
    ds.find? (fun d' => target d' == target d) = some d := by
  rw [List.find?_eq_some_iff_append] at h ⊢
  obtain ⟨huntried, before, after, rfl, hbefore⟩ := h
  refine ⟨BEq.rfl, before, after, rfl, ?_⟩
  intro d' hd'
  have htried := hbefore d' hd'
  by_contra hsame
  rw [show target d' = target d by simpa using hsame, huntried] at htried
  cases htried

/-- Every untried target is tried, and for the first difference with it everything is declined. -/
theorem iterate_still_iff (tried : List Target) (r : Run) :
    (∃ r', c.iterate tried r false = (r', .ok false)) ↔
      ∃ ds, c.explain r.current = .ok ds ∧
        ∀ d, ds.find? (fun d' => target d' == target d) = some d → target d ∉ tried →
          ∀ s ∈ c.strategies.applicable d, ∀ text,
            s.generate d r.current.source = .ok (some text) →
            c.Declines r.current r.visited text := by
  generalize hkept : false = kept
  fun_induction Course.iterate c tried r kept with
  | case1 tried r kept e hexplain =>
    refine iff_of_false ?_ ?_
    · rintro ⟨r', heq⟩
      cases heq
    · rintro ⟨ds, hds, -⟩
      rw [hexplain] at hds
      cases hds
  | case2 tried r kept ds hexplain hnone =>
    subst hkept
    refine iff_of_true ⟨r, rfl⟩ ⟨ds, hexplain, ?_⟩
    intro d hfirst huntried
    have hall := List.find?_eq_none.mp hnone d (List.mem_of_find?_eq_some hfirst)
    exact absurd huntried (by simpa using hall)
  | case3 tried r kept ds hexplain d hfind _ r' now htry ih =>
    subst hkept
    have huntried : target d ∉ tried := by
      have hsome := List.find?_some hfind
      simpa using hsome
    have hfirst := find?_target hfind
    have hround := tryStrategies_still_iff hjudge d (c.strategies.applicable d) r
    rw [htry] at hround
    cases now with
    | true =>
      refine iff_of_false ?_ ?_
      · rintro ⟨r'', heq⟩
        obtain ⟨later, hlater, -⟩ := iterate_advances heq
        cases hlater
      · rintro ⟨ds', hds', hall⟩
        obtain rfl := Except.ok.inj (hexplain.symm.trans hds')
        exact absurd (hround.mpr (hall d hfirst huntried)) (by simp)
    | false =>
      have hreach := tryStrategies_reaches (c := c) d (c.strategies.applicable d) r
      have hadvances := tryStrategies_advances (c := c) d (c.strategies.applicable d) r
      rw [htry] at hreach hadvances
      obtain ⟨hcurrent, hvisited⟩ := hreach.still (hadvances.still rfl).2
      rw [Bool.false_or] at ih ⊢
      rw [ih rfl, hcurrent, hvisited]
      apply exists_congr
      intro ds'
      apply and_congr_right
      intro hds'
      obtain rfl := Except.ok.inj (hexplain.symm.trans hds')
      constructor
      · intro hall d' hfirst' huntried'
        by_cases hsame : target d' = target d
        · rw [hsame] at hfirst'
          obtain rfl := Option.some.inj (hfirst.symm.trans hfirst')
          exact hround.mp rfl
        · exact hall d' hfirst' (by simp [hsame, huntried'])
      · intro hall d' hfirst' huntried'
        exact hall d' hfirst' (fun hmem => huntried' (List.mem_cons_of_mem _ hmem))

/-- An iteration keeps nothing exactly if everything that is offered is declined. -/
theorem iterate_settled_iff (r : Run) :
    (∃ r', c.iterate [] r false = (r', .ok false)) ↔ c.Settled r.current r.visited := by
  rw [iterate_still_iff hjudge]
  constructor
  · rintro ⟨ds, hds, hall⟩
    refine ⟨⟨ds, hds⟩, ?_⟩
    rintro text ⟨ds', d, s, hds', hfirst, hs, htext⟩
    obtain rfl := Except.ok.inj (hds.symm.trans hds')
    exact hall d hfirst (List.not_mem_nil) s hs text htext
  · rintro ⟨⟨ds, hds⟩, hall⟩
    refine ⟨ds, hds, ?_⟩
    intro d hfirst _ s hs text htext
    exact hall text ⟨ds, d, s, hds, hfirst, hs, htext⟩

/-- A settled run goes on to the end of its iteration without keeping anything. -/
theorem iterate_of_settled (tried : List Target) {r : Run}
    (kept : Bool) (h : c.Settled r.current r.visited) :
    ∃ r', c.iterate tried r kept = (r', .ok kept) ∧ r'.current = r.current ∧
      r'.visited = r.visited ∧ r'.used = r.used := by
  obtain ⟨⟨ds, hds⟩, hdeclines⟩ := h
  fun_induction Course.iterate c tried r kept with
  | case1 tried r kept e herror =>
    rw [hds] at herror
    cases herror
  | case2 tried r kept => exact ⟨r, rfl, rfl, rfl, rfl⟩
  | case3 tried r kept ds' hexplain d hfind _ r' now htry ih =>
    obtain rfl := Except.ok.inj (hds.symm.trans hexplain)
    have hstill : (c.tryStrategies d (c.strategies.applicable d) r).2 = false := by
      rw [tryStrategies_still_iff hjudge]
      intro s hs text htext
      exact hdeclines text ⟨ds, d, s, hds, find?_target hfind, hs, htext⟩
    have hreach := tryStrategies_reaches (c := c) d (c.strategies.applicable d) r
    have hadvances := tryStrategies_advances (c := c) d (c.strategies.applicable d) r
    rw [htry] at hstill hreach hadvances
    obtain rfl : now = false := hstill
    obtain ⟨hcurrent, hvisited⟩ := hreach.still (hadvances.still rfl).2
    rw [Bool.or_false] at ih ⊢
    rw [hcurrent, hvisited] at ih
    obtain ⟨r'', hrest, hlast⟩ := ih hdeclines hds
    rw [hrest]
    exact ⟨r'', rfl, hlast.1, hlast.2.1, hlast.2.2.trans hadvances.used⟩

/-! ## Runs without an oracle -/

/-- Nobody vouches for the text, so the canon itself is not proposed. -/
theorem tryTemplate_still (hattested : c.attested = false) (r : Run) :
    (c.tryTemplate r).2 = false := by
  have hvalidated : c.validated r = (r, false) := by
    unfold validated Gate.passes Gate.verdict
    rw [hattested, hjudge]
    rfl
  unfold tryTemplate
  split
  · rfl
  · rw [hvalidated]

theorem turn_settled_iff (hattested : c.attested = false) (r : Run) :
    (∃ r', c.turn r = (r', .ok false)) ↔ c.Settled r.current r.visited := by
  have hiter :
      (∃ r', c.iterate [] { r with iteration := r.iteration + 1 } false = (r', .ok false)) ↔
        c.Settled r.current r.visited := iterate_settled_iff hjudge _
  rw [← hiter]
  unfold turn
  generalize c.iterate [] { r with iteration := r.iteration + 1 } false = p
  obtain ⟨r', _ | kept⟩ := p
  · simp
  · cases kept with
    | true => simp
    | false =>
      refine iff_of_true ?_ ⟨r', rfl⟩
      simp only
      split
      · exact ⟨(c.tryTemplate r').1, by rw [tryTemplate_still hjudge hattested r']⟩
      · exact ⟨r', rfl⟩

/-- A run that is exhausted has used all iterations it may have, or it is settled. -/
theorem drive_stops (hattested : c.attested = false) {left : Nat} {r r' : Run}
    (h : c.drive left r = (r', .exhausted)) :
    r'.used = r.used + left ∨ c.Settled r'.current r'.visited := by
  induction left generalizing r with
  | zero =>
    by_cases hd : r.current.distance ≤ 0
    · rw [drive_of_le 0 hd] at h
      cases h
    · rw [drive_zero hd] at h
      cases h
      exact .inl rfl
  | succ left ih =>
    by_cases hd : r.current.distance ≤ 0
    · rw [drive_of_le _ hd] at h
      cases h
    · rw [drive_succ left hd] at h
      split at h
      · cases h
      · rename_i r₁ hturn
        have hused : r₁.used = r.used := (turn_advances hturn).used
        rcases ih h with hall | hsettled
        · left
          rw [hall]
          show r₁.used + 1 + left = r.used + (left + 1)
          omega
        · exact .inr hsettled
      · rename_i r₁ hturn
        cases h
        right
        have hreach := turn_reaches (c := c) r
        rw [hturn] at hreach
        obtain ⟨hcurrent, hvisited⟩ := hreach.still ((turn_advances hturn).still rfl).2
        rw [hcurrent, hvisited]
        exact (turn_settled_iff hjudge hattested r).mp ⟨_, hturn⟩

theorem drive_of_settled (hattested : c.attested = false) (left : Nat) {r : Run}
    (hd : ¬ r.current.distance ≤ 0) (h : c.Settled r.current r.visited) :
    ∃ r', c.drive (left + 1) r = (r', .exhausted) ∧ r'.current = r.current ∧
      r'.used = r.used := by
  obtain ⟨r', hturn⟩ := (turn_settled_iff hjudge hattested r).mpr h
  have hadvances := turn_advances hturn
  refine ⟨r', ?_, (hadvances.still rfl).1, hadvances.used⟩
  rw [drive_succ left hd, hturn]

/-- A run that is not settled applies some strategy, or it is aborted. -/
theorem drive_of_unsettled (hattested : c.attested = false) (left : Nat) {r : Run}
    (hd : ¬ r.current.distance ≤ 0) (h : ¬ c.Settled r.current r.visited)
    (hend : (c.drive (left + 1) r).2 ≠ .aborted) :
    r.applied.length < (c.drive (left + 1) r).1.applied.length := by
  rw [drive_succ left hd] at hend ⊢
  split
  · rename_i hturn
    rw [hturn] at hend
    exact absurd rfl hend
  · rename_i r₁ hturn
    have hmore : r.applied.length < r₁.applied.length := (turn_advances hturn).moved rfl
    have hreach := drive_reaches (c := c) left { r₁ with used := r₁.used + 1 }
    obtain ⟨texts, htrail⟩ := hreach.trail
    have hlength := htrail.applied
    simp only at hlength
    omega
  · rename_i r₁ hturn
    exact absurd ((turn_settled_iff hjudge hattested r).mp ⟨r₁, hturn⟩) h

end Unjudged

/-- Under the guard a run that applied some strategy has left its first text. -/
theorem Reaches.source_ne (hguard : c.visitedGuard = true) {first : Snapshot}
    (hfirst : first.hash = Digest.ofText first.source) {r : Run} (h : c.Reaches (.start first) r)
    (happlied : 0 < r.applied.length) : r.current.source ≠ first.source := by
  obtain ⟨texts, htrail⟩ := h.trail
  have hnodup := htrail.nodup hguard hfirst
  cases texts with
  | nil =>
    rw [htrail.applied] at happlied
    exact absurd happlied (by simp [Run.start])
  | cons text texts =>
    obtain rfl : text = r.current.source := Option.some.inj htrail.latest
    intro hsame
    rw [List.cons_append, List.nodup_cons] at hnodup
    apply hnodup.1
    rw [hsame]
    exact List.mem_append_right _ (List.mem_singleton_self _)

/-- The first round of an iteration that has a difference to act on. -/
theorem iterate_of_explain {r : Run} {kept : Bool} {ds : List Difference} {d : Difference}
    (h : c.explain r.current = .ok (d :: ds)) :
    c.iterate [] r kept =
      c.iterate [target d] (c.tryStrategies d (c.strategies.applicable d) r).1
        (kept || (c.tryStrategies d (c.strategies.applicable d) r).2) := by
  rw [iterate, h]
  simp only
  split
  · rename_i hnone
    simp at hnone
  · rename_i d' hsome
    obtain rfl : d = d' := by simpa using hsome
    rfl

/-! ## Two texts that lead to each other -/

/-- For the one difference that `s` has to the canon, one strategy generates the text of `s'`, and
the gate lets it in. -/
structure Leads (c : Course) (s s' : Snapshot) : Prop where
  offers : ∃ d strategy, c.explain s = .ok [d] ∧ c.strategies.applicable d = [strategy] ∧
    strategy.generate d s.source = .ok (some s'.source)
  passes : ∀ m, c.gate.check s s'.source .strategy m = (.ok s', m)
  hashed : s'.hash = Digest.ofText s'.source
  apart : ¬ s'.distance ≤ 0

theorem Leads.settled {s s' : Snapshot} (h : c.Leads s s') (hguard : c.visitedGuard = true)
    {visited : List Digest} (hseen : s'.hash ∈ visited) : c.Settled s visited := by
  obtain ⟨d, strategy, hexplain, happlicable, hgenerate⟩ := h.offers
  refine ⟨⟨[d], hexplain⟩, ?_⟩
  rintro text ⟨ds, d', strategy', hds, hfind, hmem, htext⟩
  obtain rfl := Except.ok.inj (hexplain.symm.trans hds)
  obtain rfl : d' = d := List.mem_singleton.mp (List.mem_of_find?_eq_some hfind)
  rw [happlicable] at hmem
  obtain rfl := List.mem_singleton.mp hmem
  rw [hgenerate] at htext
  cases htext
  exact .inl ⟨hguard, h.hashed ▸ hseen⟩

theorem Leads.tryStrategies {s s' : Snapshot} (h : c.Leads s s') {r : Run} (hr : r.current = s)
    (hnew : s'.hash ∉ r.visited) :
    ∃ d name, c.explain s = .ok [d] ∧
      c.tryStrategies d (c.strategies.applicable d) r = (r.keep name s' s'.hash, true) := by
  obtain ⟨d, strategy, hexplain, happlicable, hgenerate⟩ := h.offers
  refine ⟨d, strategy.name, hexplain, ?_⟩
  have hunseen : (c.visitedGuard && r.visited.contains s'.hash) = false := by
    rw [Bool.and_eq_false_iff]
    exact .inr (by simpa using hnew)
  have hkeeps : c.propose r strategy.name .strategy (strategy.generate d r.current.source) =
      (r.keep strategy.name s' s'.hash, true) := by
    rw [hr, hgenerate]
    unfold propose consider
    simp only [← h.hashed, hunseen, hr]
    rw [h.passes]
    rfl
  rw [happlicable, Course.tryStrategies, hkeeps]

/-- The first turn of a run from one of two texts that lead to each other. -/
theorem turn_of_leads (hjudge : c.gate.judge = none) (hguard : c.visitedGuard = true)
    {s s' : Snapshot} (h : c.Leads s s') (h' : c.Leads s' s) (hne : s'.hash ≠ s.hash) :
    ∃ r, c.turn (.start s) = (r, .ok true) ∧ r.current = s' ∧ r.visited = [s'.hash, s.hash] ∧
      r.used = 0 := by
  let begun : Run := { Run.start s with iteration := 1 }
  have hnew : s'.hash ∉ begun.visited := by simpa [begun, Run.start] using hne
  obtain ⟨d, name, hexplain, htry⟩ := h.tryStrategies (r := begun) rfl hnew
  have hround : c.iterate [] begun false =
      c.iterate [target d] (begun.keep name s' s'.hash) true := by
    rw [iterate_of_explain hexplain, htry]
    rfl
  have hsettled : c.Settled s' [s'.hash, s.hash] :=
    h'.settled hguard (List.mem_cons_of_mem _ List.mem_cons_self)
  obtain ⟨r, hrest, hcurrent, hvisited, hused⟩ :=
    iterate_of_settled hjudge [target d] true (r := begun.keep name s' s'.hash) hsettled
  refine ⟨r, ?_, hcurrent, hvisited, hused⟩
  unfold turn
  rw [show c.iterate [] { Run.start s with iteration := (Run.start s).iteration + 1 } false = _
    from hround.trans hrest]
  rfl

/-- A run from one of two texts that lead to each other ends at the other one. -/
theorem drive_of_leads (hjudge : c.gate.judge = none) (hattested : c.attested = false)
    (hguard : c.visitedGuard = true) {s s' : Snapshot} (h : c.Leads s s') (h' : c.Leads s' s)
    (hne : s'.hash ≠ s.hash) (left : Nat) :
    ∃ r, c.drive (left + 2) (.start s) = (r, .exhausted) ∧ r.current = s' ∧ r.used = 1 := by
  obtain ⟨r, hturn, rfl, hvisited, hused⟩ := turn_of_leads hjudge hguard h h' hne
  have hsettled : c.Settled r.current r.visited := by
    rw [hvisited]
    exact h'.settled hguard (List.mem_cons_of_mem _ List.mem_cons_self)
  obtain ⟨r', hdrive, hcurrent, hcount⟩ :=
    drive_of_settled hjudge hattested left (r := { r with used := r.used + 1 }) h.apart hsettled
  refine ⟨r', ?_, hcurrent, ?_⟩
  · rw [drive_succ (left + 1) h'.apart, hturn]
    exact hdrive
  · rw [hcount, hused]

/-! ## Explanations that do not fail -/

section Total

variable {r : Run} (hexplain : ∀ r', c.Reaches r r' → ∃ ds, c.explain r'.current = .ok ds)
include hexplain

theorem iterate_total (tried : List Target) (kept : Bool) :
    ∃ r' kept', c.iterate tried r kept = (r', .ok kept') := by
  fun_induction Course.iterate c tried r kept with
  | case1 tried r kept e herror =>
    obtain ⟨ds, hds⟩ := hexplain r .refl
    rw [herror] at hds
    cases hds
  | case2 tried r kept => exact ⟨r, kept, rfl⟩
  | case3 tried r kept ds _ d _ _ r' now htry ih =>
    have hreach := tryStrategies_reaches (c := c) d (c.strategies.applicable d) r
    rw [htry] at hreach
    exact ih fun r'' hr'' => hexplain r'' (hreach.trans hr'')

theorem turn_total : ∃ r' kept, c.turn r = (r', .ok kept) := by
  have hbegin : c.Reaches r { r with iteration := r.iteration + 1 } := .single (.begins r)
  obtain ⟨r', kept, hiter⟩ := iterate_total (r := { r with iteration := r.iteration + 1 })
    (fun r'' hr'' => hexplain r'' (hbegin.trans hr'')) [] false
  unfold turn
  rw [hiter]
  simp only
  split
  · exact ⟨_, _, rfl⟩
  · exact ⟨_, _, rfl⟩

theorem drive_total (left : Nat) : (c.drive left r).2 ≠ .aborted := by
  induction left generalizing r with
  | zero =>
    by_cases hd : r.current.distance ≤ 0
    · simp [drive_of_le 0 hd]
    · simp [drive_zero hd]
  | succ left ih =>
    by_cases hd : r.current.distance ≤ 0
    · simp [drive_of_le _ hd]
    · obtain ⟨r', kept, hturn⟩ := turn_total hexplain
      have hreach := turn_reaches (c := c) r
      rw [drive_succ left hd, hturn]
      rw [hturn] at hreach
      cases kept with
      | false => simp
      | true =>
        apply ih
        intro r'' hr''
        exact hexplain r'' ((hreach.tail (.counts r')).trans hr'')

end Total

/-- Measured texts are explained by the standard explainers. -/
theorem explain_standard (hstandard : c.explainers = .standard) {s : Snapshot}
    (hs : s = c.gate.measure s.source s.module)
    (hcanon : c.canon = c.gate.measure c.canon.source c.canon.module) :
    ∃ ds, c.explain s = .ok ds := by
  have hours : s.profile = s.module.profile c.gate.mode := congrArg Snapshot.profile hs
  have theirs : c.canon.profile = c.canon.module.profile c.gate.mode :=
    congrArg Snapshot.profile hcanon
  unfold explain Explainers.explainAll
  rw [hstandard, hours, theirs]
  obtain ⟨found, hfound, -⟩ := Explainers.mapM_ok
    (fun x => Explainers.explainAt_acted
      (c := { candidate := s.module, canon := c.canon.module, candidateText := s.source
              canonText := c.canon.source, naming := c.naming, entryPoint := c.gate.entryPoint })
      c.gate.mode x)
    (Profile.distances c.gate.selection (s.module.profile c.gate.mode)
      (c.canon.module.profile c.gate.mode))
  rw [hfound]
  exact ⟨_, rfl⟩

end Course

/-! ## Transformations -/

namespace Engine

variable {e : Engine} {q : Request}

/-- The run for a request ends with a text that it has left, that a strategy offers again and that
the gate would let in. -/
def Oscillates (e : Engine) (q : Request) : Prop :=
  ∃ canon first, (e.gateFor q).snapshot? q.canon = some canon ∧
    (e.gateFor q).snapshot? q.candidate = some first ∧
    (e.outcomeFor q canon first).2 = .exhausted ∧
    (e.courseFor q canon).Oscillates (e.outcomeFor q canon first).1

/-- The request for the text that a transformation gave. -/
def again (e : Engine) (q : Request) : Request := { q with candidate := (e.transform q).text }

theorem again_of_text_eq (h : (e.transform q).text = q.candidate) : e.again q = q := by
  unfold again
  rw [h]

/-- A run that is not aborted gives its last text and says how many iterations it used. -/
theorem transform_of_outcome {canon first : Snapshot}
    (hcanon : (e.gateFor q).snapshot? q.canon = some canon)
    (hfirst : (e.gateFor q).snapshot? q.candidate = some first)
    (hend : (e.outcomeFor q canon first).2 ≠ .aborted) :
    (e.transform q).text = (e.outcomeFor q canon first).1.current.source ∧
      (e.transform q).used = (e.outcomeFor q canon first).1.used := by
  have hresult := e.transform_result q
  generalize e.transform q = t at hresult
  cases hresult with
  | unmeasured hnone =>
    rw [hcanon, hfirst] at hnone
    rcases hnone with hnone | hnone <;> cases hnone
  | aborted hcanon' hfirst' hrun =>
    obtain rfl := Option.some.inj (hcanon.symm.trans hcanon')
    obtain rfl := Option.some.inj (hfirst.symm.trans hfirst')
    rw [hrun] at hend
    exact absurd rfl hend
  | finished hcanon' hfirst' hrun _ =>
    obtain rfl := Option.some.inj (hcanon.symm.trans hcanon')
    obtain rfl := Option.some.inj (hfirst.symm.trans hfirst')
    rw [hrun]
    exact ⟨rfl, rfl⟩

theorem text_of_outcome {canon first : Snapshot}
    (hcanon : (e.gateFor q).snapshot? q.canon = some canon)
    (hfirst : (e.gateFor q).snapshot? q.candidate = some first)
    (hend : (e.outcomeFor q canon first).2 ≠ .aborted) :
    (e.transform q).text = (e.outcomeFor q canon first).1.current.source :=
  (transform_of_outcome hcanon hfirst hend).1

theorem snapshot?_measured {source : String} {s : Snapshot} {g : Gate}
    (h : g.snapshot? source = some s) : s = g.measure s.source s.module := by
  obtain ⟨m, -, rfl⟩ := Gate.snapshot?_eq_some h
  rfl

/-- The text at the end of a run is measured as the run has it. -/
theorem snapshot?_outcomeFor (canon : Snapshot) {first : Snapshot}
    (hfirst : (e.gateFor q).snapshot? q.candidate = some first) :
    (e.gateFor q).snapshot? (e.outcomeFor q canon first).1.current.source =
      some (e.outcomeFor q canon first).1.current := by
  have hline := (Course.drive_reaches (c := e.courseFor q canon) (e.budgetFor q)
    (.start first)).lineage
  have hmeasured := hline.measured (snapshot?_measured hfirst)
  obtain ⟨m, hm, rfl⟩ := Gate.snapshot?_eq_some hfirst
  have hparse := hline.parses hm
  unfold outcomeFor
  rw [Gate.snapshot?_of_parse hparse]
  exact congrArg some hmeasured.symm

/-- With the standard explainers no run is aborted. -/
theorem outcomeFor_ne_aborted (hstandard : e.explainers = .standard) {canon first : Snapshot}
    (hcanon : (e.gateFor q).snapshot? q.canon = some canon)
    (hfirst : (e.gateFor q).snapshot? q.candidate = some first) :
    (e.outcomeFor q canon first).2 ≠ .aborted := by
  apply Course.drive_total
  intro r hr
  have hmeasured := hr.lineage.measured (snapshot?_measured hfirst)
  exact Course.explain_standard hstandard hmeasured (snapshot?_measured hcanon)

/-- The second run has the same course; only its first text is another one. -/
theorem text_again {canon last : Snapshot}
    (hcanon : (e.gateFor q).snapshot? q.canon = some canon)
    (hlast : (e.gateFor q).snapshot? (e.transform q).text = some last)
    (hend : ((e.courseFor q canon).drive (e.budgetFor q) (.start last)).2 ≠ .aborted) :
    (e.transform (e.again q)).text =
      ((e.courseFor q canon).drive (e.budgetFor q) (.start last)).1.current.source :=
  text_of_outcome (q := e.again q) hcanon hlast hend

theorem text_again_of_converged {canon first : Snapshot}
    (hcanon : (e.gateFor q).snapshot? q.canon = some canon)
    (hfirst : (e.gateFor q).snapshot? q.candidate = some first)
    (hend : (e.outcomeFor q canon first).2 = .converged) :
    (e.transform (e.again q)).text = (e.transform q).text := by
  have htext := text_of_outcome hcanon hfirst (by rw [hend]; simp)
  have hlast := snapshot?_outcomeFor canon hfirst
  have hdistance : (e.outcomeFor q canon first).1.current.distance ≤ 0 :=
    (Course.drive_ends (c := e.courseFor q canon) (e.budgetFor q) (.start first)).converged hend
  have hstop := Course.drive_of_le (c := e.courseFor q canon) (e.budgetFor q)
    (r := .start (e.outcomeFor q canon first).1.current) hdistance
  rw [← htext] at hlast
  rw [text_again hcanon hlast (by rw [hstop]; simp), hstop, htext]
  rfl

/-- The exhausted run of a request with iterations left, and the run for its text. -/
theorem text_again_iff_of_exhausted (hstandard : e.explainers = .standard)
    (horacle : e.oracle = none) (hattested : q.attested = false) {canon first : Snapshot}
    (hcanon : (e.gateFor q).snapshot? q.canon = some canon)
    (hfirst : (e.gateFor q).snapshot? q.candidate = some first)
    (hend : (e.outcomeFor q canon first).2 = .exhausted)
    (hused : (e.outcomeFor q canon first).1.used < e.budgetFor q) :
    (e.transform (e.again q)).text = (e.transform q).text ↔
      ¬ (e.courseFor q canon).Oscillates (e.outcomeFor q canon first).1 := by
  have htext := text_of_outcome hcanon hfirst (by rw [hend]; simp)
  have hlast := snapshot?_outcomeFor canon hfirst
  have hopen : ¬ (e.outcomeFor q canon first).1.current.distance ≤ 0 :=
    not_le.mpr ((Course.drive_ends (c := e.courseFor q canon) (e.budgetFor q)
      (.start first)).exhausted hend)
  have hjudge : (e.courseFor q canon).gate.judge = none := by
    show (e.gateFor q).judge = none
    unfold gateFor
    rw [horacle]
    rfl
  have hsettled : (e.courseFor q canon).Settled (e.outcomeFor q canon first).1.current
      (e.outcomeFor q canon first).1.visited := by
    have hrun : (e.courseFor q canon).drive (e.budgetFor q) (.start first) =
        ((e.outcomeFor q canon first).1, .exhausted) := Prod.ext rfl hend
    rcases Course.drive_stops hjudge hattested hrun with hall | hsettled
    · have hzero : (Run.start first).used = 0 := rfl
      omega
    · exact hsettled
  obtain ⟨left, hleft⟩ : ∃ left, e.budgetFor q = left + 1 := Nat.exists_eq_add_one.mpr (by omega)
  generalize (e.outcomeFor q canon first).1 = r at *
  have hmeasured := snapshot?_measured hlast
  have hhash : r.current.hash = Digest.ofText r.current.source := by
    rw [hmeasured]
    rfl
  have hnext := outcomeFor_ne_aborted (q := { q with candidate := r.current.source }) hstandard
    hcanon hlast
  have hnext' : ((e.courseFor q canon).drive (e.budgetFor q) (.start r.current)).2 ≠ .aborted :=
    hnext
  rw [← hsettled.alone_iff, text_again hcanon (by rw [htext]; exact hlast) hnext', htext]
  rw [hleft] at hnext' ⊢
  have hvisited : (Run.start r.current).visited = [Digest.ofText r.current.source] := by
    rw [← hhash]
    rfl
  rw [← hvisited]
  constructor
  · intro hsame
    by_contra hunsettled
    obtain ⟨-, -, hguard, -⟩ : (e.courseFor q canon).Oscillates r := by
      by_contra hcalm
      rw [hvisited] at hunsettled
      exact hunsettled (hsettled.alone_iff.mpr hcalm)
    have hmore := Course.drive_of_unsettled hjudge hattested left (r := .start r.current) hopen
      hunsettled hnext'
    have hreach := Course.drive_reaches (c := e.courseFor q canon) (left + 1) (.start r.current)
    exact hreach.source_ne hguard hhash hmore hsame
  · intro halone
    obtain ⟨r', hrun, hcurrent, -⟩ := Course.drive_of_settled hjudge hattested left
      (r := .start r.current) hopen halone
    rw [hrun, hcurrent]
    rfl

/-- **A second transformation changes nothing, unless the first one oscillates.** Whatever was
aborted or has converged is left alone, with any settings. Without an oracle and without
attestation, for any strategies: if a run stops with iterations left, the second run leaves its text
alone exactly if it does not oscillate. -/
theorem transform_idempotent_iff (e : Engine) (q : Request) :
    ((e.transform q).ending ≠ .exhausted →
      (e.transform (e.again q)).text = (e.transform q).text) ∧
    (e.explainers = .standard → e.oracle = none → q.attested = false →
      (e.transform q).used < e.budgetFor q →
      ((e.transform (e.again q)).text = (e.transform q).text ↔ ¬ e.Oscillates q)) := by
  have hresult := e.transform_result q
  generalize ht : e.transform q = t at hresult
  cases hresult with
  | unmeasured hnone =>
    have hsame : e.again q = q := again_of_text_eq (by rw [ht]; rfl)
    have hcalm : ¬ e.Oscillates q := by
      rintro ⟨canon, first, hcanon, hfirst, -⟩
      rw [hcanon, hfirst] at hnone
      rcases hnone with hnone | hnone <;> cases hnone
    rw [hsame, ht]
    exact ⟨fun _ => rfl, fun _ _ _ _ => iff_of_true rfl hcalm⟩
  | @aborted canon first r hcanon hfirst hrun =>
    have hsame : e.again q = q := again_of_text_eq (by rw [ht]; rfl)
    have hcalm : ¬ e.Oscillates q := by
      rintro ⟨canon', first', hcanon', hfirst', hend, -⟩
      obtain rfl := Option.some.inj (hcanon.symm.trans hcanon')
      obtain rfl := Option.some.inj (hfirst.symm.trans hfirst')
      rw [hrun] at hend
      cases hend
    rw [hsame, ht]
    exact ⟨fun _ => rfl, fun _ _ _ _ => iff_of_true rfl hcalm⟩
  | @finished canon first r ending hcanon hfirst hrun hend =>
    have hoscillates :
        e.Oscillates q ↔ ending = .exhausted ∧ (e.courseFor q canon).Oscillates r := by
      constructor
      · rintro ⟨canon', first', hcanon', hfirst', hend', hosc⟩
        obtain rfl := Option.some.inj (hcanon.symm.trans hcanon')
        obtain rfl := Option.some.inj (hfirst.symm.trans hfirst')
        rw [hrun] at hend' hosc
        exact ⟨hend', hosc⟩
      · rintro ⟨hend', hosc⟩
        refine ⟨canon, first, hcanon, hfirst, ?_, ?_⟩
        · rw [hrun]
          exact hend'
        · rw [hrun]
          exact hosc
    rw [hoscillates, ← ht]
    cases ending with
    | aborted => exact absurd rfl hend
    | converged =>
      have hagain := text_again_of_converged hcanon hfirst (by rw [hrun])
      exact ⟨fun _ => hagain, fun _ _ _ _ => iff_of_true hagain (by simp)⟩
    | exhausted =>
      refine ⟨fun hne => absurd (by rw [ht]) hne, ?_⟩
      intro hstandard horacle hattested hused
      have hagain := text_again_iff_of_exhausted hstandard horacle hattested hcanon hfirst
        (by rw [hrun]) (by rw [hrun]; rw [ht] at hused; exact hused)
      rw [hrun] at hagain
      simpa using hagain

/-- A text that is its own canon is settled, and is left alone. -/
theorem transform_idempotent_iff_itself :
    (transform {} itself).used < budgetFor {} itself ∧ ¬ Oscillates {} itself ∧
      (transform {} (again {} itself)).text = (transform {} itself).text := by
  have hparses : (Module.parse? itself.canon).isSome = true := by decide +kernel
  obtain ⟨m, hm⟩ := Option.isSome_iff_exists.mp hparses
  have hs := Gate.snapshot?_of_parse (g := gateFor {} itself) hm
  have hrun := outcomeFor_canon {} itself hm ((gateFor {} itself).measure itself.canon m)
    itself.canon
  have hused : (transform {} itself).used < budgetFor {} itself := by
    have hresult := transform_result {} itself
    generalize transform {} itself = t at hresult
    cases hresult with
    | unmeasured => exact Nat.succ_pos _
    | aborted => exact Nat.succ_pos _
    | finished hcanon' hfirst' hrun' _ =>
      obtain rfl := Option.some.inj (hs.symm.trans hcanon')
      obtain rfl := Option.some.inj (hs.symm.trans hfirst')
      obtain rfl := congrArg Prod.fst (hrun.symm.trans hrun')
      exact Nat.succ_pos _
  have hcalm : ¬ Oscillates {} itself := by
    rintro ⟨canon, first, hcanon', hfirst', hend, -⟩
    obtain rfl := Option.some.inj (hs.symm.trans hcanon')
    obtain rfl := Option.some.inj (hs.symm.trans hfirst')
    rw [hrun] at hend
    cases hend
  exact ⟨hused, hcalm, ((transform_idempotent_iff {} itself).2 rfl rfl rfl hused).mpr hcalm⟩

/-! ## Two sums -/

/-- A sum of three terms, and a canon of other sums: regrouping the terms and exchanging the
operands of the outer sum lead from each of two texts to the other, at the same distance. -/
def sums : Request where
  candidate := "def f(x):\n    return x + (x + x)\n"
  canon := "def f(x):\n    return x + (x - 1) - (x + 1 + x)\n"

namespace Sums

/-- The sum after it is regrouped. -/
def regrouped : String := "def f(x):\n    return x + x + x\n"

/-- A function that returns an expression of its parameter. -/
def returning (e : Expr → Expr) : Module where
  body :=
    [.define
      { name := "f"
        params := [{ name := "x" }]
        body := [.ret (some (e (.name "x")))] }]

/-- The tree of the candidate. -/
def right : Module := returning fun x => .bin .add x (.bin .add x x)

/-- The tree of the candidate after it is regrouped. -/
def left : Module := returning fun x => .bin .add (.bin .add x x) x

/-- The tree of the canon. -/
def other : Module :=
  returning fun x =>
    .bin .sub (.bin .add x (.bin .sub x (.int 1))) (.bin .add (.bin .add x (.int 1)) x)

theorem parses : Module.parse? sums.candidate = some right ∧
    Module.parse? regrouped = some left ∧ Module.parse? sums.canon = some other :=
  ⟨by decide +kernel, by decide +kernel, by decide +kernel⟩

/-- How far either sum is from the canon in a facet. -/
def distanceAt : Facet → Rat
  | .algebraicStructure => 3 / 4
  | .normalizedStructure | .operatorPrecedence => 1
  | _ => 0

/-- How far either sum is from the canon in all facets. -/
def distances : List FacetDistance := Facet.all.map fun k => ⟨k, distanceAt k⟩

/-- The distances of a sum from its facets, which mostly are those of the canon. -/
theorem distances_eq {m : Module}
    (hfacets : ∀ k ∈ Facet.all, k = .normalizedStructure ∨
      (m.facet .enhanced k = other.facet .enhanced k ∧ distanceAt k = 0) ∨
      Distance.values .nameInvariant (m.facet .enhanced k) (other.facet .enhanced k) = distanceAt k)
    (hdigest : m.hashes.select .nameInvariant ≠ other.hashes.select .nameInvariant) :
    Profile.distances .nameInvariant (m.profile .enhanced) (other.profile .enhanced) =
      distances := by
  refine List.map_congr_left fun k hk => ?_
  rw [Module.facetDistance_profile]
  rcases hfacets k hk with rfl | ⟨hsame, hzero⟩ | hvalues
  · rw [Module.values_normalizedStructure, if_neg hdigest]
    rfl
  · rw [hsame, hzero, Distance.values_self]
  · rw [hvalues]

/-- The canon, measured. -/
def canon : Snapshot := (gateFor {} sums).measure sums.canon other

/-- A sum, measured. -/
def measured (text : String) (m : Module) : Snapshot := (gateFor {} sums).measure text m

theorem canon_gateFor : (gateFor {} sums).canon = other.profile .enhanced := by
  unfold gateFor Profile.ofSource
  simp only [parses.2.2]

/-- The distance of either sum to the canon. -/
theorem distance_measured {text : String} {m : Module}
    (h : Profile.distances .nameInvariant (m.profile .enhanced) (other.profile .enhanced) =
      distances) :
    (measured text m).distance =
      Binary.round (distances.foldl (fun acc d => Binary.round (acc + d.distance)) 0 /
        Facet.count) := by
  rw [← h, ← canon_gateFor]
  rfl

/-- One sum leads to the other: they are at the same distance and behave alike. -/
theorem leads {text text' : String} {m m' : Module} {d : Difference} {strategy : Strategy}
    (hours : Profile.distances .nameInvariant (m.profile .enhanced) (other.profile .enhanced) =
      distances)
    (theirs : Profile.distances .nameInvariant (m'.profile .enhanced) (other.profile .enhanced) =
      distances)
    (hexplain : Explainers.standard.explainAll (m.profile .enhanced) (other.profile .enhanced)
      distances { candidate := m, canon := other, candidateText := text, canonText := sums.canon } =
        .ok [d])
    (happlicable : Strategies.standard.applicable d = [strategy])
    (hgenerate : strategy.generate d text = .ok (some text'))
    (hparse : Module.parse? text' = some m') (hdefines : m'.hasDefinition = true)
    (hnames : m'.unboundNames = [])
    (hprobe : (gateFor {} sums).probeObjection? (measured text m) (measured text' m') = none) :
    (courseFor {} sums canon).Leads (measured text m) (measured text' m') := by
  refine ⟨⟨d, strategy, ?_, happlicable, hgenerate⟩, ?_, rfl, ?_⟩
  · rw [← hexplain, ← hours]
    rfl
  · intro memo
    have hinspect : (gateFor {} sums).inspect (measured text m) text' =
        .ok (measured text' m') := by
      have hcloser : ¬ (measured text m).distance <
          ((gateFor {} sums).measure text' m').distance := by
        rw [distance_measured hours, show ((gateFor {} sums).measure text' m').distance = _ from
          distance_measured theirs]
        exact lt_irrefl _
      unfold Gate.inspect
      rw [hparse]
      simp only [hdefines, hnames, List.filter_nil, List.isEmpty_nil, hcloser]
      rfl
    show (gateFor {} sums).check (measured text m) text' .strategy memo = _
    unfold Gate.check
    rw [hinspect]
    have hbehaves : (gateFor {} sums).behaviourObjection? (measured text m) (measured text' m')
        .strategy memo = (none, memo) := by
      rw [← hprobe]
      rfl
    simp only [hbehaves]
  · rw [distance_measured theirs]
    decide +kernel

/-- The difference of the candidate to the canon. -/
def regroup : Difference where
  kind := .reassociation
  hint := .reassociate ⟨"f", 0⟩ true
  explanation :=
    "candidate groups an associative chain right-nested where canon groups it left-nested"
  ours := "1 right / 0 left"
  theirs := "0 right / 1 left"

/-- The difference of the regrouped text to the canon. -/
def exchange : Difference where
  kind := .operandOrder
  hint := .site ⟨"f", 0⟩
  explanation := "candidate orders the operands of a commutative operator the other way"
  ours := "+:arith,param0"
  theirs := "+:param0,arith"

theorem leads_both :
    (courseFor {} sums canon).Leads (measured sums.candidate right) (measured regrouped left) ∧
      (courseFor {} sums canon).Leads (measured regrouped left) (measured sums.candidate right) ∧
      Digest.ofText regrouped ≠ Digest.ofText sums.candidate := by
  obtain ⟨hright, hleft, -⟩ := parses
  have dright : Profile.distances .nameInvariant (right.profile .enhanced)
      (other.profile .enhanced) = distances := distances_eq (by decide +kernel) (by decide +kernel)
  have dleft : Profile.distances .nameInvariant (left.profile .enhanced)
      (other.profile .enhanced) = distances := distances_eq (by decide +kernel) (by decide +kernel)
  refine ⟨?_, ?_, by decide +kernel⟩
  · exact leads (d := regroup) dright dleft (by decide +kernel) (Strategies.applicable_eq rfl)
      (by decide +kernel) hleft rfl (by decide +kernel) (by decide +kernel)
  · exact leads (d := exchange) dleft dright (by decide +kernel) (Strategies.applicable_eq rfl)
      (by decide +kernel) hright rfl (by decide +kernel) (by decide +kernel)

end Sums

/-- The second run for `sums` goes back to the candidate. -/
theorem transform_sums_again :
    (transform {} sums).used < budgetFor {} sums ∧
      (transform {} (again {} sums)).text ≠ (transform {} sums).text := by
  obtain ⟨hright, hleft, hother⟩ := Sums.parses
  obtain ⟨hthere, hback, hne⟩ := Sums.leads_both
  have hcanon : (gateFor {} sums).snapshot? sums.canon = some Sums.canon :=
    Gate.snapshot?_of_parse hother
  have hfirst : (gateFor {} sums).snapshot? sums.candidate =
      some (Sums.measured sums.candidate Sums.right) := Gate.snapshot?_of_parse hright
  obtain ⟨r, hrun, hcurrent, hused⟩ := Course.drive_of_leads rfl rfl rfl hthere hback hne 3
  obtain ⟨r', hrun', hcurrent', -⟩ := Course.drive_of_leads rfl rfl rfl hback hthere hne.symm 3
  have hend : outcomeFor {} sums Sums.canon (Sums.measured sums.candidate Sums.right) =
      (r, .exhausted) := hrun
  obtain ⟨htext, huses⟩ := transform_of_outcome hcanon hfirst (by rw [hend]; simp)
  rw [hend, hcurrent] at htext
  rw [hend, hused] at huses
  have hlast : (gateFor {} sums).snapshot? (transform {} sums).text =
      some (Sums.measured Sums.regrouped Sums.left) := by
    rw [htext]
    exact Gate.snapshot?_of_parse hleft
  have hagain : (transform {} (again {} sums)).text = sums.candidate := by
    rw [text_again hcanon hlast (by rw [show budgetFor {} sums = 5 from rfl, hrun']; simp),
      show budgetFor {} sums = 5 from rfl, hrun', hcurrent']
    rfl
  refine ⟨?_, ?_⟩
  · rw [huses]
    exact Nat.one_lt_succ_succ 3
  · rw [hagain, htext]
    exact fun hsame => hne (congrArg Digest.ofText hsame).symm

end Engine

end Concord
