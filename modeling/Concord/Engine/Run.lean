import Concord.Difference.Registry
import Concord.Engine.Config
import Concord.Gate.Basic
import Concord.Strategy.Registry
import Concord.Strategy.Template

/-!
# Runs

A run moves a text towards a canon by proposals that the gate lets through. An iteration explains the
remaining differences, takes the first one not yet tried and proposes what the strategies for it
generate; as soon as a proposal is kept the differences are explained afresh. An iteration that keeps
nothing may propose the canon itself. The run ends when no distance is left, when nothing is kept, or
after as many iterations as it may have.
-/

namespace Concord

/-- A proposal that was not taken. -/
structure Rejection where
  strategy : String
  /-- The iteration it was made in, from one. -/
  iteration : Nat
  objection : Objection
deriving Repr, DecidableEq

/-- The state of a run. -/
structure Run where
  current : Snapshot
  iteration : Nat := 0
  /-- Iterations that kept something. -/
  used : Nat := 0
  /-- Strategies whose proposals were kept, in order. -/
  applied : List String := []
  /-- Digests of the first text and of all kept ones. -/
  visited : List Digest
  rejections : List Rejection := []
  memo : Memo := {}

namespace Run

/-- The state before the first proposal. -/
def start (s : Snapshot) : Run := { current := s, visited := [s.hash] }

/-- Note that a proposal was not taken. -/
def reject (r : Run) (strategy : String) (o : Objection) : Run :=
  { r with rejections := r.rejections ++ [⟨strategy, r.iteration, o⟩] }

/-- Keep a proposal. -/
def keep (r : Run) (strategy : String) (s : Snapshot) (hash : Digest) : Run :=
  { r with current := s, applied := r.applied ++ [strategy], visited := hash :: r.visited }

end Run

/-- Everything that stays the same during a run. -/
structure Course where
  gate : Gate
  canon : Snapshot
  explainers : Explainers
  strategies : Strategies
  naming : Option NamingPolicy := none
  template : TemplateConfig := {}
  visitedGuard : Bool := true
  /-- Whether the caller vouches that text and canon behave as asked. -/
  attested : Bool := false

namespace Course

variable (c : Course)

/-- Keep a proposal if it is new and passes the gate; says whether it was kept. -/
def consider (r : Run) (strategy text : String) (tier : Tier) : Run × Bool :=
  let hash := Digest.ofText text
  if c.visitedGuard && r.visited.contains hash then (r.reject strategy .revisited, false)
  else
    let (result, memo) := c.gate.check r.current text tier r.memo
    let r := { r with memo }
    match result with
    | .ok s => (r.keep strategy s hash, true)
    | .error o => (r.reject strategy o, false)

/-- Propose what a strategy or the template generated: nothing, a text or a failure. -/
def propose (r : Run) (strategy : String) (tier : Tier)
    (generated : Except StrategyError (Option String)) : Run × Bool :=
  match generated with
  | .ok none => (r, false)
  | .ok (some text) => c.consider r strategy text tier
  | .error e => (r.reject strategy (.strategyFailed e.message), false)

/-- The differences of a text and the canon, the most severe first. -/
def explain (s : Snapshot) : Except ExplainError (List Difference) :=
  c.explainers.explainAll s.profile c.canon.profile
    (Profile.distances c.gate.selection s.profile c.canon.profile)
    { candidate := s.module, canon := c.canon.module, candidateText := s.source
      canonText := c.canon.source, naming := c.naming, entryPoint := c.gate.entryPoint }

/-- Try strategies for a difference until a proposal is kept. -/
def tryStrategies (d : Difference) : Strategies → Run → Run × Bool
  | [], r => (r, false)
  | s :: rest, r =>
    match c.propose r s.name .strategy (s.generate d r.current.source) with
    | (r, true) => (r, true)
    | (r, false) => tryStrategies d rest r

/-! ### Iterations -/

/-- What tells differences apart within an iteration. -/
abbrev Target := Facet × DifferenceKind

/-- All targets. -/
def targets : List Target := Facet.all.flatMap fun f => DifferenceKind.all.map (f, ·)

theorem mem_targets (t : Target) : t ∈ targets :=
  List.mem_flatMap.2 ⟨t.1, Facet.mem_all t.1, List.mem_map.2 ⟨t.2, DifferenceKind.mem_all t.2, rfl⟩⟩

/-- The targets that were not tried. -/
def untried (tried : List Target) : List Target := targets.filter (!tried.contains ·)

/-- Fewer elements of a list satisfy a predicate that implies another one and fails on an element
where that one holds. -/
theorem length_filter_lt {α : Type} {p q : α → Bool} {a : α} {l : List α}
    (imp : ∀ x, p x = true → q x = true) (mem : a ∈ l) (hq : q a = true) (hp : p a = false) :
    (l.filter p).length < (l.filter q).length := by
  have le : ∀ l : List α, (l.filter p).length ≤ (l.filter q).length := by
    intro l
    induction l with
    | nil => simp
    | cons x l ih =>
      by_cases hx : p x = true
      · simp [hx, imp x hx, ih]
      · have hx' : p x = false := by simpa using hx
        by_cases hy : q x = true
        · simp only [List.filter_cons, hx', hy, if_true, List.length_cons]
          exact Nat.le_succ_of_le ih
        · simp [hx', hy, ih]
  induction l with
  | nil => simp at mem
  | cons x l ih =>
    rcases List.mem_cons.1 mem with rfl | h
    · simp only [List.filter_cons, hp, hq, if_true, List.length_cons]
      exact Nat.lt_succ_of_le (le l)
    · by_cases hx : p x = true
      · simpa [hx, imp x hx] using ih h
      · have hx' : p x = false := by simpa using hx
        by_cases hy : q x = true
        · simp only [List.filter_cons, hx', hy, if_true, List.length_cons]
          exact Nat.lt_succ_of_lt (ih h)
        · simpa [List.filter_cons, hx', hy] using ih h

theorem untried_lt {tried : List Target} {t : Target} (h : tried.contains t = false) :
    (untried (t :: tried)).length < (untried tried).length := by
  apply length_filter_lt (a := t) _ (mem_targets t) (by simpa using h) (by simp)
  intro x hx
  simp only [List.contains_cons, Bool.not_or, Bool.and_eq_true] at hx
  exact hx.2

/-- The target of a difference. -/
def target (d : Difference) : Target := (d.facet, d.kind)

/-- One iteration, with the targets tried so far: whether anything was kept, or why the differences
could not be explained. Every round tries a new target. -/
def iterate (tried : List Target) (r : Run) (kept : Bool) : Run × Except ExplainError Bool :=
  match c.explain r.current with
  | .error e => (r, .error e)
  | .ok differences =>
    match h : differences.find? (fun d => !tried.contains (target d)) with
    | none => (r, .ok kept)
    | some d =>
      have : (untried (target d :: tried)).length < (untried tried).length :=
        untried_lt (by simpa using List.find?_some h)
      match c.tryStrategies d (c.strategies.applicable d) r with
      | (r, now) => iterate (target d :: tried) r (kept || now)
termination_by (untried tried).length

/-- Whether text and canon are known to behave as asked. -/
def validated (r : Run) : Run × Bool :=
  if c.attested then (r, true)
  else
    let (ours, memo) := c.gate.passes r.current r.memo
    if ours then
      let (theirs, memo) := c.gate.passes c.canon memo
      ({ r with memo }, theirs)
    else ({ r with memo }, false)

/-- Propose the canon, if that is allowed and both sides are known to behave as asked. -/
def tryTemplate (r : Run) : Run × Bool :=
  if !c.template.enabled || r.current.distance < Binary.valueOf c.template.minDistance then
    (r, false)
  else
    match c.validated r with
    | (r, false) => (r, false)
    | (r, true) =>
      c.propose r Template.name .template
        (Template.generate r.current.source c.canon.source c.gate.entryPoint)

/-! ### The whole run -/

/-- How a run ends. -/
inductive Ending where
  | converged
  | exhausted
  | aborted
deriving Repr, DecidableEq

/-- The word for an ending. -/
def Ending.name : Ending → String
  | converged => "converged"
  | exhausted => "exhausted"
  | aborted => "aborted"

/-- Iterate while distance and iterations are left. -/
def drive : Nat → Run → Run × Ending
  | left, r =>
    if r.current.distance ≤ 0 then (r, .converged)
    else
      match left with
      | 0 => (r, .exhausted)
      | left + 1 =>
        match c.iterate [] { r with iteration := r.iteration + 1 } false with
        | (r, .error _) => (r, .aborted)
        | (r, .ok kept) =>
          let (r, kept) :=
            if !kept && 0 < r.current.distance then c.tryTemplate r else (r, kept)
          if kept then drive left { r with used := r.used + 1 } else (r, .exhausted)

end Course

end Concord
