import Concord.Contract.Basic
import Concord.Number.Decimal
import Concord.Profile.Distance
import Concord.Profile.Extract
import Concord.Tree.Scope

/-!
# The gate

Every proposed text has to pass the gate before it takes the place of the one before it: it parses,
still defines something, reads no name that became unbound, is not farther from the canon, and
behaves as before. Behaviour is judged by an oracle if there is one, and otherwise by a probe. The
oracle is asked about a text once; later decisions go by its first answer.
-/

namespace Concord

/-! ## Objections -/

/-- Why a proposed text is not taken. -/
inductive Objection where
  | unparsable
  | noDefinition
  /-- Names that were bound before, in increasing order. -/
  | unboundNames (names : List String)
  | distanceIncreased (before after : Rat)
  | oracleRegression (before after : Float)
  | divergent (verdict : ProbeVerdict)
  | inconclusive (verdict : ProbeVerdict)
  | revisited
  | strategyFailed (message : String)
deriving Repr, DecidableEq

namespace Objection

/-- A rational with three decimals. -/
def thousandths (r : Rat) : String := Decimal.fixedRat 3 (r.num < 0) r.num.natAbs r.den

/-- The words for an objection. -/
def text : Objection → String
  | unparsable => "rewrite does not parse: syntax error"
  | noDefinition => "no top-level definition remains"
  | unboundNames names => "introduces unbound names: " ++ ", ".intercalate names
  | distanceIncreased before after =>
    "distance rises from " ++ thousandths before ++ " to " ++ thousandths after
  | oracleRegression before after =>
    "oracle regression: pass rate " ++ Decimal.fixedFloat 2 before ++ " -> " ++
      Decimal.fixedFloat 2 after
  | divergent verdict | inconclusive verdict => verdict.text
  | revisited => "revisits an earlier candidate"
  | strategyFailed message => "strategy failed: " ++ message

end Objection

/-! ## Proposals and their measures -/

/-- What a proposal comes from. Without an oracle only the proposals of strategies are probed. -/
inductive Tier where
  | strategy
  | template
deriving Repr, DecidableEq

/-- A text with all that the gate measures on it. -/
structure Snapshot where
  source : String
  module : Module
  profile : Profile
  distance : Rat
  hash : Digest

/-- The answers of an oracle so far, and the texts it was asked about, the latest first. -/
structure Memo where
  verdicts : List (Digest × Verdict) := []
  asked : List String := []

/-- The verdict on a text: the first one given on it, or a new one. -/
def Memo.ask (m : Memo) (judge : List String → String → Verdict) (s : Snapshot) :
    Verdict × Memo :=
  match m.verdicts.lookup s.hash with
  | some v => (v, m)
  | none =>
    let v := judge m.asked s.source
    (v, { verdicts := (s.hash, v) :: m.verdicts, asked := s.source :: m.asked })

/-- How proposals are measured and judged. -/
structure Gate where
  canon : Profile
  mode : Mode := .enhanced
  selection : HashSelection := .nameInvariant
  judge : Option (List String → String → Verdict) := none
  budget : Machine.Budget := {}
  entryPoint : Option String := none

namespace Gate

/-- Measure a text whose module is known. -/
def measure (g : Gate) (source : String) (m : Module) : Snapshot :=
  let profile := m.profile g.mode
  { source, module := m, profile, distance := Profile.distance g.selection profile g.canon
    hash := Digest.ofText source }

/-- Measure a text, if it parses. -/
def snapshot? (g : Gate) (source : String) : Option Snapshot :=
  (Module.parse? source).map (g.measure source)

/-- The oracle's verdict on a text, if there is an oracle. -/
def verdict (g : Gate) (s : Snapshot) (m : Memo) : Option Verdict × Memo :=
  match g.judge with
  | none => (none, m)
  | some judge =>
    let (v, m) := m.ask judge s
    (some v, m)

/-- Whether a text passes the oracle; without one it does not. -/
def passes (g : Gate) (s : Snapshot) (m : Memo) : Bool × Memo :=
  let (v, m) := g.verdict s m
  (v.any (·.passed), m)

/-- The checks of a proposal by its text alone, which give its snapshot. -/
def inspect (g : Gate) (before : Snapshot) (after : String) : Except Objection Snapshot :=
  match Module.parse? after with
  | none => .error .unparsable
  | some m =>
    if !m.hasDefinition then .error .noDefinition
    else
      let known := before.module.unboundNames
      let names := m.unboundNames.filter (!known.contains ·)
      if !names.isEmpty then .error (.unboundNames names)
      else
        let s := g.measure after m
        if before.distance < s.distance then
          .error (.distanceIncreased before.distance s.distance)
        else .ok s

/-- The objection of a probe to a change, if it has one. -/
def probeObjection? (g : Gate) (before after : Snapshot) : Option Objection :=
  match Probe.compare g.budget before.module after.module g.entryPoint with
  | .equivalent _ _ => none
  | v@(.divergent _ _ _) => some (.divergent v)
  | v@(.inconclusive _) => some (.inconclusive v)

/-- The objection of the judge of behaviour to a change, if it has one. -/
def behaviourObjection? (g : Gate) (before after : Snapshot) (tier : Tier) (m : Memo) :
    Option Objection × Memo :=
  match g.judge with
  | some judge =>
    let (was, m) := m.ask judge before
    let (now, m) := m.ask judge after
    (if now.regressesFrom was then some (.oracleRegression was.passRate now.passRate) else none, m)
  | none =>
    (match tier with
      | .strategy => g.probeObjection? before after
      | .template => none, m)

/-- Check a proposal to put a text in the place of another. -/
def check (g : Gate) (before : Snapshot) (after : String) (tier : Tier) (m : Memo) :
    Except Objection Snapshot × Memo :=
  match g.inspect before after with
  | .error o => (.error o, m)
  | .ok s =>
    match g.behaviourObjection? before s tier m with
    | (some o, m) => (.error o, m)
    | (none, m) => (.ok s, m)

end Gate

end Concord
