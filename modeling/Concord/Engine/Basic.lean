import Concord.Engine.Run

/-!
# Engines

An engine holds settings, judges and registries; a request names the texts and what is agreed on them.
A transformation never fails: where nothing can be done the text comes back as it was.
-/

namespace Concord

/-- What transformations are made with. -/
structure Engine where
  config : Config := {}
  oracle : Option Oracle := none
  explainers : Explainers := Explainers.standard
  strategies : Strategies := Strategies.standard

/-- A transformation that is asked for. -/
structure Request where
  candidate : String
  canon : String
  contract : Option Contract := none
  /-- The naming policy where the contract has none. -/
  naming : Option NamingPolicy := none
  /-- The number of iterations, if it is another one than that of the engine. -/
  maxIterations : Option Nat := none
  attested : Bool := false

/-- What a transformation gives. -/
structure Transformation where
  text : String
  ending : Course.Ending
  used : Nat := 0
  applied : List String := []
  initialDistance : Rat
  finalDistance : Rat
  rejections : List Rejection := []
  /-- The texts the oracle was asked about, the latest first. -/
  asked : List String := []

namespace Transformation

/-- Whether the text reached the canon. -/
def success (t : Transformation) : Bool := t.ending = .converged

/-- Nothing was changed. -/
def aborted (candidate : String) (distance : Rat) (rejections : List Rejection)
    (asked : List String) : Transformation :=
  { text := candidate, ending := .aborted, initialDistance := distance, finalDistance := distance
    rejections, asked }

end Transformation

namespace Engine

/-- The naming policy in force: that of the contract, of the request or of the engine. -/
def namingFor (e : Engine) (q : Request) : Option NamingPolicy :=
  ((q.contract.bind (·.naming)).or q.naming).or e.config.naming

/-- The gate for a request. The oracle judges only under a contract. -/
def gateFor (e : Engine) (q : Request) : Gate where
  canon := Profile.ofSource e.config.mode q.canon
  mode := e.config.mode
  selection := .forPolicy (e.namingFor q).isSome
  judge := do return (← e.oracle) (← q.contract)
  budget := e.config.probe
  entryPoint := q.contract.bind (·.entryPoint)

/-- The course of a run for a request, given the measured canon. -/
def courseFor (e : Engine) (q : Request) (canon : Snapshot) : Course where
  gate := e.gateFor q
  canon := canon
  explainers := e.explainers
  strategies := e.strategies
  naming := e.namingFor q
  template := e.config.template
  visitedGuard := e.config.visitedGuard
  attested := q.attested

/-- Move the candidate of a request towards its canon. -/
def transform (e : Engine) (q : Request) : Transformation :=
  let gate := e.gateFor q
  match gate.snapshot? q.canon, gate.snapshot? q.candidate with
  | some canon, some initial =>
    let budget := q.maxIterations.getD e.config.maxIterations
    let (r, ending) := (e.courseFor q canon).drive budget (.start initial)
    if ending = .aborted then
      .aborted q.candidate initial.distance r.rejections r.memo.asked
    else
      { text := r.current.source, ending, used := r.used, applied := r.applied
        initialDistance := initial.distance, finalDistance := r.current.distance
        rejections := r.rejections, asked := r.memo.asked }
  | _, _ => .aborted q.candidate 1 [] []

end Engine

end Concord
