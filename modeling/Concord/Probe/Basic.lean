import Concord.Machine.Call
import Concord.Machine.Datum
import Concord.Probe.Battery
import Concord.Source.Statement

/-!
# Probing two programs for equal behaviour

Both programs are run on the same inputs. An input on which one of them halts says nothing. The two
agree on an input if they return the same value or raise exceptions of the same class, and leave their
arguments the same. A probe passes if they agree on every input that says something and return on at
least one.
-/

namespace Concord

open Machine

/-- The datum a seed stands for. -/
def Seed.datum : Seed → Datum
  | int i => .int i
  | text s => .str s
  | ints items => .list (items.map .int)

/-- What a probe finds. -/
inductive ProbeVerdict where
  /-- The programs agree on `probes` inputs, and both return on `conclusive` of them. -/
  | equivalent (probes conclusive : Nat)
  /-- The programs differ on an input. -/
  | divergent (input before after : String)
  /-- Nothing can be said. -/
  | inconclusive (reason : String)
deriving Repr, DecidableEq

namespace ProbeVerdict

/-- Whether the probe passed. -/
def isEquivalent : ProbeVerdict → Bool
  | equivalent _ _ => true
  | _ => false

/-- The words for a verdict. -/
def text : ProbeVerdict → String
  | equivalent probes conclusive =>
    s!"equivalent on {probes} inputs ({conclusive} returned)"
  | divergent input before after => s!"diverges on {input}: {before} vs {after}"
  | inconclusive reason => s!"inconclusive: {reason}"

end ProbeVerdict

namespace Probe

/-- One program's behaviour on one input. -/
structure Run where
  outcome : Outcome
  args : List Value
  heap : Heap

/-- Load a module and call one of its functions. -/
def run (b : Budget) (m : Module) (name : String) (seeds : List Seed) : Except Halt Run := do
  let s ← load b m
  let (args, s) := Datum.storeIn (seeds.map Seed.datum) s
  let (outcome, s) := s.call b name args
  return { outcome := ← outcome, args, heap := s.heap }

/-- Arguments in parentheses. -/
def argsText (h : Heap) (args : List Value) : String :=
  "(" ++ ", ".intercalate (args.map h.repr) ++ ")"

/-- The text of an input. -/
def inputText (seeds : List Seed) : String :=
  let (args, s) := Datum.storeIn (seeds.map Seed.datum) (.initial {})
  argsText s.heap args

/-- Whether two runs end alike. -/
def Run.agrees (a b : Run) : Bool :=
  match a.outcome, b.outcome with
  | .returned v, .returned w => same a.heap b.heap v w
  | .raised e, .raised f => e.kind == f.kind
  | _, _ => false

/-- Whether two runs leave their arguments the same. -/
def Run.sameArgs (a b : Run) : Bool :=
  (a.args.zip b.args).all fun (v, w) => same a.heap b.heap v w

/-- What one input shows: a difference, or whether both runs returned. -/
def Run.compare (input : String) (a b : Run) : Except ProbeVerdict Bool :=
  if !a.agrees b then
    .error (.divergent input (a.outcome.text a.heap) (b.outcome.text b.heap))
  else if !a.sameArgs b then
    .error (.divergent input ("arguments left as " ++ argsText a.heap a.args)
      ("arguments left as " ++ argsText b.heap b.args))
  else
    .ok (match a.outcome with
      | .returned _ => true
      | .raised _ => false)

/-- Run both programs on inputs, with `probes` of them agreed on before and `conclusive` returned. -/
def onInputs (b : Budget) (before after : Module) (name : String) :
    List (List Seed) → Nat → Nat → ProbeVerdict
  | [], probes, conclusive =>
    if conclusive = 0 then .inconclusive "no input returned normally on both sides"
    else .equivalent probes conclusive
  | seeds :: rest, probes, conclusive =>
    match run b before name seeds, run b after name seeds with
    | .ok l, .ok r =>
      match l.compare (inputText seeds) r with
      | .error verdict => verdict
      | .ok returned =>
        onInputs b before after name rest (probes + 1)
          (if returned then conclusive + 1 else conclusive)
    | _, _ => onInputs b before after name rest probes conclusive

/-- The inputs for a function of the first program. -/
def inputs (before after : Module) (f : Function) (params : List String) : List (List Seed) :=
  Seed.rounds ((Domain.infer f params).map (Seed.battery (Seed.literals before after)))

/-- Compare two programs on the entry function of the first: the one named, if there is one, or the
first it defines. -/
def compare (b : Budget) (before after : Module) (entry : Option String) : ProbeVerdict :=
  match before.entry? entry with
  | none => .inconclusive "no function to probe"
  | some f =>
    if (after.function? f.name).isNone then
      .divergent "()" ("defines " ++ f.name) (f.name ++ " missing")
    else
      match f.positionalParams? with
      | none => .inconclusive "required keyword-only parameter"
      | some params => onInputs b before after f.name (inputs before after f params) 0 0

/-- Compare two texts; one that does not parse says nothing. -/
def compareTexts (b : Budget) (before after : String) (entry : Option String) : ProbeVerdict :=
  match Module.parse? before, Module.parse? after with
  | some m, some n => compare b m n entry
  | _, _ => .inconclusive "syntax error"

end Probe

end Concord
