import Concord.Machine.Statement

/-!
# Calls and runs

A call of a function that the program defines runs its code in a scope of its own, one level deeper;
predefined functions and methods that call back stay on the level of their caller. A run loads a
module and then calls its functions by name.
-/

namespace Concord.Machine

/-! ### Arguments -/

/-- Arguments on their way to the parameters: those not yet bound, and whether the parameters left
can be passed by name only. -/
structure Passing where
  positional : List Value
  keywords : Keywords
  keywordOnly : Bool := false
  vars : Bindings := []

/-- The value for an ordinary parameter: the next one by position, else the one by name, else the
default. -/
def Passing.take (function : String) (p : Passing) (name : String) (default : Option Value) :
    Except Signal Passing :=
  match p.keywordOnly, p.positional with
  | false, v :: rest => .ok { p with positional := rest, vars := p.vars.set name v }
  | _, _ =>
    let (found, rest) := takeKeyword name p.keywords
    match found, default with
    | some v, _ => .ok { p with keywords := rest, vars := p.vars.set name v }
    | none, some v => .ok { p with vars := p.vars.set name v }
    | none, none =>
      .error (.error .type s!"{function}() missing required argument: '{name}'")

/-- Bind arguments to the parameters of a function, from left to right. -/
def bindParams (function : String) : List (Param × Option Value) → Passing → Exec Passing
  | [], p => return p
  | (param, default) :: rest, p => do
    let p ← match param.kind with
      | .positionalOnly => pure p
      | .keywordOnly => pure { p with keywordOnly := true }
      | .varArgs => do
        let items ← Exec.newTuple p.positional
        pure { p with positional := [], keywordOnly := true, vars := p.vars.set param.name items }
      | .kwArgs => do
        let entries ← Exec.newDict (p.keywords.map fun (k, v) => (.str k, v))
        pure { p with keywords := [], vars := p.vars.set param.name entries }
      | .regular => Exec.ofExcept (p.take function param.name default)
    bindParams function rest p

/-- The variables of a call; arguments that no parameter takes are refused. -/
def bindArguments (c : Closure) (args : List Value) (keywords : Keywords) : Exec Bindings := do
  let p ← bindParams c.name c.params { positional := args, keywords }
  match p.positional, p.keywords with
  | _ :: _, _ => throw (.error .type s!"{c.name}() got too many positional arguments")
  | [], (key, _) :: _ =>
    throw (.error .type s!"{c.name}() got an unexpected keyword argument '{key}'")
  | [], [] => return p.vars

/-! ### Calls -/

/-- Run something one level deeper. -/
def deeper {α : Type} (x : Exec α) : Exec α := do
  modify fun s => { s with depth := s.depth + 1 }
  let result ← Exec.attempt x
  modify fun s => { s with depth := s.depth - 1 }
  Exec.ofExcept result

/-- Call a function of the program, which calls others by `call`. -/
def enter (call : Call) (c : Closure) (args : List Value) (keywords : Keywords) : Exec Value := do
  let s ← get
  if s.maxDepth ≤ s.depth then throw (.halt (.depthExceeded s.maxDepth))
  let vars ← bindArguments c args keywords
  let scope ← Exec.newScope { vars, parent := c.env }
  deeper do
    match c.code with
    | .block body =>
      match ← execBlock call (some scope) body with
      | .ret v => return v
      | _ => return .none
    | .expr e => eval call (some scope) e

/-- Call a value, where `onClosure` calls a function of the program. Predefined functions and methods
call back with at least one argument less, or with a single one, so `nesting` of them is bounded by
the number of arguments. -/
def callBy (onClosure : Closure → List Value → Keywords → Exec Value) : Nat → Call
  | 0, _, _, _ => Exec.exhaust
  | nesting + 1, callee, args, keywords => do
    let apply : Apply := fun f xs => callBy onClosure nesting f xs []
    match callee with
    | .function r =>
      match (← get).heap.closures[r]? with
      | some c => onClosure c args keywords
      | none => return .none
    | .builtin b => native apply b args keywords
    | .method receiver name => callMethod apply receiver name args keywords
    | .exceptionType c =>
      let message ← match args with
        | [] => pure ""
        | v :: _ => Exec.ofHeap (·.display v)
      Exec.newException ⟨c, message⟩
    | other => throw (.error .type s!"'{other.typeName}' object is not callable")

/-- Call a value with `levels` of calls of the program's functions left. -/
def callAt : Nat → Call
  | 0, callee, args, keywords =>
    callBy (fun _ _ _ => do throw (.halt (.depthExceeded (← get).maxDepth)))
      (args.length + 2) callee args keywords
  | levels + 1, callee, args, keywords =>
    callBy (enter (callAt levels)) (args.length + 2) callee args keywords

/-! ### Runs -/

/-- How a call ends. -/
inductive Outcome where
  | returned (v : Value)
  | raised (e : Exception)

/-- The words for an outcome. -/
def Outcome.text (h : Heap) : Outcome → String
  | returned v => h.repr v
  | raised e => "raised " ++ e.text

/-- The state before anything has run. -/
def State.initial (b : Budget) : State := { fuel := b.fuel, maxDepth := b.maxDepth }

/-- Execute the top level of a module. -/
def load (b : Budget) (m : Module) : Except Halt State :=
  match execBlock (callAt b.maxDepth) none m.body (State.initial b) with
  | .ok _ s => .ok s
  | .error (.halt h) _ => .error h
  | .error (.raise e) _ =>
    .error (.unsupported ("module-level code raised " ++ e.text))

/-- Call a function by its name, with all the fuel of the budget. -/
def State.call (b : Budget) (name : String) (args : List Value) (s : State) :
    Except Halt Outcome × State :=
  match s.globals.get? name with
  | some (.function r) =>
    match callAt b.maxDepth (.function r) args [] { s with fuel := b.fuel, depth := 0 } with
    | .ok v t => (.ok (.returned v), t)
    | .error (.raise e) t => (.ok (.raised e), t)
    | .error (.halt h) t => (.error h, t)
  | _ => (.error (.missingFunction name), s)

end Concord.Machine
