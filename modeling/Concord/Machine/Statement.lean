import Concord.Machine.Eval

/-!
# Executing statements

A statement ends by going on to the next one, by leaving the block, or by a signal. Every statement
costs one unit of fuel.
-/

namespace Concord.Machine

/-- How a statement ends when no signal arises. -/
inductive Flow where
  | next
  | ret (value : Value)
  | break
  | continue

/-- The exception that a raised value stands for. -/
def Heap.raised (h : Heap) : Value → Exception
  | .exceptionType c => ⟨c, ""⟩
  | .exception r => h.exception r
  | _ => ⟨.type, "exceptions must derive from BaseException"⟩

/-- Whether a handler for a value catches an exception. -/
def Heap.catches (h : Heap) (e : Exception) (handler : Value) : Except Signal Bool :=
  let caught (v : Value) : Bool :=
    match v with
    | .exceptionType c => c.catches e.kind
    | _ => false
  match handler with
  | .tuple r => .ok ((h.tuple r).any caught)
  | .exceptionType c => .ok (c.catches e.kind)
  | _ => .error (.error .type
      "catching classes that do not inherit from BaseException is not allowed")

/-! ### Loops

What is left of a loop is the flow of the whole statement if the loop was left early, and nothing if
it ran to its end. -/

/-- The flow after one turn of a loop, if the turn ends the loop. -/
def Flow.exit? : Flow → Option Flow
  | .break => some .next
  | .ret v => some (.ret v)
  | .next | .continue => none

/-- Run a body for every item. -/
def forItems (body : Value → Exec Flow) : List Value → Exec (Option Flow)
  | [] => return none
  | x :: xs => do
    match (← body x).exit? with
    | some exit => return some exit
    | none => forItems body xs

/-- Run a body as long as a test holds. Every test costs fuel, so with more turns than there is fuel
the run stops by itself. -/
def whileHolds (test : Exec Bool) (body : Exec Flow) : Nat → Exec (Option Flow)
  | 0 => Exec.exhaust
  | turns + 1 => do
    if ← test then
      match (← body).exit? with
      | some exit => return some exit
      | none => whileHolds test body turns
    else return none

/-! ### Statements -/

/-- Add items to a list in place, or apply the operator. -/
def augmented (op : BinOp) (current operand : Value) : Exec Value := do
  match current, op with
  | .list r, .add =>
    let extra ← iterate operand
    Exec.setList r ((← Exec.ofHeap (·.list r)) ++ extra)
    return current
  | _, _ => binary op current operand

/-- Handle an exception with a block, during which it counts as being handled. -/
def whileHandling (e : Exception) (block : Exec Flow) : Exec Flow := do
  modify fun s => { s with handling := e :: s.handling }
  let result ← Exec.attempt block
  modify fun s => { s with handling := s.handling.tail }
  Exec.ofExcept result

/-- A block with what comes after it. After a normal end comes `orelse`, after an exception `handle`;
then `final` runs in any case but a halt of the block itself, and what it does wins unless it just
goes on. -/
def guarded (body orelse : Exec Flow) (handle : Exception → Exec Flow)
    (final : Option (Exec Flow)) : Exec Flow := do
  let outcome ← match ← Exec.attempt body with
    | .ok .next => Exec.attempt orelse
    | .ok exit => pure (.ok exit)
    | .error (.raise e) => Exec.attempt (handle e)
    | .error (.halt h) => throw (.halt h)
  match final with
  | none => Exec.ofExcept outcome
  | some final =>
    match ← final with
    | .next => Exec.ofExcept outcome
    | exit => return exit

section

variable (call : Call)

mutual

/-- Execute a statement in a scope. -/
def exec (env : Env) : Stmt → Exec Flow
  | .define ⟨name, params, body, decorators, _, isAsync⟩ => do
    Exec.charge 1
    if !decorators.isEmpty || isAsync then throw (.unsupported "decorated or async function")
    let closure ← Exec.newClosure
      { name, params := ← evalParams call env params, code := .block body, env }
    Exec.bind env name closure
    return .next
  | .ret value => do
    Exec.charge 1
    return .ret ((← evalOption call env value).getD .none)
  | .assign targets value _ => do
    Exec.charge 1
    let value ← eval call env value
    targets.forM fun target => assign call env target value
    return .next
  | .augAssign target op value => do
    Exec.charge 1
    let operand ← eval call env value
    let current ← eval call env target
    assign call env target (← augmented op current operand)
    return .next
  | .expr e => do
    Exec.charge 1
    let _ ← eval call env e
    return .next
  | .cond test body orelse => do
    Exec.charge 1
    if ← Exec.truthy (← eval call env test) then execBlock env body else execBlock env orelse
  | .forLoop target iter body orelse => do
    Exec.charge 1
    let items ← iterate (← eval call env iter)
    let left ← forItems (fun item => do
      assign call env target item
      execBlock env body) items
    match left with
    | some exit => return exit
    | none => execBlock env orelse
  | .whileLoop test body orelse => do
    Exec.charge 1
    let condition : Exec Bool := do Exec.truthy (← eval call env test)
    let left ← whileHolds condition (execBlock env body) ((← get).fuel + 1)
    match left with
    | some exit => return exit
    | none => execBlock env orelse
  | .tryBlock body handlers orelse final => do
    Exec.charge 1
    guarded (execBlock env body) (execBlock env orelse)
      (fun e => execHandlers env e handlers)
      (if final.isEmpty then none else some (execBlock env final))
  | .raise none _ => do
    Exec.charge 1
    match (← get).handling with
    | e :: _ => throw (.raise e)
    | [] => throw (.error .runtime "No active exception to reraise")
  | .raise (some exc) _ => do
    Exec.charge 1
    let value ← eval call env exc
    throw (.raise (← Exec.ofHeap (·.raised value)))
  | .assert test msg => do
    Exec.charge 1
    if ← Exec.truthy (← eval call env test) then return .next
    match ← evalOption call env msg with
    | some value => throw (.error .assertion (← Exec.ofHeap (·.display value)))
    | none => throw (.error .assertion "")
  | .globals names => do
    Exec.charge 1
    Exec.declareGlobals env names
    return .next
  | .nonlocals names => do
    Exec.charge 1
    Exec.declareNonlocals env names
    return .next
  | .pass => do
    Exec.charge 1
    return .next
  | .break => do
    Exec.charge 1
    return .break
  | .continue => do
    Exec.charge 1
    return .continue
  | .importNames _ => do
    Exec.charge 1
    throw (.unsupported "import")
  | .importFrom _ _ => do
    Exec.charge 1
    throw (.unsupported "import")
  | .verbatim kind _ _ => do
    Exec.charge 1
    throw (.unsupported kind)

/-- Execute statements in order until one leaves the block. -/
def execBlock (env : Env) : List Stmt → Exec Flow
  | [] => return .next
  | s :: rest => do
    match ← exec env s with
    | .next => execBlock env rest
    | exit => return exit

/-- Handle an exception by the first handler that catches it; with none, it goes on. -/
def execHandlers (env : Env) (e : Exception) : List Handler → Exec Flow
  | [] => throw (.raise e)
  | ⟨type, name, body⟩ :: rest => do
    let caught ← match ← evalOption call env type with
      | none => pure true
      | some handler => Exec.ofExcept (← Exec.ofHeap (·.catches e handler))
    if caught then
      match name with
      | some name => Exec.bind env name (← Exec.newException e)
      | none => pure ()
      whileHandling e (execBlock env body)
    else execHandlers env e rest

end

end

end Concord.Machine
