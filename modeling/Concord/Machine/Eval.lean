import Concord.Machine.Method

/-!
# Evaluating expressions

Every expression evaluated costs one unit of fuel, and every item gone through another. How a value is
called is a parameter, so that evaluation follows the structure of the expression.
-/

namespace Concord.Machine

/-- How a value is called with arguments by position and by name. -/
abbrev Call := Value → List Value → Keywords → Exec Value

/-- A bound of a slice: an integer, or none for no bound. -/
def boundOf : Option Value → Except Signal (Option Int)
  | none | some .none => .ok none
  | some v =>
    match v.int? with
    | some i => .ok (some i)
    | none => .error (.error .type "slice indices must be integers or None")

/-- What a comprehension makes of the elements it produced. -/
def comprehended (kind : CompKind) (produced : List (Value × Option Value)) : Exec Value := do
  match kind with
  | .list | .generator => Exec.newList (produced.map (·.1))
  | .set => makeSet (produced.map (·.1))
  | .dict =>
    Exec.newDict (← produced.foldlM
      (fun entries (key, value) => insertEntry entries key (value.getD .none)) [])

/-- Unpack a value into as many items as there are targets. -/
def unpack (targets : List Expr) (value : Value) : Exec (List Value) := do
  if targets.any (· matches .starred _) then throw (.unsupported "starred assignment")
  let values ← iterate value
  if values.length ≠ targets.length then
    throw (.error .value
      s!"expected {targets.length} values to unpack, got {values.length}")
  return values

section

variable (call : Call)

mutual

/-- The value of an expression in a scope. -/
def eval (env : Env) : Expr → Exec Value
  | .name n => do
    Exec.charge 1
    Exec.lookup env n
  | .int i => do
    Exec.charge 1
    return .int i
  | .float x => do
    Exec.charge 1
    return .float x
  | .str lit => do
    Exec.charge 1
    if lit.bytes then throw (.unsupported "bytes") else return .str lit.value
  | .bool b => do
    Exec.charge 1
    return .bool b
  | .none => do
    Exec.charge 1
    return .none
  | .bin op left right => do
    Exec.charge 1
    let left ← eval env left
    let right ← eval env right
    binary op left right
  | .unary op operand => do
    Exec.charge 1
    unary op (← eval env operand)
  | .logic op left right => do
    Exec.charge 1
    let left ← eval env left
    if (← Exec.truthy left) == (op == .or) then return left else eval env right
  | .compare left links => do
    Exec.charge 1
    let left ← eval env left
    evalLinks env left links
  | .call func args => do
    Exec.charge 1
    let callee ← eval env func
    let (positional, keywords) ← evalArgs env args
    call callee positional keywords
  | .attribute value attr => do
    Exec.charge 1
    return .method (← eval env value) attr
  | .subscript value (.slice lower upper step) => do
    Exec.charge 1
    let container ← eval env value
    let lower ← boundOf (← evalOption env lower)
    let upper ← boundOf (← evalOption env upper)
    let step ← boundOf (← evalOption env step)
    getSlice container lower upper step
  | .subscript value index => do
    Exec.charge 1
    let container ← eval env value
    getItem container (← eval env index)
  | .slice _ _ _ => do
    Exec.charge 1
    throw (.unsupported "bare slice")
  | .list items => do
    Exec.charge 1
    Exec.newList (← evalItems env items)
  | .tuple items => do
    Exec.charge 1
    Exec.newTuple (← evalItems env items)
  | .set items => do
    Exec.charge 1
    makeSet (← evalItems env items)
  | .dict entries => do
    Exec.charge 1
    Exec.newDict (← evalEntries env [] entries)
  | .comp kind element value clauses => do
    Exec.charge 1
    let scope ← Exec.newScope { parent := env }
    let leaf : Exec (Value × Option Value) := do
      let key ← eval (some scope) element
      return (key, ← evalOption (some scope) value)
    comprehended kind (← evalClauses (some scope) leaf clauses)
  | .ifExp test body orelse => do
    Exec.charge 1
    if ← Exec.truthy (← eval env test) then eval env body else eval env orelse
  | .lambda params body => do
    Exec.charge 1
    Exec.newClosure
      { name := "<lambda>", params := ← evalParams env params, code := .expr body, env }
  | .starred _ => do
    Exec.charge 1
    throw (.unsupported "starred expression")
  | .verbatim text => do
    Exec.charge 1
    throw (.unsupported text)

/-- The value of an expression that may be missing. -/
def evalOption (env : Env) : Option Expr → Exec (Option Value)
  | none => return none
  | some e => return some (← eval env e)

/-- The values of the items of a display; a starred item gives all its items. -/
def evalItems (env : Env) : List Expr → Exec (List Value)
  | [] => return []
  | .starred inner :: rest => do
    let values ← iterate (← eval env inner)
    return values ++ (← evalItems env rest)
  | item :: rest => do
    let value ← eval env item
    return value :: (← evalItems env rest)

/-- A comparison of a value with those that follow; it ends at the first link that fails. -/
def evalLinks (env : Env) (left : Value) : List (CmpOp × Expr) → Exec Value
  | [] => return .bool true
  | (op, right) :: rest => do
    let right ← eval env right
    if ← compareValues op left right then evalLinks env right rest else return .bool false

/-- The arguments of a call, those by position and those by name. -/
def evalArgs (env : Env) : List Arg → Exec (List Value × Keywords)
  | [] => return ([], [])
  | .positional e :: rest => do
    let value ← eval env e
    let (positional, keywords) ← evalArgs env rest
    return (value :: positional, keywords)
  | .star e :: rest => do
    let values ← iterate (← eval env e)
    let (positional, keywords) ← evalArgs env rest
    return (values ++ positional, keywords)
  | .keyword name e :: rest => do
    let value ← eval env e
    let (positional, keywords) ← evalArgs env rest
    return (positional, (name, value) :: keywords)
  | .doubleStar _ :: _ => throw (.unsupported "** arguments")

/-- The entries of a dictionary display, put after those that are there. -/
def evalEntries (env : Env) (done : Entries) : List (Expr × Expr) → Exec Entries
  | [] => return done
  | (key, value) :: rest => do
    let key ← eval env key
    let value ← eval env value
    evalEntries env (← insertEntry done key value) rest

/-- Parameters with their defaults evaluated. -/
def evalParams (env : Env) : List Param → Exec (List (Param × Option Value))
  | [] => return []
  | ⟨name, kind, default, typeNote⟩ :: rest => do
    let value ← evalOption env default
    return (⟨name, kind, default, typeNote⟩, value) :: (← evalParams env rest)

/-- Whether all conditions hold; it ends at the first that fails. -/
def evalConditions (env : Env) : List Expr → Exec Bool
  | [] => return true
  | e :: rest => do
    if ← Exec.truthy (← eval env e) then evalConditions env rest else return false

/-- Everything that the clauses of a comprehension produce, with `leaf` run for every choice of
items that the conditions let through. -/
def evalClauses (env : Env) (leaf : Exec (Value × Option Value)) :
    List Clause → Exec (List (Value × Option Value))
  | [] => return [← leaf]
  | ⟨target, iter, ifs⟩ :: rest => do
    let items ← iterate (← eval env iter)
    let produced ← items.mapM fun item => do
      assign env target item
      if ← evalConditions env ifs then evalClauses env leaf rest else return []
    return produced.flatten

/-- Assign a value to a target. -/
def assign (env : Env) : Expr → Value → Exec Unit
  | .name n, value => Exec.bind env n value
  | .tuple targets, value => do assignAll env targets (← unpack targets value)
  | .list targets, value => do assignAll env targets (← unpack targets value)
  | .subscript container (.slice _ _ _), _ => do
    let _ ← eval env container
    throw (.unsupported "slice assignment")
  | .subscript container index, value => do
    let container ← eval env container
    setItem container (← eval env index) value
  | _, _ => throw (.unsupported "assignment target")

/-- Assign values to as many targets. -/
def assignAll (env : Env) : List Expr → List Value → Exec Unit
  | target :: targets, value :: values => do
    assign env target value
    assignAll env targets values
  | _, _ => return ()

end

end

end Concord.Machine
