import Concord.Machine.Compare
import Concord.Machine.Text

/-!
# State of a run

A run has a bounded supply of fuel and a bounded depth of calls. It ends early by a signal: an
exception, which the program can catch, or a halt, which says nothing about the program's behaviour.
The state changes up to the point where the signal arises and is kept from there.
-/

namespace Concord.Machine

/-- Limits of one run. -/
structure Budget where
  /-- Steps available to one call. -/
  fuel : Nat := 20000
  /-- Deepest nesting of calls of functions that the program defines. -/
  maxDepth : Nat := 40
deriving Repr, DecidableEq

/-- Why a run stops without an outcome. -/
inductive Halt where
  | fuelExhausted
  | depthExceeded (limit : Nat)
  | unsupported (what : String)
  | missingFunction (name : String)
deriving Repr, DecidableEq

/-- The words for a halt. -/
def Halt.message : Halt → String
  | fuelExhausted => "fuel exhausted"
  | depthExceeded limit => "call depth exceeded " ++ limit.repr
  | unsupported what => "unsupported construct: " ++ what
  | missingFunction name => "no function named '" ++ name ++ "'"

/-- What ends an evaluation early. -/
inductive Signal where
  | raise (e : Exception)
  | halt (h : Halt)
deriving Repr, DecidableEq

namespace Signal

/-- An exception of the given class. -/
def error (kind : ExceptionClass) (message : String) : Signal := .raise ⟨kind, message⟩

/-- A construct outside the modelled language. -/
def unsupported (what : String) : Signal := .halt (.unsupported what)

/-- An integer that does not fit in 64 bits. -/
def overflow : Signal := unsupported "integer overflow"

/-- A division by the integer zero. -/
def zeroDivision : Signal := error .zeroDivision "division by zero"

/-- An attribute that a type does not have. -/
def noAttribute (typeName attr : String) : Signal :=
  error .attr s!"'{typeName}' object has no attribute '{attr}'"

/-- A value that cannot be a key or a member. -/
def unhashable (v : Value) : Signal := error .type s!"unhashable type: '{v.typeName}'"

end Signal

/-- Names with their values. -/
abbrev Bindings := List (String × Value)

namespace Bindings

/-- The value of a name. -/
def get? (b : Bindings) (name : String) : Option Value := (b.find? (·.1 == name)).map (·.2)

/-- Give a name a value. -/
def set (name : String) (value : Value) : Bindings → Bindings
  | [] => [(name, value)]
  | (n, v) :: rest => if n == name then (name, value) :: rest else (n, v) :: set name value rest

@[simp] theorem get?_nil (name : String) : get? [] name = none := rfl

theorem get?_cons (n name : String) (v : Value) (b : Bindings) :
    get? ((n, v) :: b) name = if n == name then some v else get? b name := by
  unfold get?
  rw [List.find?_cons]
  cases n == name <;> rfl

theorem get?_set (b : Bindings) (n m : String) (v : Value) :
    (b.set n v).get? m = if n == m then some v else b.get? m := by
  induction b with
  | nil => simp [set, get?_cons]
  | cons p b ih =>
    obtain ⟨k, w⟩ := p
    rw [set]
    by_cases hk : k = n
    · subst hk
      by_cases hm : k = m <;> simp [get?_cons, hm]
    · by_cases hm : k = m
      · subst hm
        simp [get?_cons, hk, Ne.symm hk]
      · simp [get?_cons, hk, hm, ih]

end Bindings

/-- The variables of a call or a comprehension, the scope around it, and the names it declares to
belong elsewhere. -/
structure Scope where
  vars : Bindings := []
  parent : Env := none
  globals : List String := []
  nonlocals : List String := []

/-- The state of a run. -/
structure State where
  fuel : Nat
  maxDepth : Nat
  depth : Nat := 0
  globals : Bindings := []
  /-- Exceptions being handled, the innermost first. -/
  handling : List Exception := []
  heap : Heap := {}
  scopes : Array Scope := #[]

/-- Steps of a run. -/
abbrev Exec := EStateM Signal State

namespace Exec

variable {α : Type}

/-- A result that does not depend on the state. -/
def ofExcept : Except Signal α → Exec α
  | .ok a => pure a
  | .error e => throw e

/-- Turn a failure to order values into an exception of the program. -/
def raising : Except Exception α → Exec α
  | .ok a => pure a
  | .error e => throw (.raise e)

/-- Read something off the heap. -/
def ofHeap (f : Heap → α) : Exec α := fun s => .ok (f s.heap) s

/-- Change the heap. -/
def onHeap (f : Heap → Heap) : Exec Unit := modify fun s => { s with heap := f s.heap }

/-- Run to the end, keeping a signal as a value. -/
def attempt (x : Exec α) : Exec (Except Signal α) := fun s =>
  match x s with
  | .ok a t => .ok (.ok a) t
  | .error e t => .ok (.error e) t

/-- Stop for want of fuel. -/
def exhaust : Exec α := do
  modify fun s => { s with fuel := 0 }
  throw (.halt .fuelExhausted)

/-- Spend units of fuel. With too little left, the rest is lost and the run stops. -/
def charge (units : Nat) : Exec Unit := do
  if (← get).fuel < units then exhaust
  else modify fun s => { s with fuel := s.fuel - units }

/-! ### New values -/

/-- A new list. -/
def newList (items : List Value) : Exec Value := fun s =>
  .ok (.list s.heap.lists.size) { s with heap.lists := s.heap.lists.push items }

/-- A new tuple. -/
def newTuple (items : List Value) : Exec Value := fun s =>
  .ok (.tuple s.heap.tuples.size) { s with heap.tuples := s.heap.tuples.push items }

/-- A new set with members that are known to differ. -/
def newSet (members : List Value) : Exec Value := fun s =>
  .ok (.set s.heap.sets.size) { s with heap.sets := s.heap.sets.push members }

/-- A new dictionary with keys that are known to differ. -/
def newDict (entries : Entries) : Exec Value := fun s =>
  .ok (.dict s.heap.dicts.size) { s with heap.dicts := s.heap.dicts.push entries }

/-- A new function. -/
def newClosure (c : Closure) : Exec Value := fun s =>
  .ok (.function s.heap.closures.size) { s with heap.closures := s.heap.closures.push c }

/-- A new exception. -/
def newException (e : Exception) : Exec Value := fun s =>
  .ok (.exception s.heap.exceptions.size) { s with heap.exceptions := s.heap.exceptions.push e }

/-- A new scope inside another. -/
def newScope (scope : Scope) : Exec Nat := fun s =>
  .ok s.scopes.size { s with scopes := s.scopes.push scope }

/-- Change the items of a list. -/
def setList (r : Ref) (items : List Value) : Exec Unit :=
  onHeap fun h => { h with lists := h.lists.setIfInBounds r items }

/-- Change the members of a set. -/
def setSet (r : Ref) (members : List Value) : Exec Unit :=
  onHeap fun h => { h with sets := h.sets.setIfInBounds r members }

/-- Change the entries of a dictionary. -/
def setDict (r : Ref) (entries : Entries) : Exec Unit :=
  onHeap fun h => { h with dicts := h.dicts.setIfInBounds r entries }

/-- Whether a condition with this value holds. -/
def truthy (v : Value) : Exec Bool := ofHeap (·.truthy v)

/-! ### Names -/

/-- Look a name up in a scope and those around it, going through `n` scopes at most. A scope that
declares the name global ends the search. -/
def lookupLocal (scopes : Array Scope) (name : String) : Nat → Env → Option Value
  | 0, _ | _, none => none
  | n + 1, some i =>
    match scopes[i]? with
    | none => none
    | some scope =>
      if scope.globals.contains name then none
      else (scope.vars.get? name).or (lookupLocal scopes name n scope.parent)

/-- The value of a name: that of the innermost scope that binds it, of the top level, or the
predefined one. -/
def lookup (env : Env) (name : String) : Exec Value := fun s =>
  let found := (lookupLocal s.scopes name (s.scopes.size + 1) env).or
    ((s.globals.get? name).or (Value.predefined? name))
  match found with
  | some v => .ok v s
  | none => .error (.error .name s!"name '{name}' is not defined") s

/-- The nearest scope around that binds a name, going through `n` scopes at most. -/
def binder? (scopes : Array Scope) (name : String) : Nat → Env → Option Nat
  | 0, _ | _, none => none
  | n + 1, some i =>
    match scopes[i]? with
    | none => none
    | some scope =>
      if (scope.vars.get? name).isSome then some i else binder? scopes name n scope.parent

/-- Bind a name at the top level. -/
def bindGlobal (name : String) (value : Value) : Exec Unit :=
  modify fun s => { s with globals := s.globals.set name value }

/-- Bind a name in one scope. -/
def bindIn (i : Nat) (name : String) (value : Value) : Exec Unit :=
  modify fun s => { s with
    scopes := s.scopes.modify i fun scope => { scope with vars := scope.vars.set name value } }

/-- Bind a name: at the top level if the scope declares it global, in the nearest scope around that
binds it if the scope declares it nonlocal and there is one, and in the scope itself otherwise. -/
def bind (env : Env) (name : String) (value : Value) : Exec Unit := do
  match env with
  | none => bindGlobal name value
  | some i =>
    let scopes := (← get).scopes
    let scope := scopes[i]?.getD {}
    if scope.globals.contains name then bindGlobal name value
    else if scope.nonlocals.contains name then
      bindIn ((binder? scopes name (scopes.size + 1) scope.parent).getD i) name value
    else bindIn i name value

/-- Declare names of a scope to belong to the top level. -/
def declareGlobals (env : Env) (names : List String) : Exec Unit :=
  match env with
  | none => pure ()
  | some i => modify fun s => { s with
      scopes := s.scopes.modify i fun scope => { scope with globals := scope.globals ++ names } }

/-- Declare names of a scope to belong to the scopes around it. -/
def declareNonlocals (env : Env) (names : List String) : Exec Unit :=
  match env with
  | none => pure ()
  | some i => modify fun s => { s with
      scopes := s.scopes.modify i fun scope =>
        { scope with nonlocals := scope.nonlocals ++ names } }

end Exec

/-- Failures that do not depend on the state are failures of a run. -/
instance : MonadLift (Except Signal) Exec := ⟨Exec.ofExcept⟩

end Concord.Machine
