import Concord.Profile.Flow

/-!
# Growth, termination and recursion

How the work of the entry function grows with its input, whether loops and recursion end, and how
the function calls itself.
-/

namespace Concord

/-! ### Calls of itself -/

namespace Recursion

/-- How often an expression calls the function `name`. -/
def callsIn (name : String) (e : Expr) : Nat := (e.find (Expr.isCallOf name)).length

/-- How often a statement itself, without the blocks in it, calls the function `name`. -/
def callsOf (name : String) : Stmt → Nat
  | .ret (some e) | .expr e => callsIn name e
  | .assign _ value _ | .augAssign _ _ value => callsIn name value
  | .cond test _ _ | .whileLoop test _ _ => callsIn name test
  | _ => 0

/-- A slice, a floor division or a shift to the right. -/
def isSplit : Expr → Bool
  | .slice _ _ _ => true
  | .bin .floorDiv _ _ | .bin .shiftRight _ _ => true
  | _ => false

/-- Whether an argument of a call is a part of something. -/
def splitsInput : Expr → Bool
  | .call _ args => args.any fun a => !(a.value.find isSplit).isEmpty
  | _ => false

/-- A return that does not call the function `name`. -/
def isBaseCase (name : String) : Stmt → Bool
  | .ret none => true
  | .ret (some value) => callsIn name value == 0
  | _ => false

/-- The greatest number of calls of itself in one statement of a function. -/
def widest (f : Function) : Nat :=
  ((Block.sites (fun _ _ => true) f.body).map fun (b, i) =>
    (b[i]?.map (callsOf f.name)).getD 0).foldl max 0

/-- How a function calls itself. -/
def schemaOf (f : Function) : RecursionSchema :=
  let calls := Idiom.selfCalls f
  if calls.isEmpty then {}
  else
    let width := max (widest f) 1
    { isRecursive := true
      branching := .ofCalls width
      baseCases := (Block.sites (Block.holdsAt (isBaseCase f.name)) f.body).length
      recursiveCalls := calls.length
      divideAndConquer := 2 ≤ width && calls.any splitsInput }

end Recursion

/-- How the entry function calls itself. -/
def Module.recursionSchema (m : Module) : RecursionSchema :=
  (m.primary?.map Recursion.schemaOf).getD {}

/-! ### Depth of loops -/

namespace LoopDepth

mutual

/-- The depth of the comprehensions in an expression that stands inside `depth` loops; every clause
counts as a loop. -/
def ofExpr (depth : Nat) : Expr → Nat
  | .comp _ e v clauses =>
    max (depth + clauses.length)
      (max (ofExpr (depth + clauses.length) e)
        (max (ofOption (depth + clauses.length) v) (ofClauses (depth + clauses.length) clauses)))
  | .bin _ l r => max (ofExpr depth l) (ofExpr depth r)
  | .unary _ a => ofExpr depth a
  | .logic _ l r => max (ofExpr depth l) (ofExpr depth r)
  | .compare l links => max (ofExpr depth l) (ofLinks depth links)
  | .call f args => max (ofExpr depth f) (ofArgs depth args)
  | .attribute a _ => ofExpr depth a
  | .subscript a i => max (ofExpr depth a) (ofExpr depth i)
  | .slice a b c => max (ofOption depth a) (max (ofOption depth b) (ofOption depth c))
  | .list items => ofList depth items
  | .tuple items => ofList depth items
  | .set items => ofList depth items
  | .dict entries => ofEntries depth entries
  | .ifExp t a b => max (ofExpr depth t) (max (ofExpr depth a) (ofExpr depth b))
  | .lambda ps b => max (ofParams depth ps) (ofExpr depth b)
  | .starred a => ofExpr depth a
  | .name _ | .int _ | .float _ | .str _ | .bool _ | .none | .verbatim _ => 0

/-- `ofExpr` of an optional expression. -/
def ofOption (depth : Nat) : Option Expr → Nat
  | none => 0
  | some e => ofExpr depth e

/-- `ofExpr` of expressions. -/
def ofList (depth : Nat) : List Expr → Nat
  | [] => 0
  | e :: es => max (ofExpr depth e) (ofList depth es)

/-- `ofExpr` of the right operands of a comparison. -/
def ofLinks (depth : Nat) : List (CmpOp × Expr) → Nat
  | [] => 0
  | (_, e) :: ls => max (ofExpr depth e) (ofLinks depth ls)

/-- `ofExpr` of the arguments of a call. -/
def ofArgs (depth : Nat) : List (ArgOf Expr) → Nat
  | [] => 0
  | .positional e :: as => max (ofExpr depth e) (ofArgs depth as)
  | .keyword _ e :: as => max (ofExpr depth e) (ofArgs depth as)
  | .star e :: as => max (ofExpr depth e) (ofArgs depth as)
  | .doubleStar e :: as => max (ofExpr depth e) (ofArgs depth as)

/-- `ofExpr` of the entries of a dictionary display. -/
def ofEntries (depth : Nat) : List (Expr × Expr) → Nat
  | [] => 0
  | (k, v) :: es => max (ofExpr depth k) (max (ofExpr depth v) (ofEntries depth es))

/-- `ofExpr` of comprehension clauses. -/
def ofClauses (depth : Nat) : List (ClauseOf Expr) → Nat
  | [] => 0
  | ⟨target, iter, ifs⟩ :: cs =>
    max (ofExpr depth iter) (max (ofExpr depth target) (max (ofList depth ifs) (ofClauses depth cs)))

/-- `ofExpr` of parameter defaults. -/
def ofParams (depth : Nat) : List (ParamOf Expr) → Nat
  | [] => 0
  | ⟨_, _, default, _⟩ :: ps => max (ofOption depth default) (ofParams depth ps)

end

mutual

/-- The greatest number of loops around anything in a statement that stands inside `depth` loops.
The head of a loop counts as inside it. -/
def ofStmt (depth : Nat) : Stmt → Nat
  | .define ⟨_, params, body, decorators, _, _⟩ =>
    max (ofList depth decorators) (max (ofParams depth params) (ofBlock depth body))
  | .forLoop t i body orelse =>
    max (depth + 1) (max (ofExpr (depth + 1) i) (max (ofExpr (depth + 1) t)
      (max (ofBlock (depth + 1) body) (ofBlock (depth + 1) orelse))))
  | .whileLoop t body orelse =>
    max (depth + 1) (max (ofExpr (depth + 1) t)
      (max (ofBlock (depth + 1) body) (ofBlock (depth + 1) orelse)))
  | .cond t body orelse => max (ofExpr depth t) (max (ofBlock depth body) (ofBlock depth orelse))
  | .tryBlock body hs orelse final =>
    max (ofBlock depth body)
      (max (ofHandlers depth hs) (max (ofBlock depth orelse) (ofBlock depth final)))
  | .ret v => ofOption depth v
  | .assign ts v _ => max (ofExpr depth v) (ofList depth ts)
  | .augAssign t _ v => max (ofExpr depth t) (ofExpr depth v)
  | .expr e => ofExpr depth e
  | .raise e c => max (ofOption depth e) (ofOption depth c)
  | .assert t m => max (ofExpr depth t) (ofOption depth m)
  | .importNames _ | .importFrom _ _ | .globals _ | .nonlocals _ | .pass | .break | .continue
  | .verbatim _ _ _ => 0

/-- `ofStmt` of a block. -/
def ofBlock (depth : Nat) : List Stmt → Nat
  | [] => 0
  | s :: ss => max (ofStmt depth s) (ofBlock depth ss)

/-- `ofStmt` of exception handlers. -/
def ofHandlers (depth : Nat) : List (HandlerOf Stmt) → Nat
  | [] => 0
  | ⟨type, _, body⟩ :: hs =>
    max (ofOption depth type) (max (ofBlock depth body) (ofHandlers depth hs))

end

end LoopDepth

namespace Module

/-- The greatest number of loops around anything in the functions of a module. -/
def loopDepth (m : Module) : Nat := (m.functions.map fun f => LoopDepth.ofBlock 0 f.body).foldl max 0

/-- Whether a call sorts. -/
def sorts (m : Module) : Bool := m.callLabels.any fun c => c == "sorted" || c == ".sort"

/-- The growth class: recursion that splits its input, recursion with several calls, nested loops, a
loop or a recursion, sorting, and nothing of this. -/
def growth (m : Module) : String :=
  let schema := m.recursionSchema
  if schema.divideAndConquer then "O(n log n)"
  else if schema.branching = .binary || schema.branching = .multiWay then "O(2^n)"
  else if 2 ≤ m.loopDepth then "O(n^" ++ toString m.loopDepth ++ ")"
  else if m.loopDepth = 1 || 0 < schema.recursiveCalls then "O(n)"
  else if m.sorts then "O(n log n)"
  else "O(1)"

/-- The number of conditions on the clauses of a comprehension. -/
def filtersOf : Expr → Nat
  | .comp _ _ _ clauses => (clauses.flatMap (·.ifs)).length
  | _ => 0

/-- The number of handlers of a statement. -/
def handlersOf : Stmt → Nat
  | .tryBlock _ hs _ _ => hs.length
  | _ => 0

/-- One more than the number of decisions in the functions of a module. -/
def cyclomatic (m : Module) : Nat :=
  1 + m.countStmts Stmt.isCond + m.countStmts Stmt.isLoop + m.countExprs Expr.isLogic +
    m.countExprs Idiom.isConditional + m.functionExprs.foldl (fun n e => n + filtersOf e) 0 +
    m.functionStmts.foldl (fun n s => n + handlersOf s) 0

/-- The growth class and the counts behind it. -/
def complexity (m : Module) : Complexity where
  growth := m.growth
  loopDepth := m.loopDepth
  recursiveCalls := m.recursionSchema.recursiveCalls
  materializations := (Idiom.materializationSites m).length
  cyclomatic := m.cyclomatic

end Module

/-! ### Termination -/

namespace Termination

/-- Whether the statement is a loop over the elements of something. -/
def isBounded : Stmt → Bool
  | .forLoop _ _ _ _ => true
  | _ => false

/-- Whether the statement is a loop with a test. -/
def isUnbounded : Stmt → Bool
  | .whileLoop _ _ _ => true
  | _ => false

/-- Whether the statement is a loop whose test is always true. -/
def isEndless : Stmt → Bool
  | .whileLoop t _ _ => t.isTrueConstant
  | _ => false

/-- Whether the statement is `break`. -/
def isBreak : Stmt → Bool
  | .break => true
  | _ => false

/-- A loop whose test is always true and whose body has no way out of it. -/
def isTrap : Stmt → Bool
  | .whileLoop t body _ =>
    t.isTrueConstant && !Paths.breaksList body &&
      (Block.sites (Block.holdsAt Stmt.isExit) body).isEmpty
  | _ => false

end Termination

/-- Whether the loops and the recursion of a module end. -/
def Module.termination (m : Module) : Termination :=
  let count (p : Stmt → Bool) : Nat := (m.functionSites (Block.holdsAt p)).length
  let schema := m.recursionSchema
  let guarded := m.primary?.all fun f =>
    !schema.isRecursive || 0 < schema.baseCases || Paths.fallsThrough f.body
  { boundedLoops := count Termination.isBounded
    unboundedLoops := count Termination.isUnbounded
    whileTrueLoops := count Termination.isEndless
    breaks := count Termination.isBreak
    indexIterations := (m.functionSites Idiom.isIndexIteration).length
    recursive := schema.isRecursive
    baseCaseGuarded := guarded
    alwaysTerminates := count Termination.isTrap == 0 && guarded }

end Concord
