import Concord.Profile.Value
import Concord.Idiom.Site
import Concord.Tree.Printer

/-!
# Control flow and paths

How a source branches, and how its functions are left. Counts run over everything inside the
top-level functions; the number of paths multiplies over the statements of a block and is capped.
-/

namespace Concord

namespace Stmt

/-- Whether the statement is a conditional. -/
def isCond : Stmt → Bool
  | .cond _ _ _ => true
  | _ => false

/-- Whether the statement is a loop. -/
def isLoop : Stmt → Bool
  | .forLoop _ _ _ _ | .whileLoop _ _ _ => true
  | _ => false

/-- Whether the statement returns. -/
def isReturn : Stmt → Bool
  | .ret _ => true
  | _ => false

/-- Whether the statement raises. -/
def isRaise : Stmt → Bool
  | .raise _ _ => true
  | _ => false

/-- Whether the statement leaves the function. -/
def isExit (s : Stmt) : Bool := s.isReturn || s.isRaise

/-- The test of a conditional or a loop. -/
def branchTest? : Stmt → Option Expr
  | .cond t _ _ | .whileLoop t _ _ => some t
  | _ => none

mutual

/-- The deepest level of nesting in a statement that stands at a level. A conditional that stands
alone in the other branch of one stays at its level; a nested definition does not deepen. -/
def nesting (depth : Nat) : Stmt → Nat
  | .define ⟨_, _, body, _, _, _⟩ => nestingList depth body
  | .cond _ body orelse => max (nestingBody depth body) (nestingElse depth orelse)
  | .forLoop _ _ body orelse => max (nestingBody depth body) (nestingBody depth orelse)
  | .whileLoop _ body orelse => max (nestingBody depth body) (nestingBody depth orelse)
  | .tryBlock body hs orelse final =>
    max (nestingBody depth body)
      (max (nestingHandlers depth hs) (max (nestingBody depth orelse) (nestingBody depth final)))
  | .ret _ | .assign _ _ _ | .augAssign _ _ _ | .expr _ | .raise _ _ | .assert _ _
  | .importNames _ | .importFrom _ _ | .globals _ | .nonlocals _ | .pass | .break | .continue
  | .verbatim _ _ _ => 0

/-- `nesting` of statements that stand at a level. -/
def nestingList (depth : Nat) : List Stmt → Nat
  | [] => 0
  | s :: ss => max (nesting depth s) (nestingList depth ss)

/-- The deepest level in a block inside a statement, empty blocks included. -/
def nestingBody (depth : Nat) : List Stmt → Nat
  | [] => depth + 1
  | s :: ss => max (depth + 1) (max (nesting (depth + 1) s) (nestingList (depth + 1) ss))

/-- The deepest level in the other branch of a conditional. -/
def nestingElse (depth : Nat) : List Stmt → Nat
  | [] => depth + 1
  | [.cond _ body orelse] => max (nestingBody depth body) (nestingElse depth orelse)
  | s :: ss => max (depth + 1) (max (nesting (depth + 1) s) (nestingList (depth + 1) ss))

/-- The deepest level in exception handlers. -/
def nestingHandlers (depth : Nat) : List (HandlerOf Stmt) → Nat
  | [] => 0
  | ⟨_, _, body⟩ :: hs => max (nestingBody depth body) (nestingHandlers depth hs)

end

end Stmt

namespace Expr

/-- Whether the expression is a comprehension. -/
def isComprehension : Expr → Bool
  | .comp _ _ _ _ => true
  | _ => false

/-- Whether the expression joins two others by a short-circuit operator. -/
def isLogic : Expr → Bool
  | .logic _ _ _ => true
  | _ => false

/-- How a called expression is listed: a name, a method, or something computed. -/
def calleeLabel : Expr → String
  | .name n => n
  | .attribute _ attr => "." ++ attr
  | _ => "<dynamic>"

/-- The label of the callee, if the expression is a call. -/
def calleeLabel? : Expr → Option String
  | .call f _ => some f.calleeLabel
  | _ => Option.none

/-- Whether the expression is a constant that counts as true in a test. -/
def isTrueConstant : Expr → Bool
  | .bool b => b
  | .int v => v != 0
  | _ => false

end Expr

namespace Module

/-- Everything inside the top-level functions. -/
def functionNodes (m : Module) : List Node := m.functions.flatMap fun f => Block.nodes f.body

/-- The statements inside the top-level functions. -/
def functionStmts (m : Module) : List Stmt := m.functionNodes.filterMap Node.stmt?

/-- The expressions inside the top-level functions. -/
def functionExprs (m : Module) : List Expr := m.functionNodes.filterMap Node.expr?

/-- The positions inside the top-level functions that satisfy `p`. -/
def functionSites (p : Block → Nat → Bool) (m : Module) : List (Block × Nat) :=
  m.functions.flatMap fun f => Block.sites p f.body

/-- How many expressions inside the top-level functions satisfy `p`. -/
def countExprs (m : Module) (p : Expr → Bool) : Nat := m.functionExprs.countP p

/-- How many statements inside the top-level functions satisfy `p`. -/
def countStmts (m : Module) (p : Stmt → Bool) : Nat := m.functionStmts.countP p

/-- The labels of all calls in order. -/
def callLabels (m : Module) : List String := m.functionExprs.filterMap Expr.calleeLabel?

/-- The printed tests of conditionals and loops in order. -/
def branchTests (m : Module) : List String :=
  (m.functionStmts.filterMap Stmt.branchTest?).map Expr.text

/-- Branches, loops and calls. -/
def controlFlow (enhanced : Bool) (m : Module) : ControlFlow where
  branches := m.countStmts Stmt.isCond
  loops := m.countStmts Stmt.isLoop
  maxNesting := (m.functions.map fun f => Stmt.nestingList 0 f.body).foldl max 0
  returns := m.countStmts Stmt.isReturn
  conditionalExpressions := m.countExprs Idiom.isConditional
  comprehensions := m.countExprs Expr.isComprehension
  calls := m.callLabels
  branchConditions := if enhanced then some m.branchTests else none

end Module

/-! ### Paths -/

namespace Paths

/-- The greatest number of paths that is reported. -/
def cap : Nat := 1024

/-- The greatest number of a machine word, at which sums and products of words stop. -/
def ceiling : Nat := UInt64.size - 1

/-- The sum of two words. -/
def plus (a b : Nat) : Nat := min (a + b) ceiling

/-- The product of two words. -/
def times (a b : Nat) : Nat := min (a * b) ceiling

mutual

/-- The number of paths through a statement. -/
def ofStmt : Stmt → Nat
  | .cond _ body orelse => plus (ofBlock 1 body) (ofBlock 1 orelse)
  | .forLoop _ _ body _ => plus (ofBlock 1 body) 1
  | .whileLoop _ body _ => plus (ofBlock 1 body) 1
  | .tryBlock body hs _ _ => ofHandlers (ofBlock 1 body) hs
  | .define _ | .ret _ | .assign _ _ _ | .augAssign _ _ _ | .expr _ | .raise _ _ | .assert _ _
  | .importNames _ | .importFrom _ _ | .globals _ | .nonlocals _ | .pass | .break | .continue
  | .verbatim _ _ _ => 1

/-- The number of paths through a block after `acc` paths lead to it, capped at every statement. -/
def ofBlock (acc : Nat) : List Stmt → Nat
  | [] => acc
  | s :: ss => ofBlock (min (times acc (ofStmt s)) cap) ss

/-- The number of paths through exception handlers, besides `acc` other ones. -/
def ofHandlers (acc : Nat) : List (HandlerOf Stmt) → Nat
  | [] => acc
  | ⟨_, _, body⟩ :: hs => ofHandlers (plus acc (ofBlock 1 body)) hs

end

mutual

/-- Whether a `break` in the statement leaves the loop around it. -/
def breaks : Stmt → Bool
  | .break => true
  | .cond _ body orelse => breaksList body || breaksList orelse
  | .tryBlock body hs orelse final =>
    breaksList body || breaksHandlers hs || breaksList orelse || breaksList final
  | .define _ | .ret _ | .assign _ _ _ | .augAssign _ _ _ | .expr _ | .forLoop _ _ _ _
  | .whileLoop _ _ _ | .raise _ _ | .assert _ _ | .importNames _ | .importFrom _ _ | .globals _
  | .nonlocals _ | .pass | .continue | .verbatim _ _ _ => false

/-- Whether a `break` in the block leaves the loop around it. -/
def breaksList : List Stmt → Bool
  | [] => false
  | s :: ss => breaks s || breaksList ss

/-- Whether a `break` in the handlers leaves the loop around them. -/
def breaksHandlers : List (HandlerOf Stmt) → Bool
  | [] => false
  | ⟨_, _, body⟩ :: hs => breaksList body || breaksHandlers hs

end

mutual

/-- Whether control may go on after a statement. -/
def goesOn : Stmt → Bool
  | .ret _ | .raise _ _ => false
  | .cond _ body orelse => orelse.isEmpty || fallsThrough body || fallsThrough orelse
  | .whileLoop t body _ => !t.isTrueConstant || breaksList body
  | .tryBlock body hs _ final =>
    (fallsThrough body || anyFallsThrough hs) && fallsThrough final
  | .define _ | .assign _ _ _ | .augAssign _ _ _ | .expr _ | .forLoop _ _ _ _ | .assert _ _
  | .importNames _ | .importFrom _ _ | .globals _ | .nonlocals _ | .pass | .break | .continue
  | .verbatim _ _ _ => true

/-- Whether control may reach the end of a block: its last statement lets it go on. -/
def fallsThrough : List Stmt → Bool
  | [] => true
  | [s] => goesOn s
  | _ :: ss => fallsThrough ss

/-- Whether control may reach the end of a handler. -/
def anyFallsThrough : List (HandlerOf Stmt) → Bool
  | [] => false
  | ⟨_, _, body⟩ :: hs => fallsThrough body || anyFallsThrough hs

end

mutual

/-- The exits in a statement at a level, each with its level. -/
def exits (depth : Nat) : Stmt → List String
  | .ret _ => ["return@" ++ toString depth]
  | .raise _ _ => ["raise@" ++ toString depth]
  | .define ⟨_, _, body, _, _, _⟩ => exitsList (depth + 1) body
  | .cond _ body orelse => exitsList (depth + 1) body ++ exitsList (depth + 1) orelse
  | .forLoop _ _ body orelse => exitsList (depth + 1) body ++ exitsList (depth + 1) orelse
  | .whileLoop _ body orelse => exitsList (depth + 1) body ++ exitsList (depth + 1) orelse
  | .tryBlock body hs orelse final =>
    exitsList (depth + 1) body ++ (exitsHandlers (depth + 1) hs ++
      (exitsList (depth + 1) orelse ++ exitsList (depth + 1) final))
  | .assign _ _ _ | .augAssign _ _ _ | .expr _ | .assert _ _
  | .importNames _ | .importFrom _ _ | .globals _ | .nonlocals _ | .pass | .break | .continue
  | .verbatim _ _ _ => []

/-- The exits in a block at a level. -/
def exitsList (depth : Nat) : List Stmt → List String
  | [] => []
  | s :: ss => exits depth s ++ exitsList depth ss

/-- The exits in exception handlers whose bodies are at a level. -/
def exitsHandlers (depth : Nat) : List (HandlerOf Stmt) → List String
  | [] => []
  | ⟨_, _, body⟩ :: hs => exitsList depth body ++ exitsHandlers depth hs

end

/-- A conditional without another branch that only leaves the function. -/
def isGuard : Stmt → Bool
  | .cond _ [s] [] => s.isExit
  | _ => false

/-- The guards of a function, which its last statement is not. -/
def guards (f : Function) : Nat := f.body.dropLast.countP isGuard

end Paths

/-- Whether the statement at a position satisfies `p`. -/
def Block.holdsAt (p : Stmt → Bool) (b : Block) (i : Nat) : Bool := b[i]?.any p

/-- How the functions of a module are left. -/
def Module.executionPaths (enhanced : Bool) (m : Module) : ExecutionPaths where
  pathCount := (m.functions.map fun f => Paths.ofBlock 1 f.body).foldl
    (fun acc n => min (Paths.plus acc n) Paths.cap) 0
  returnPoints := (m.functionSites (Block.holdsAt Stmt.isReturn)).length
  raisePoints := (m.functionSites (Block.holdsAt Stmt.isRaise)).length
  implicitReturn := m.primary?.any fun f => Paths.fallsThrough f.body
  guardClauses := m.functions.foldl (fun n f => n + Paths.guards f) 0
  elseAfterReturn := (m.functionSites Idiom.isElseAfterReturn).length
  pathSignatures :=
    if enhanced then some (m.functions.flatMap fun f => Paths.exitsList 1 f.body) else none

end Concord
