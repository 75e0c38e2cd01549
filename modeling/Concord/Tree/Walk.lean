import Concord.Tree.Basic

/-!
# Walking a tree

Every part of a tree in pre-order. `Expr.subterms` lists an expression and all expressions inside
it; `Stmt.nodes` lists a statement with all statements and expressions inside it, in the order in
which evaluation meets them (the value of an assignment before its targets, the iterable of a loop
before its target). Annotations hold text and are not entered. Searches, counts and name sets are
read off these lists, so an occurrence number means the same node everywhere.
-/

namespace Concord

/-- A part of a tree. -/
inductive Node where
  | stmt (s : Stmt)
  | expr (e : Expr)

namespace Node

/-- The expression, if the part is one. -/
def expr? : Node → Option Expr
  | .expr e => some e
  | .stmt _ => none

/-- The statement, if the part is one. -/
def stmt? : Node → Option Stmt
  | .stmt s => some s
  | .expr _ => none

end Node

namespace Expr

mutual

/-- The expression and everything inside it, in pre-order. -/
def subterms : Expr → List Expr
  | .bin op l r => .bin op l r :: (l.subterms ++ r.subterms)
  | .unary op a => .unary op a :: a.subterms
  | .logic op l r => .logic op l r :: (l.subterms ++ r.subterms)
  | .compare l links => .compare l links :: (l.subterms ++ subtermsLinks links)
  | .call f args => .call f args :: (f.subterms ++ subtermsArgs args)
  | .attribute a n => .attribute a n :: a.subterms
  | .subscript a i => .subscript a i :: (a.subterms ++ i.subterms)
  | .slice a b c =>
    .slice a b c :: (subtermsOption a ++ (subtermsOption b ++ subtermsOption c))
  | .list items => .list items :: subtermsList items
  | .tuple items => .tuple items :: subtermsList items
  | .set items => .set items :: subtermsList items
  | .dict entries => .dict entries :: subtermsEntries entries
  | .comp k e v clauses =>
    .comp k e v clauses :: (e.subterms ++ (subtermsOption v ++ subtermsClauses clauses))
  | .ifExp t a b => .ifExp t a b :: (t.subterms ++ (a.subterms ++ b.subterms))
  | .lambda ps b => .lambda ps b :: (subtermsParams ps ++ b.subterms)
  | .starred a => .starred a :: a.subterms
  | .name n => [.name n]
  | .int v => [.int v]
  | .float v => [.float v]
  | .str lit => [.str lit]
  | .bool b => [.bool b]
  | .none => [.none]
  | .verbatim t => [.verbatim t]

/-- `subterms` of an optional expression. -/
def subtermsOption : Option Expr → List Expr
  | Option.none => []
  | some e => e.subterms

/-- `subterms` of expressions in order. -/
def subtermsList : List Expr → List Expr
  | [] => []
  | e :: es => e.subterms ++ subtermsList es

/-- `subterms` of the right operands of a comparison. -/
def subtermsLinks : List (CmpOp × Expr) → List Expr
  | [] => []
  | (_, e) :: ls => e.subterms ++ subtermsLinks ls

/-- `subterms` of the arguments of a call. -/
def subtermsArgs : List (ArgOf Expr) → List Expr
  | [] => []
  | .positional e :: as => e.subterms ++ subtermsArgs as
  | .keyword _ e :: as => e.subterms ++ subtermsArgs as
  | .star e :: as => e.subterms ++ subtermsArgs as
  | .doubleStar e :: as => e.subterms ++ subtermsArgs as

/-- `subterms` of the entries of a dictionary display, keys before values. -/
def subtermsEntries : List (Expr × Expr) → List Expr
  | [] => []
  | (k, v) :: es => k.subterms ++ (v.subterms ++ subtermsEntries es)

/-- `subterms` of comprehension clauses: iterable, target, conditions. -/
def subtermsClauses : List (ClauseOf Expr) → List Expr
  | [] => []
  | ⟨target, iter, ifs⟩ :: cs =>
    iter.subterms ++ (target.subterms ++ (subtermsList ifs ++ subtermsClauses cs))

/-- `subterms` of parameter defaults. -/
def subtermsParams : List (ParamOf Expr) → List Expr
  | [] => []
  | ⟨_, _, default, _⟩ :: ps => subtermsOption default ++ subtermsParams ps

end

/-- The expressions inside `e` (itself included) that satisfy `p`, in pre-order. -/
def find (p : Expr → Bool) (e : Expr) : List Expr := e.subterms.filter p

/-- The identifiers that occur in an expression, with repetitions. -/
def nameOccurrences (e : Expr) : List String := e.subterms.filterMap asName?

/-- How often the identifier `id` occurs. -/
def countName (id : String) (e : Expr) : Nat := (e.find (·.isName id)).length

/-- Whether the expression is a call. -/
def isCall : Expr → Bool
  | .call _ _ => true
  | _ => false

/-- An expression without calls, so that evaluating it twice shows nothing. -/
def isCallFree (e : Expr) : Bool := !e.subterms.any isCall

/-- Whether the expression is a call of the function named `callee`. -/
def isCallOf (callee : String) : Expr → Bool
  | .call f _ => f.isName callee
  | _ => false

/-- Whether a call of the function named `callee` occurs in the expression. -/
def calls (callee : String) (e : Expr) : Bool := e.subterms.any (isCallOf callee)

end Expr

namespace Stmt

/-- Expressions as nodes. -/
def exprNodes (es : List Expr) : List Node := es.map .expr

mutual

/-- The statement and everything inside it, in pre-order. -/
def nodes : Stmt → List Node
  | .define ⟨name, params, body, decorators, returns, isAsync⟩ =>
    .stmt (.define ⟨name, params, body, decorators, returns, isAsync⟩) ::
      (exprNodes (Expr.subtermsList decorators) ++
        (exprNodes (Expr.subtermsParams params) ++ nodesList body))
  | .ret v => .stmt (.ret v) :: exprNodes (Expr.subtermsOption v)
  | .assign ts v a =>
    .stmt (.assign ts v a) :: exprNodes (v.subterms ++ Expr.subtermsList ts)
  | .augAssign t op v => .stmt (.augAssign t op v) :: exprNodes (t.subterms ++ v.subterms)
  | .expr e => .stmt (.expr e) :: exprNodes e.subterms
  | .cond t body orelse =>
    .stmt (.cond t body orelse) :: (exprNodes t.subterms ++ (nodesList body ++ nodesList orelse))
  | .whileLoop t body orelse =>
    .stmt (.whileLoop t body orelse) ::
      (exprNodes t.subterms ++ (nodesList body ++ nodesList orelse))
  | .forLoop t i body orelse =>
    .stmt (.forLoop t i body orelse) ::
      (exprNodes (i.subterms ++ t.subterms) ++ (nodesList body ++ nodesList orelse))
  | .tryBlock body hs orelse final =>
    .stmt (.tryBlock body hs orelse final) ::
      (nodesList body ++ (nodesHandlers hs ++ (nodesList orelse ++ nodesList final)))
  | .raise e c =>
    .stmt (.raise e c) :: exprNodes (Expr.subtermsOption e ++ Expr.subtermsOption c)
  | .assert t m => .stmt (.assert t m) :: exprNodes (t.subterms ++ Expr.subtermsOption m)
  | .importNames ns => [.stmt (.importNames ns)]
  | .importFrom m ns => [.stmt (.importFrom m ns)]
  | .globals ns => [.stmt (.globals ns)]
  | .nonlocals ns => [.stmt (.nonlocals ns)]
  | .pass => [.stmt .pass]
  | .break => [.stmt .break]
  | .continue => [.stmt .continue]
  | .verbatim k t b => [.stmt (.verbatim k t b)]

/-- `nodes` of a block. -/
def nodesList : List Stmt → List Node
  | [] => []
  | s :: ss => s.nodes ++ nodesList ss

/-- `nodes` of exception handlers: type, then body. -/
def nodesHandlers : List (HandlerOf Stmt) → List Node
  | [] => []
  | ⟨type, _, body⟩ :: hs =>
    exprNodes (Expr.subtermsOption type) ++ (nodesList body ++ nodesHandlers hs)

end

/-- The blocks directly inside a statement, in the order of `nodes`. -/
def childBlocks : Stmt → List Block
  | .define f => [f.body]
  | .cond _ body orelse => [body, orelse]
  | .forLoop _ _ body orelse => [body, orelse]
  | .whileLoop _ body orelse => [body, orelse]
  | .tryBlock body hs orelse final => body :: (hs.map (·.body) ++ [orelse, final])
  | _ => []

end Stmt

namespace Block

/-- Every part of a block, in pre-order. -/
def nodes (b : Block) : List Node := Stmt.nodesList b

/-- Every expression of a block, in pre-order. -/
def exprs (b : Block) : List Expr := (Block.nodes b).filterMap Node.expr?

/-- Every statement of a block, nested ones included, in pre-order. -/
def stmts (b : Block) : List Stmt := (Block.nodes b).filterMap Node.stmt?

/-- The expressions of a block that satisfy `p`, in pre-order. -/
def find (p : Expr → Bool) (b : Block) : List Expr := (Block.exprs b).filter p

/-- How many expressions of a block satisfy `p`. -/
def count (p : Expr → Bool) (b : Block) : Nat := (Block.find p b).length

/-- The identifiers read or written as names anywhere in a block, with repetitions. -/
def nameOccurrences (b : Block) : List String := (Block.exprs b).filterMap Expr.asName?

end Block

end Concord
