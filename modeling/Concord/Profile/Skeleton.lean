import Concord.Profile.Flow

/-!
# Operators, tests and layout

Which operators occur and how they are nested, forms of arithmetic and of Boolean tests, and the
kinds of statements with their levels.
-/

namespace Concord

/-! ### Operators -/

/-- Whether the expression is an operation with the operator. -/
def Expr.isBin (op : BinOp) : Expr → Bool
  | .bin o _ _ => o == op
  | _ => false

/-- The operator of a binary operation. -/
def Expr.binOp? : Expr → Option BinOp
  | .bin op _ _ => some op
  | _ => Option.none

/-- The operator of an assignment that updates its target. -/
def Stmt.augOp? : Stmt → Option BinOp
  | .augAssign _ op _ => some op
  | _ => none

namespace Module

/-- The operators of updating assignments. -/
def augOps (m : Module) : List BinOp := m.functionStmts.filterMap Stmt.augOp?

/-- How often each operator symbol occurs, in increasing order of the symbols. -/
def operatorCounts (m : Module) : List (String × Nat) :=
  let symbols := (m.functionExprs.filterMap Expr.binOp? ++ m.augOps).map BinOp.symbol
  (Names.ofList symbols).map fun s => (s, symbols.count s)

/-- Which operators occur, and the order of their operands. -/
def algebraic (m : Module) : Algebraic where
  operators := m.operatorCounts
  commutativeOrders := m.functions.flatMap fun f =>
    (Block.exprs f.body).filterMap (Idiom.signature? f.paramNames)
  identityOperations := m.countExprs Idiom.isIdentity

/-- How often an operator occurs, updating assignments included. -/
def countOp (m : Module) (op : BinOp) : Nat := m.countExprs (Expr.isBin op) + m.augOps.count op

/-- Whether the expression is a call of a function or method that rounds. -/
def isRounding : Expr → Bool
  | .call (.name n) _ | .call (.attribute _ n) _ => ["ceil", "floor", "round"].contains n
  | _ => false

/-- Whether the expression is a number with a fraction. -/
def isFloatLiteral : Expr → Bool
  | .float _ => true
  | _ => false

/-- Division, power and conversion of numbers. -/
def numerical (m : Module) : Numerical where
  trueDivisions := m.countOp .div
  floorDivisions := m.countOp .floorDiv
  truncatingDivisions := m.countExprs Idiom.isTruncatingDivision
  modulos := m.countOp .mod
  powers := m.countOp .pow
  selfMultiplications := m.countExprs Idiom.isSelfProduct
  floatLiterals := m.countExprs isFloatLiteral
  intCasts := m.countExprs (Expr.isCallOf "int")
  floatCasts := m.countExprs (Expr.isCallOf "float")
  roundingCalls := m.countExprs isRounding

end Module

/-! ### Tests -/

/-- The test that a part of a tree makes. -/
def Node.test? : Node → Option Expr
  | .stmt (.cond t _ _) | .stmt (.whileLoop t _ _) | .stmt (.assert t _) => some t
  | .expr (.ifExp t _ _) => some t
  | _ => none

/-- Forms of Boolean tests. -/
def Module.logical (enhanced : Bool) (m : Module) : Logical where
  lengthEmptyChecks := m.countExprs fun e => (Idiom.lengthCheck? e).isSome
  truthinessNegations := m.countExprs Idiom.isNegatedTruthiness
  boolLiteralComparisons := m.countExprs Idiom.isBoolComparison
  negatedComparisons := m.countExprs Idiom.isNegatedComparison
  booleanOperators := m.countExprs Expr.isLogic
  normalizedConditions :=
    if enhanced then some ((m.functionNodes.filterMap Node.test?).map Expr.text) else none

/-! ### Nesting of operators -/

namespace Skeleton

/-- Parts in parentheses with blanks between them. -/
def grouped (parts : List String) : String := "(" ++ " ".intercalate parts ++ ")"

mutual

/-- The operators of an expression with every leaf erased. -/
def ofExpr : Expr → String
  | .bin op l r => grouped [op.symbol, ofExpr l, ofExpr r]
  | .logic op l r => grouped [op.symbol, ofExpr l, ofExpr r]
  | .unary op a => grouped [op.symbol, ofExpr a]
  | .compare l links => grouped (links.map (·.1.symbol) ++ (ofExpr l :: ofLinks links))
  | .call _ args => grouped ("call" :: ofArgs args)
  | .ifExp t a b => grouped ["if", ofExpr t, ofExpr a, ofExpr b]
  | .name _ | .int _ | .float _ | .str _ | .bool _ | .none | .attribute _ _ | .subscript _ _
  | .slice _ _ _ | .list _ | .tuple _ | .set _ | .dict _ | .comp _ _ _ _ | .lambda _ _
  | .starred _ | .verbatim _ => "_"

/-- `ofExpr` of the right operands of a comparison. -/
def ofLinks : List (CmpOp × Expr) → List String
  | [] => []
  | (_, e) :: ls => ofExpr e :: ofLinks ls

/-- `ofExpr` of the arguments of a call. -/
def ofArgs : List (ArgOf Expr) → List String
  | [] => []
  | .positional e :: as => ofExpr e :: ofArgs as
  | .keyword _ e :: as => ofExpr e :: ofArgs as
  | .star e :: as => ofExpr e :: ofArgs as
  | .doubleStar e :: as => ofExpr e :: ofArgs as

end

/-- The operators of the value that a statement computes. -/
def ofStmt : Stmt → Option String
  | .ret (some e) | .expr e | .assign _ e _ => some (ofExpr e)
  | .augAssign _ op e => some (grouped [op.symbol ++ "=", "_", ofExpr e])
  | _ => none

/-- A level and a kind of statement. -/
def entry (depth : Nat) (kind : String) : String := toString depth ++ ":" ++ kind

mutual

/-- The kind of a statement with its level, before those of the statements in it. -/
def layout (depth : Nat) : Stmt → List String
  | .define ⟨_, _, body, _, _, _⟩ => entry depth "def" :: layoutList (depth + 1) body
  | .cond _ body orelse =>
    entry depth "if" :: (layoutList (depth + 1) body ++ layoutList (depth + 1) orelse)
  | .forLoop _ _ body orelse =>
    entry depth "for" :: (layoutList (depth + 1) body ++ layoutList (depth + 1) orelse)
  | .whileLoop _ body orelse =>
    entry depth "while" :: (layoutList (depth + 1) body ++ layoutList (depth + 1) orelse)
  | .tryBlock body hs orelse final =>
    entry depth "try" :: (layoutList (depth + 1) body ++ (layoutHandlers (depth + 1) hs ++
      (layoutList (depth + 1) orelse ++ layoutList (depth + 1) final)))
  | .ret v => [entry depth (Stmt.ret v).kindName]
  | .assign t v a => [entry depth (Stmt.assign t v a).kindName]
  | .augAssign t op v => [entry depth (Stmt.augAssign t op v).kindName]
  | .expr e => [entry depth (Stmt.expr e).kindName]
  | .raise e c => [entry depth (Stmt.raise e c).kindName]
  | .assert t m => [entry depth (Stmt.assert t m).kindName]
  | .importNames ns => [entry depth (Stmt.importNames ns).kindName]
  | .importFrom s ns => [entry depth (Stmt.importFrom s ns).kindName]
  | .globals ns => [entry depth (Stmt.globals ns).kindName]
  | .nonlocals ns => [entry depth (Stmt.nonlocals ns).kindName]
  | .pass => [entry depth Stmt.pass.kindName]
  | .break => [entry depth Stmt.break.kindName]
  | .continue => [entry depth Stmt.continue.kindName]
  | .verbatim k t b => [entry depth (Stmt.verbatim k t b).kindName]

/-- `layout` of a block. -/
def layoutList (depth : Nat) : List Stmt → List String
  | [] => []
  | s :: ss => layout depth s ++ layoutList depth ss

/-- `layout` of the bodies of exception handlers. -/
def layoutHandlers (depth : Nat) : List (HandlerOf Stmt) → List String
  | [] => []
  | ⟨_, _, body⟩ :: hs => layoutList depth body ++ layoutHandlers depth hs

end
end Skeleton

namespace Module

/-- The nesting of operators in every computed value. -/
def operatorPrecedence (m : Module) : List String := m.functionStmts.filterMap Skeleton.ofStmt

/-- The kinds of all statements with their levels. -/
def statementOrdering (m : Module) : List String := Skeleton.layoutList 0 m.body

end Module

end Concord
