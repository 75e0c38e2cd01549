import Concord.Profile.Flow

/-!
# Signatures and effects

The signature of the entry function, and what the functions of a module do besides returning a
value.
-/

namespace Concord

/-- The form of a returned value. -/
def returnForm : Option Expr → String
  | none => "none"
  | some e =>
    match e with
    | .name _ => "name"
    | .int _ | .float _ | .str _ | .bool _ | .none => "literal"
    | .call _ _ => "call"
    | .bin _ _ _ => "arithmetic"
    | .unary .not _ => "negation"
    | .unary _ _ => "arithmetic"
    | .compare _ _ => "comparison"
    | .logic _ _ _ => "boolean"
    | .ifExp _ _ _ => "conditional"
    | .comp _ _ _ _ => "comprehension"
    | .list _ | .tuple _ | .set _ | .dict _ => "collection"
    | .subscript _ _ | .attribute _ _ => "access"
    | _ => "other"

/-- The form of the value that a statement returns. -/
def Stmt.returnForm? : Stmt → Option String
  | .ret v => some (returnForm v)
  | _ => none

/-- The signature of the entry function. -/
def Module.functionContracts (m : Module) : FunctionContracts :=
  let counted : FunctionContracts := { functions := m.functions.length }
  match m.primary? with
  | none => counted
  | some f =>
    { counted with
      arity := f.paramNames.length
      defaults := f.params.countP (·.default.isSome)
      varArgs := f.params.any (·.kind == .varArgs)
      varKwargs := f.params.any (·.kind == .kwArgs)
      annotated := f.returns.isSome || f.params.any (·.typeNote.isSome)
      docstring := f.docstring?.isSome
      returnForms := Names.ofList ((Block.stmts f.body).filterMap Stmt.returnForm?) }

namespace Effect

/-- Functions that read from outside. -/
def ioFunctions : List String := ["input", "open"]

/-- Methods that read from or write to outside. -/
def ioMethods : List String := ["flush", "read", "readline", "readlines", "write", "writelines"]

/-- Methods that change their object. -/
def mutatingMethods : List String :=
  ["add", "append", "clear", "discard", "extend", "insert", "pop", "popitem", "remove", "reverse",
    "setdefault", "sort", "update"]

/-- A call of `print`. -/
def isPrintCall : Expr → Bool
  | .call f _ => f.isName "print"
  | _ => false

/-- A call that reads from or writes to outside. -/
def isIoCall : Expr → Bool
  | .call (.name n) _ => ioFunctions.contains n
  | .call (.attribute _ attr) _ => ioMethods.contains attr
  | _ => false

/-- A call of a method that changes its object. -/
def isMutatingCall : Expr → Bool
  | .call (.attribute _ attr) _ => mutatingMethods.contains attr
  | _ => false

mutual

/-- The attributes and subscripts that an assignment to a target writes. -/
def written : Expr → List Expr
  | .attribute a n => [.attribute a n]
  | .subscript a i => [.subscript a i]
  | .tuple items => writtenList items
  | .list items => writtenList items
  | .starred e => written e
  | _ => []

/-- `written` of several targets. -/
def writtenList : List Expr → List Expr
  | [] => []
  | e :: es => written e ++ writtenList es

end

/-- The attributes and subscripts that a statement itself writes. -/
def writtenBy : Stmt → List Expr
  | .assign targets _ _ => writtenList targets
  | .augAssign target _ _ => written target
  | _ => []

/-- Whether the expression is an attribute. -/
def isAttribute : Expr → Bool
  | .attribute _ _ => true
  | _ => false

/-- How many names a statement declares to belong to a scope outside. -/
def declaredCount : Stmt → Nat
  | .globals ns | .nonlocals ns => ns.length
  | _ => 0

end Effect

/-- The observable effects of the functions of a module. -/
def Module.sideEffects (m : Module) : SideEffects :=
  let writes := m.functionStmts.flatMap Effect.writtenBy
  let prints := m.countExprs Effect.isPrintCall
  let ioCalls := m.countExprs Effect.isIoCall
  let mutatingCalls := m.countExprs Effect.isMutatingCall
  let globalWrites := m.functionStmts.foldl (fun n s => n + Effect.declaredCount s) 0
  let attributeWrites := writes.countP Effect.isAttribute
  let subscriptWrites := writes.countP (!Effect.isAttribute ·)
  { prints, ioCalls, mutatingCalls, globalWrites, attributeWrites, subscriptWrites
    raises := m.countStmts Stmt.isRaise
    isPure := prints == 0 && ioCalls == 0 && mutatingCalls == 0 && globalWrites == 0 &&
      attributeWrites == 0 && subscriptWrites == 0 }

end Concord
