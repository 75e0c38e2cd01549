import Concord.Tree.Scope
import Concord.Tree.Printer

/-!
# Normal forms up to local names

`Module.normalize` gives every local name of a top-level function a placeholder `_v0`, `_v1`, … in
the order of binding: parameters first, then locals by first binding, then the scopes of lambdas and
comprehensions as they are reached. Names of top-level functions, globals and builtins stay, so two
functions that differ only in local names have the same normal form.
-/

namespace Concord

/-- The placeholders of one scope; the first entry for a name counts. -/
abbrev Placeholders := List (String × String)

/-- The scopes around a position, innermost first. -/
abbrev Scopes := List Placeholders

namespace Scopes

/-- The placeholder of a name in the innermost scope that binds it. -/
def resolve? (scopes : Scopes) (n : String) : Option String := scopes.findSome? (·.lookup n)

/-- A name as it is written in the normal form. -/
def rename (scopes : Scopes) (n : String) : String := (scopes.resolve? n).getD n

/-- An import as it is written in the normal form: a local one gets its placeholder as alias. -/
def renameAlias (scopes : Scopes) (a : Alias) : Alias :=
  match scopes.resolve? a.boundName with
  | some fresh => { a with asName := some fresh }
  | none => a

end Scopes

/-- The placeholder numbered `k`. -/
def placeholder (k : Nat) : String := "_v" ++ toString k

namespace Normal

/-- Give the next placeholder to every name in order. -/
def assign (ns : List String) (next : Nat) : Placeholders × Nat :=
  ns.foldl (fun (scope, k) n => ((n, placeholder k) :: scope, k + 1)) ([], next)

/-- Give the next placeholder to every parameter that binds a name, and write it there. -/
def assignParams : List Param → Placeholders → Nat → List Param × Placeholders × Nat
  | [], scope, k => ([], scope, k)
  | p :: ps, scope, k =>
    if p.kind.isSeparator then
      let (rest, result) := assignParams ps scope k
      (p :: rest, result)
    else
      let (rest, result) := assignParams ps ((p.name, placeholder k) :: scope) (k + 1)
      ({ p with name := placeholder k } :: rest, result)

/-- Give the next placeholder to every name that is neither bound in the scope nor left out. -/
def assignLocals (outer : List String) : List String → Placeholders → Nat → Placeholders × Nat
  | [], scope, k => (scope, k)
  | n :: ns, scope, k =>
    if outer.contains n || (scope.lookup n).isSome then assignLocals outer ns scope k
    else assignLocals outer ns ((n, placeholder k) :: scope) (k + 1)

mutual

/-- The normal form of an expression, with the number of placeholders in use as state. -/
def expr (scopes : Scopes) : Expr → StateM Nat Expr
  | .name n => pure (.name (scopes.rename n))
  | .int v => pure (.int v)
  | .float v => pure (.float v)
  | .str lit => pure (.str lit)
  | .bool b => pure (.bool b)
  | .none => pure .none
  | .verbatim t => pure (.verbatim t)
  | .bin op l r => return .bin op (← expr scopes l) (← expr scopes r)
  | .unary op a => return .unary op (← expr scopes a)
  | .logic op l r => return .logic op (← expr scopes l) (← expr scopes r)
  | .compare l links => return .compare (← expr scopes l) (← exprLinks scopes links)
  | .call f args => return .call (← expr scopes f) (← exprArgs scopes args)
  | .attribute a n => return .attribute (← expr scopes a) n
  | .subscript a i => return .subscript (← expr scopes a) (← expr scopes i)
  | .slice a b c =>
    return .slice (← exprOption scopes a) (← exprOption scopes b) (← exprOption scopes c)
  | .list items => return .list (← exprList scopes items)
  | .tuple items => return .tuple (← exprList scopes items)
  | .set items => return .set (← exprList scopes items)
  | .dict entries => return .dict (← exprEntries scopes entries)
  | .ifExp t a b => return .ifExp (← expr scopes t) (← expr scopes a) (← expr scopes b)
  | .starred a => return .starred (← expr scopes a)
  | .lambda ps b => do
    let ps ← exprParams scopes ps
    let (ps, scope, k) := assignParams ps [] (← get)
    set k
    return .lambda ps (← expr (scope :: scopes) b)
  | .comp kind e v [] => return .comp kind (← expr ([] :: scopes) e) (← exprOption ([] :: scopes) v) []
  | .comp kind e v (⟨target, iter, ifs⟩ :: clauses) => do
    -- The first iterable is evaluated outside the scope of the comprehension.
    let iter ← expr scopes iter
    let bound := Names.append [] (target.targetNames ++ clauses.flatMap (·.target.targetNames))
    let (scope, k) := assign bound (← get)
    set k
    let target ← expr (scope :: scopes) target
    let ifs ← exprList (scope :: scopes) ifs
    let clauses ← exprClauses (scope :: scopes) clauses
    return .comp kind (← expr (scope :: scopes) e) (← exprOption (scope :: scopes) v)
      (⟨target, iter, ifs⟩ :: clauses)

/-- `expr` under an option. -/
def exprOption (scopes : Scopes) : Option Expr → StateM Nat (Option Expr)
  | none => pure none
  | some e => return some (← expr scopes e)

/-- `expr` along a list. -/
def exprList (scopes : Scopes) : List Expr → StateM Nat (List Expr)
  | [] => pure []
  | e :: es => return (← expr scopes e) :: (← exprList scopes es)

/-- `expr` on the right operands of a comparison. -/
def exprLinks (scopes : Scopes) : List (CmpOp × Expr) → StateM Nat (List (CmpOp × Expr))
  | [] => pure []
  | (op, e) :: ls => return (op, ← expr scopes e) :: (← exprLinks scopes ls)

/-- `expr` on arguments. -/
def exprArgs (scopes : Scopes) : List (ArgOf Expr) → StateM Nat (List (ArgOf Expr))
  | [] => pure []
  | .positional e :: as => return .positional (← expr scopes e) :: (← exprArgs scopes as)
  | .keyword n e :: as => return .keyword n (← expr scopes e) :: (← exprArgs scopes as)
  | .star e :: as => return .star (← expr scopes e) :: (← exprArgs scopes as)
  | .doubleStar e :: as => return .doubleStar (← expr scopes e) :: (← exprArgs scopes as)

/-- `expr` on the entries of a dictionary display. -/
def exprEntries (scopes : Scopes) : List (Expr × Expr) → StateM Nat (List (Expr × Expr))
  | [] => pure []
  | (k, v) :: es =>
    return (← expr scopes k, ← expr scopes v) :: (← exprEntries scopes es)

/-- `expr` on the clauses of a comprehension after the first. -/
def exprClauses (scopes : Scopes) : List (ClauseOf Expr) → StateM Nat (List (ClauseOf Expr))
  | [] => pure []
  | ⟨target, iter, ifs⟩ :: cs => do
    let iter ← expr scopes iter
    let target ← expr scopes target
    let ifs ← exprList scopes ifs
    return ⟨target, iter, ifs⟩ :: (← exprClauses scopes cs)

/-- `expr` on parameter defaults. -/
def exprParams (scopes : Scopes) : List (ParamOf Expr) → StateM Nat (List (ParamOf Expr))
  | [] => pure []
  | ⟨n, kind, default, a⟩ :: ps =>
    return ⟨n, kind, ← exprOption scopes default, a⟩ :: (← exprParams scopes ps)

end

mutual

/-- The normal form of a statement inside a function. -/
def stmt (scopes : Scopes) : Stmt → StateM Nat Stmt
  | .define ⟨name, params, body, decorators, returns, isAsync⟩ => do
    let decorators ← exprList scopes decorators
    let params ← exprParams scopes params
    let (params, scope, k) := assignParams params [] (← get)
    let (scope, k) :=
      assignLocals (Block.declaredOuter body) (Block.boundNames false body) scope k
    set k
    let body ← stmtList (scope :: scopes) body
    return .define ⟨scopes.rename name, params, body, decorators, returns, isAsync⟩
  | .ret v => return .ret (← exprOption scopes v)
  | .assign ts v a => do
    let v ← expr scopes v
    return .assign (← exprList scopes ts) v a
  | .augAssign t op v => return .augAssign (← expr scopes t) op (← expr scopes v)
  | .expr e => return .expr (← expr scopes e)
  | .cond t body orelse =>
    return .cond (← expr scopes t) (← stmtList scopes body) (← stmtList scopes orelse)
  | .whileLoop t body orelse =>
    return .whileLoop (← expr scopes t) (← stmtList scopes body) (← stmtList scopes orelse)
  | .forLoop t i body orelse => do
    let i ← expr scopes i
    return .forLoop (← expr scopes t) i (← stmtList scopes body) (← stmtList scopes orelse)
  | .tryBlock body hs orelse final =>
    return .tryBlock (← stmtList scopes body) (← stmtHandlers scopes hs)
      (← stmtList scopes orelse) (← stmtList scopes final)
  | .raise e c => return .raise (← exprOption scopes e) (← exprOption scopes c)
  | .assert t m => return .assert (← expr scopes t) (← exprOption scopes m)
  | .importNames ns => pure (.importNames (ns.map scopes.renameAlias))
  | .importFrom m ns => pure (.importFrom m (ns.map scopes.renameAlias))
  | .globals ns => pure (.globals ns)
  | .nonlocals ns => pure (.nonlocals (ns.map scopes.rename))
  | .pass => pure .pass
  | .break => pure .break
  | .continue => pure .continue
  | .verbatim k t b => pure (.verbatim k t b)

/-- `stmt` along a block. -/
def stmtList (scopes : Scopes) : List Stmt → StateM Nat (List Stmt)
  | [] => pure []
  | s :: ss => return (← stmt scopes s) :: (← stmtList scopes ss)

/-- `stmt` in exception handlers. -/
def stmtHandlers (scopes : Scopes) : List (HandlerOf Stmt) → StateM Nat (List (HandlerOf Stmt))
  | [] => pure []
  | ⟨type, name, body⟩ :: hs =>
    return ⟨← exprOption scopes type, name.map scopes.rename, ← stmtList scopes body⟩ ::
      (← stmtHandlers scopes hs)

end

/-- The normal form of a top-level statement: only functions change. -/
def topLevel (s : Stmt) : Stmt :=
  match s with
  | .define _ => (stmt [] s 0).1
  | _ => s

end Normal

/-- The module with placeholders for all local names. -/
def Module.normalize (m : Module) : Module := ⟨m.body.map Normal.topLevel⟩

end Concord
