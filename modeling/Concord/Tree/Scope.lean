import Concord.Tree.Walk
import Concord.Text.Names

/-!
# Scopes

Which names a block binds and declares, and which names a module reads where no definition can reach
them. A function is walked in statement order: branches merge by union, a loop body sees its own
bindings, and a nested function sees every binding of the function around it.
-/

namespace Concord

/-- Names that are bound before any statement runs. -/
def builtinNames : List String :=
  ["ArithmeticError", "AssertionError", "AttributeError", "Exception", "IndexError", "KeyError",
    "LookupError", "NotImplemented", "NotImplementedError", "OverflowError", "RecursionError",
    "RuntimeError", "StopIteration", "TypeError", "ValueError", "ZeroDivisionError", "__name__",
    "abs", "all", "any", "ascii", "bin", "bool", "bytes", "callable", "chr", "dict", "divmod",
    "enumerate", "filter", "float", "format", "frozenset", "getattr", "hasattr", "hash", "hex",
    "id", "input", "int", "isinstance", "issubclass", "iter", "len", "list", "map", "max", "min",
    "next", "object", "oct", "open", "ord", "pow", "print", "range", "repr", "reversed", "round",
    "set", "setattr", "slice", "sorted", "str", "sum", "super", "tuple", "type", "zip"]

/-- Whether a name is bound before any statement runs. -/
def isBuiltin (n : String) : Bool := builtinNames.contains n

namespace Expr

mutual

/-- The names bound by an assignment target, from left to right, with repetitions. -/
def targetNames : Expr → List String
  | .name n => [n]
  | .tuple items => targetNamesList items
  | .list items => targetNamesList items
  | .starred a => targetNames a
  | _ => []

/-- `targetNames` along a list. -/
def targetNamesList : List Expr → List String
  | [] => []
  | e :: es => targetNames e ++ targetNamesList es

end

end Expr

namespace Stmt

mutual

/-- The names a statement declares to belong to an outer scope; nested functions are not
entered. -/
def declared : Stmt → List String
  | .globals ns => ns
  | .nonlocals ns => ns
  | .cond _ body orelse => declaredList body ++ declaredList orelse
  | .forLoop _ _ body orelse => declaredList body ++ declaredList orelse
  | .whileLoop _ body orelse => declaredList body ++ declaredList orelse
  | .tryBlock body hs orelse final =>
    declaredList body ++ (declaredHandlers hs ++ (declaredList orelse ++ declaredList final))
  | _ => []

/-- `declared` along a block. -/
def declaredList : List Stmt → List String
  | [] => []
  | s :: ss => declared s ++ declaredList ss

/-- `declared` in exception handlers. -/
def declaredHandlers : List (HandlerOf Stmt) → List String
  | [] => []
  | ⟨_, _, body⟩ :: hs => declaredList body ++ declaredHandlers hs

end

section Bound

variable (withVerbatim : Bool)

mutual

/-- The names a statement binds in its own scope, with repetitions. Nested functions, lambdas and
comprehensions are scopes of their own; constructs kept as written count where asked for. -/
def bound : Stmt → List String
  | .define ⟨name, _, _, _, _, _⟩ => [name]
  | .assign ts _ _ => Expr.targetNamesList ts
  | .augAssign t _ _ => t.targetNames
  | .forLoop t _ body orelse => t.targetNames ++ (boundList body ++ boundList orelse)
  | .cond _ body orelse => boundList body ++ boundList orelse
  | .whileLoop _ body orelse => boundList body ++ boundList orelse
  | .tryBlock body hs orelse final =>
    boundList body ++ (boundHandlers hs ++ (boundList orelse ++ boundList final))
  | .importNames ns => ns.map Alias.boundName
  | .importFrom _ ns => ns.map Alias.boundName
  | .verbatim _ _ binds => if withVerbatim then binds else []
  | _ => []

/-- `bound` along a block. -/
def boundList : List Stmt → List String
  | [] => []
  | s :: ss => bound s ++ boundList ss

/-- `bound` in exception handlers: the name of each before its body. -/
def boundHandlers : List (HandlerOf Stmt) → List String
  | [] => []
  | ⟨_, name, body⟩ :: hs => name.toList ++ (boundList body ++ boundHandlers hs)

end

end Bound

end Stmt

namespace Block

/-- The names declared `global` or `nonlocal` directly in a block. -/
def declaredOuter (b : Block) : List String := Names.ofList (Stmt.declaredList b)

/-- The names bound anywhere in a block, in the order of their first binding. -/
def boundNames (withVerbatim : Bool) (b : Block) : List String :=
  Names.append [] (Stmt.boundList withVerbatim b)

/-- The identifiers that occur anywhere in a block. -/
def names (b : Block) : List String := Names.ofList (Block.nameOccurrences b)

end Block

/-- The identifiers that occur anywhere in an expression. -/
def Expr.names (e : Expr) : List String := Names.ofList e.nameOccurrences

/-- The names bound at the top level of a module, which every function sees. -/
def Module.globals (m : Module) : List String := Names.ofList (m.body.boundNames true)

/-! ### Reads that no definition reaches -/

namespace Expr

mutual

/-- The names read by an expression that are not among the defined ones. -/
def reads : Expr → List String → List String
  | .name n, defined => if defined.contains n then [] else [n]
  | .bin _ l r, defined => reads l defined ++ reads r defined
  | .unary _ a, defined => reads a defined
  | .logic _ l r, defined => reads l defined ++ reads r defined
  | .compare l links, defined => reads l defined ++ readsLinks links defined
  | .call f args, defined => reads f defined ++ readsArgs args defined
  | .attribute a _, defined => reads a defined
  | .subscript a i, defined => reads a defined ++ reads i defined
  | .slice a b c, defined =>
    readsOption a defined ++ (readsOption b defined ++ readsOption c defined)
  | .list items, defined => readsList items defined
  | .tuple items, defined => readsList items defined
  | .set items, defined => readsList items defined
  | .dict entries, defined => readsEntries entries defined
  | .comp _ e v clauses, defined =>
    -- The first iterable is evaluated outside the scope of the comprehension.
    let (found, inner) := readsClauses clauses (some defined) defined
    found ++ (reads e inner ++ readsOption v inner)
  | .ifExp t a b, defined => reads t defined ++ (reads a defined ++ reads b defined)
  | .lambda ps b, defined =>
    readsParams ps defined ++ reads b (Names.union (ps.map (·.name)) defined)
  | .starred a, defined => reads a defined
  | .int _, _ | .float _, _ | .str _, _ | .bool _, _ | .none, _ | .verbatim _, _ => []

/-- `reads` of an optional expression. -/
def readsOption : Option Expr → List String → List String
  | Option.none, _ => []
  | some e, defined => reads e defined

/-- `reads` along a list. -/
def readsList : List Expr → List String → List String
  | [], _ => []
  | e :: es, defined => reads e defined ++ readsList es defined

/-- `reads` of the right operands of a comparison. -/
def readsLinks : List (CmpOp × Expr) → List String → List String
  | [], _ => []
  | (_, e) :: ls, defined => reads e defined ++ readsLinks ls defined

/-- `reads` of arguments. -/
def readsArgs : List (ArgOf Expr) → List String → List String
  | [], _ => []
  | .positional e :: as, defined => reads e defined ++ readsArgs as defined
  | .keyword _ e :: as, defined => reads e defined ++ readsArgs as defined
  | .star e :: as, defined => reads e defined ++ readsArgs as defined
  | .doubleStar e :: as, defined => reads e defined ++ readsArgs as defined

/-- `reads` of the entries of a dictionary display. -/
def readsEntries : List (Expr × Expr) → List String → List String
  | [], _ => []
  | (k, v) :: es, defined => reads k defined ++ (reads v defined ++ readsEntries es defined)

/-- `reads` of comprehension clauses, with the names defined after them. The first iterable is read
with the names of `outer`, if they are given, and the others with those bound so far. -/
def readsClauses :
    List (ClauseOf Expr) → Option (List String) → List String → List String × List String
  | [], _, defined => ([], defined)
  | ⟨target, iter, ifs⟩ :: cs, outer, defined =>
    let (inTarget, bound) := readsTarget target (reads target) defined
    let (further, inner) := readsClauses cs Option.none bound
    (reads iter (outer.getD defined) ++ (inTarget ++ (readsList ifs bound ++ further)), inner)

/-- `reads` of parameter defaults. -/
def readsParams : List (ParamOf Expr) → List String → List String
  | [], _ => []
  | ⟨_, _, default, _⟩ :: ps, defined => readsOption default defined ++ readsParams ps defined

/-- Bind a target from left to right: the names read on the way and the names defined afterwards.
The second argument gives the reads of the target taken as an expression. -/
def readsTarget :
    Expr → (List String → List String) → List String → List String × List String
  | .name n, _, defined => ([], Names.insert n defined)
  | .tuple items, _, defined => readsTargets items defined
  | .list items, _, defined => readsTargets items defined
  | .starred a, _, defined => readsTarget a (reads a) defined
  | _, own, defined => (own defined, defined)

/-- `readsTarget` along a list. -/
def readsTargets : List Expr → List String → List String × List String
  | [], defined => ([], defined)
  | e :: es, defined =>
    let (first, bound) := readsTarget e (reads e) defined
    let (rest, bound) := readsTargets es bound
    (first ++ rest, bound)

end

/-- Bind an assignment target: the names read on the way and the names defined afterwards. -/
def bindTarget (e : Expr) (defined : List String) : List String × List String :=
  readsTarget e (reads e) defined

end Expr

namespace Stmt

mutual

/-- Walk a statement: the names it reads before they are defined, and the names defined after it.
`locals` are all names of the enclosing function, which nested functions see. -/
def reach (locals : List String) : Stmt → List String → List String × List String
  | .define ⟨name, params, body, decorators, _, _⟩, defined =>
    let outside := Expr.readsList decorators defined ++ Expr.readsParams params defined
    let defined := Names.insert name defined
    let own := (params.filter (!·.kind.isSeparator)).map (·.name)
    let start := Names.union (own ++ declaredList body) (Names.union defined locals)
    let inside := reachList (Names.union (boundList true body) start) body start
    (outside ++ inside.1, defined)
  | .ret v, defined => (Expr.readsOption v defined, defined)
  | .assign ts v _, defined =>
    let (inTargets, bound) := Expr.readsTargets ts defined
    (v.reads defined ++ inTargets, bound)
  | .augAssign t _ v, defined =>
    let (inTarget, bound) := t.bindTarget defined
    (t.reads defined ++ (v.reads defined ++ inTarget), bound)
  | .expr e, defined => (e.reads defined, defined)
  | .cond t body orelse, defined =>
    let yes := reachList locals body defined
    let no := reachList locals orelse defined
    (t.reads defined ++ (yes.1 ++ no.1), Names.union yes.2 (Names.union no.2 defined))
  | .forLoop t i body orelse, defined =>
    let (inTarget, bound) := t.bindTarget defined
    let inner := reachList locals body (Names.union (boundList true body) bound)
    let after := reachList locals orelse inner.2
    (i.reads defined ++ (inTarget ++ (inner.1 ++ after.1)), Names.union after.2 defined)
  | .whileLoop t body orelse, defined =>
    let start := Names.union (boundList true body) defined
    let inner := reachList locals body start
    let after := reachList locals orelse inner.2
    (t.reads start ++ (inner.1 ++ after.1), Names.union after.2 defined)
  | .tryBlock body hs orelse final, defined =>
    let tried := reachList locals body defined
    -- A handler may run after any part of the body.
    let handled := reachHandlers locals (Names.union (boundList true body) defined) hs
    let other := reachList locals orelse tried.2
    let merged := Names.union other.2 (Names.union handled.2 tried.2)
    let last := reachList locals final merged
    (tried.1 ++ (handled.1 ++ (other.1 ++ last.1)), Names.union last.2 defined)
  | .raise e c, defined => (Expr.readsOption e defined ++ Expr.readsOption c defined, defined)
  | .assert t m, defined => (t.reads defined ++ Expr.readsOption m defined, defined)
  | .importNames ns, defined => ([], Names.union (ns.map Alias.boundName) defined)
  | .importFrom _ ns, defined => ([], Names.union (ns.map Alias.boundName) defined)
  | .globals ns, defined => ([], Names.union ns defined)
  | .nonlocals ns, defined => ([], Names.union ns defined)
  | .verbatim _ _ binds, defined => ([], Names.union binds defined)
  | .pass, defined | .break, defined | .continue, defined => ([], defined)

/-- `reach` along a block. -/
def reachList (locals : List String) : List Stmt → List String → List String × List String
  | [], defined => ([], defined)
  | s :: ss, defined =>
    let first := reach locals s defined
    let rest := reachList locals ss first.2
    (first.1 ++ rest.1, rest.2)

/-- `reach` in exception handlers, all of which start from the names of `defined`; the names defined
afterwards are those of any of them. -/
def reachHandlers (locals defined : List String) :
    List (HandlerOf Stmt) → List String × List String
  | [] => ([], [])
  | ⟨type, name, body⟩ :: hs =>
    let one := reachList locals body (Names.union name.toList defined)
    let rest := reachHandlers locals defined hs
    (Expr.readsOption type defined ++ (one.1 ++ rest.1), Names.union one.2 rest.2)

end

end Stmt

/-- The identifiers a module reads where no definition reaches them. -/
def Module.unboundNames (m : Module) : List String :=
  Names.ofList <|
    ((Stmt.reachList m.globals m.body m.globals).1).filter (!isBuiltin ·)

end Concord
