import Concord.Idiom.Expression
import Concord.Tree.Scope
import Concord.Tree.Edit

/-!
# Idioms of statements

Ways to write a few statements in a row that have another form with the same meaning. Each is a
predicate on a position of a block.
-/

namespace Concord.Idiom

/-! ### Values carried to a return -/

/-- Whether a lambda or a comprehension occurs in an expression. -/
def introducesScope (e : Expr) : Bool :=
  e.subterms.any fun
    | .lambda _ _ | .comp _ _ _ _ => true
    | _ => false

/-- Whether an expression may take up the value assigned to `target` just before it. -/
def isInlinable (consumer : Expr) (target : String) : Bool :=
  consumer.countName target == 1 && !introducesScope consumer &&
    (consumer.isName target || consumer.isCallFree)

/-- How many further assignments to `target` a chain takes up, given the statements before the
return from the last to the first. -/
def furtherLinks (target : String) : Block → Nat
  | later :: earlier :: rest =>
    match later.asNameAssign?, earlier.asNameAssign? with
    | some (_, value), some (name, _) =>
      if name = target && isInlinable value target then furtherLinks target (earlier :: rest) + 1
      else 0
    | _, _ => 0
  | _ => 0

/-- The number of assignments that the return at position `i` can take up. -/
def returnChainLength (block : Block) (i : Nat) : Nat :=
  match block[i]? with
  | some (.ret (some returned)) =>
    let before := (block.take i).reverse
    match before.head?.bind Stmt.asNameAssign? with
    | some (target, _) => if isInlinable returned target then furtherLinks target before + 1 else 0
    | none => 0
  | _ => 0

/-- A return that takes up the assignment before it. -/
def isReturnChain (block : Block) (i : Nat) : Bool := 0 < returnChainLength block i

/-! ### Branches and returns -/

/-- A block that only returns a value. -/
def returnsValue : Block → Bool
  | [.ret (some _)] => true
  | _ => false

/-- A conditional whose branches both return a value, where the second may be the next
statement. -/
def isIfElseReturn (block : Block) (i : Nat) : Bool :=
  match block[i]? with
  | some (.cond _ body orelse) =>
    returnsValue body &&
      (if orelse.isEmpty then
        match block[i + 1]? with
        | some (.ret (some _)) => true
        | _ => false
      else returnsValue orelse)
  | _ => false

/-- A return of a conditional expression. -/
def isReturnConditional (block : Block) (i : Nat) : Bool :=
  match block[i]? with
  | some (.ret (some (.ifExp _ _ _))) => true
  | _ => false

/-- A conditional with an `else` branch although its body always leaves the block. -/
def isElseAfterReturn (block : Block) (i : Nat) : Bool :=
  match block[i]? with
  | some (.cond _ body orelse) => !orelse.isEmpty && body.getLast?.any Stmt.isTerminal
  | _ => false

/-- A call of `print` whose value is dropped. -/
def isPrint (block : Block) (i : Nat) : Bool := block[i]?.any (·.isCallTo "print")

/-! ### Loops that build a value -/

/-- The parts of a loop that builds a value element by element. -/
structure LoopBuild where
  accumulator : String
  target : Expr
  iter : Expr
  element : Expr
  condition : Option Expr

/-- The element and the condition of a loop body with one step in it. -/
def stepOf (step : Stmt → Option Expr) : Block → Option (Expr × Option Expr)
  | [.cond test [inner] []] => (step inner).map (·, some test)
  | [s] => (step s).map (·, none)
  | _ => none

/-- A loop that starts from an initial value and adds elements to it by steps. -/
def loopBuild? (init : Expr → Bool) (step : String → Stmt → Option Expr) (block : Block) (i : Nat) :
    Option LoopBuild := do
  let (accumulator, value) ← (← block[i]?).asNameAssign?
  match ← block[i + 1]? with
  | .forLoop target iter body [] =>
    let (element, condition) ← stepOf (step accumulator) body
    let mentions (e : Expr) : Bool := e.nameOccurrences.contains accumulator
    if init value && !mentions element && !mentions iter && !mentions target &&
        !condition.any mentions then
      some { accumulator, target, iter, element, condition }
    else none
  | _ => none

/-- An empty list display. -/
def isEmptyList : Expr → Bool
  | .list [] => true
  | _ => false

/-- An empty string literal. -/
def isEmptyText : Expr → Bool
  | .str lit => lit.value.isEmpty && !lit.bytes
  | _ => false

/-- The element that a statement appends to the list `acc`. -/
def appended? (acc : String) : Stmt → Option Expr
  | .expr (.call (.attribute value attr) [.positional element]) =>
    if attr = "append" && value.isName acc then some element else none
  | _ => none

/-- The text that a statement adds to the text `acc`. -/
def concatenated? (acc : String) : Stmt → Option Expr
  | .augAssign target .add value => if target.isName acc then some value else none
  | s =>
    match s.asNameAssign? with
    | some (name, .bin .add left right) => if name = acc && left.isName acc then some right else none
    | _ => none

/-- A loop that builds a list by appending. -/
def accumulatorLoop? : Block → Nat → Option LoopBuild := loopBuild? isEmptyList appended?

/-- A loop that builds a text by concatenation. -/
def concatLoop? : Block → Nat → Option LoopBuild := loopBuild? isEmptyText concatenated?

/-- A loop that builds a list by appending. -/
def isAccumulatorLoop (block : Block) (i : Nat) : Bool := (accumulatorLoop? block i).isSome

/-- A loop that builds a text by concatenation. -/
def isConcatLoop (block : Block) (i : Nat) : Bool := (concatLoop? block i).isSome

/-! ### Loops over indices -/

/-- Whether an expression is the element of `sequence` at `index`. -/
def isElement (sequence index : String) : Expr → Bool
  | .subscript value i => value.isName sequence && i.isName index
  | _ => false

/-- Whether a statement of a block assigns to something in which an element occurs. -/
def writesElement (sequence index : String) (body : Block) : Bool :=
  let occurs (e : Expr) : Bool := e.subterms.any (isElement sequence index)
  (Block.stmts body).any fun
    | .assign targets _ _ => targets.any occurs
    | .augAssign target _ _ => occurs target
    | _ => false

/-- The name in `range(len(name))`. -/
def rangeOfLength? (e : Expr) : Option String :=
  match e.asSimpleCall? with
  | some ("range", [arg]) =>
    match arg.asSimpleCall? with
    | some ("len", [.name sequence]) => some sequence
    | _ => none
  | _ => none

/-- The index and the sequence of a loop over all indices of a sequence whose body only reads the
element at the index. -/
def indexIteration? (block : Block) (i : Nat) : Option (String × String) :=
  match block[i]? with
  | some (.forLoop (.name index) iter body []) => do
    let sequence ← rangeOfLength? iter
    let rebound := Block.boundNames true body
    let elements := Block.count (isElement sequence index) body
    let uses := Block.count (·.isName index) body
    if rebound.contains index || rebound.contains sequence || elements == 0 || elements != uses ||
        writesElement sequence index body then none
    else some (index, sequence)
  | _ => none

/-- A loop over the indices of a sequence that could run over its elements. -/
def isIndexIteration (block : Block) (i : Nat) : Bool := (indexIteration? block i).isSome

/-! ### Values that are never read -/

/-- Whether the value assigned to `target` is not read by the statements that follow: the first one
that mentions the name overwrites it without reading it, or none mentions it. -/
def isUnread (target : String) : Block → Bool
  | [] => true
  | later :: rest =>
    if (Block.nameOccurrences [later]).contains target ||
        (Stmt.bound true later).contains target then
      match later.asNameAssign? with
      | some (name, next) => name == target && !next.nameOccurrences.contains target
      | none => false
    else isUnread target rest

/-- The positions in a function's own block of assignments of pure values that are never read. -/
def deadStores (f : Function) : List Nat :=
  let declared := Block.declaredOuter f.body
  (List.range f.body.length).filter fun i =>
    match f.body[i]?.bind Stmt.asNameAssign? with
    | some (target, value) =>
      !declared.contains target && value.isPure && isUnread target (f.body.drop (i + 1))
    | none => false

/-! ### Conversions that are only iterated -/

/-- Functions that only iterate their arguments. -/
def consumers : List String :=
  ["all", "any", "enumerate", "max", "min", "set", "sorted", "sum", "zip"]

/-- The number of expressions in an expression. -/
def size (e : Expr) : Nat := e.subterms.length

/-- Where the iterables of comprehension clauses stand, from an offset on. -/
def clauseOffsets : Nat → List Clause → List Nat
  | _, [] => []
  | at_, c :: cs =>
    at_ :: clauseOffsets (at_ + size c.iter + size c.target + (c.ifs.map size).sum) cs

/-- Where the positional arguments of a call stand, from an offset on. -/
def argOffsets : Nat → List Arg → List Nat
  | _, [] => []
  | at_, .positional e :: as => at_ :: argOffsets (at_ + size e) as
  | at_, a :: as => argOffsets (at_ + size a.value) as

/-- Where, counted in pre-order from a node, the expressions stand that the node only iterates. -/
def iteratedOffsets : Node → List Nat
  | .stmt (.forLoop _ _ _ _) => [1]
  | .stmt _ => []
  | .expr (.comp _ e v cs) => clauseOffsets (1 + size e + (v.map size).getD 0) cs
  | .expr (.call (.name f) args) => if consumers.contains f then argOffsets 2 args else []
  | .expr _ => []

/-- The numbers of those conversions to a list or tuple, among all in the block, whose result is
only iterated. -/
def redundantMaterializations (body : Block) : List Nat :=
  let nodes := (Block.nodes body).zipIdx
  let iterated := nodes.flatMap fun (n, i) => (iteratedOffsets n).map (i + ·)
  let calls := nodes.filterMap fun (n, i) => (n.expr?.filter isMaterializing).map fun _ => i
  (calls.zipIdx.filter fun (i, _) => iterated.contains i).map (·.2)

end Concord.Idiom
