import Concord.Tree.Walk

/-!
# Domains of parameters

What kind of values a parameter is probed with, told from how the function uses it. A use as text
outranks one as a sequence, and that one a use as a number; a parameter without any such use is probed
with values of all kinds.
-/

namespace Concord

/-- Kinds of values a parameter is probed with. -/
inductive Domain where
  | numeric | text | sequence | any
deriving Repr, DecidableEq

namespace Domain

/-- The word for a domain. -/
def name : Domain → String
  | numeric => "numeric"
  | text => "text"
  | sequence => "sequence"
  | any => "any"

/-- Methods that only texts have. -/
def textMethods : List String :=
  ["capitalize", "endswith", "find", "isalnum", "isalpha", "isdigit", "islower", "isspace",
    "isupper", "join", "lower", "lstrip", "replace", "rstrip", "split", "startswith", "strip",
    "title", "upper"]

/-- Methods that only lists have. -/
def listMethods : List String :=
  ["append", "clear", "extend", "insert", "pop", "remove", "reverse", "sort"]

/-- Functions of sequences. -/
def sequenceFunctions : List String :=
  ["all", "any", "enumerate", "len", "list", "max", "min", "reversed", "set", "sorted", "sum",
    "tuple", "zip"]

/-- Functions of numbers. -/
def numericFunctions : List String := ["range", "abs"]

/-- The domain of a literal. -/
def ofLiteral? : Expr → Option Domain
  | .str lit => if lit.bytes then none else some text
  | .int _ | .float _ => some numeric
  | .unary .neg operand => (ofLiteral? operand).filter (· == numeric)
  | _ => none

/-- A name used in a way that tells its domain. -/
abbrev Mark := String × Domain

/-- The mark on an expression that is a name. -/
def mark (e : Expr) (d : Domain) : List Mark :=
  match e with
  | .name n => [(n, d)]
  | _ => []

/-- The marks of two expressions that stand together: a name next to a literal. -/
def paired (a b : Expr) : List Mark :=
  let one (a b : Expr) : List Mark := ((ofLiteral? b).map (mark a)).getD []
  one a b ++ one b a

/-- The marks of a comparison. -/
def linkMarks (left : Expr) : List (CmpOp × Expr) → List Mark
  | [] => []
  | (op, right) :: rest =>
    (if op == .member || op == .notMember then mark right sequence else paired left right) ++
      linkMarks right rest

/-- The marks of an expression itself, without those inside it. -/
def exprMarks : Expr → List Mark
  | .call (.attribute value attr) _ =>
    if textMethods.contains attr then mark value text
    else if listMethods.contains attr then mark value sequence
    else []
  | .call (.name callee) args =>
    if sequenceFunctions.contains callee then args.flatMap fun a => mark a.value sequence
    else if numericFunctions.contains callee then args.flatMap fun a => mark a.value numeric
    else []
  | .bin op left right =>
    paired left right ++
      (match op with
      | .sub | .floorDiv | .div | .pow => mark left numeric ++ mark right numeric
      | _ => [])
  | .unary .neg operand => mark operand numeric
  | .compare left links => linkMarks left links
  | .subscript value _ => mark value sequence
  | _ => []

/-- The marks of a part of a tree. -/
def nodeMarks : Node → List Mark
  | .expr e => exprMarks e
  | .stmt (.forLoop _ iter _ _) => mark iter sequence
  | .stmt (.augAssign target _ value) => paired target value
  | .stmt _ => []

/-- The pair of element and container, if a part of a tree is a loop over a name. -/
def element? : Node → Option (String × String)
  | .stmt (.forLoop (.name element) (.name container) _ _) => some (element, container)
  | _ => none

/-- The domain of a name in a body. A name is used as text also where its items are. -/
def ofName (body : Block) (name : String) : Domain :=
  let nodes := Block.nodes body
  let marks := nodes.flatMap nodeMarks
  let elements := nodes.filterMap element?
  let marked (n : String) (d : Domain) : Bool := marks.contains (n, d)
  if marked name text || elements.any (fun (e, c) => c == name && marked e text) then text
  else if marked name sequence then sequence
  else if marked name numeric then numeric
  else any

/-- The domains of parameters of a function. -/
def infer (f : Function) (params : List String) : List Domain := params.map (ofName f.body)

end Domain

/-- The required parameters that can be passed by position; none if a required parameter can only be
passed by name. -/
def FunctionOf.positionalParams? (f : Function) : Option (List String) :=
  let rec go (keywordOnly : Bool) : List Param → Option (List String)
    | [] => some []
    | p :: rest =>
      match p.kind with
      | .keywordOnly | .varArgs => go true rest
      | .regular =>
        if p.default.isSome then go keywordOnly rest
        else if keywordOnly then none
        else (go keywordOnly rest).map (p.name :: ·)
      | _ => go keywordOnly rest
  go false f.params

end Concord
