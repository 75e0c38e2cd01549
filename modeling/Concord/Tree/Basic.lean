import Concord.Tree.Operator

/-!
# Syntax trees

Expressions, statements and modules of the analysed language. The tree is closed: a construct that
has no node of its own is kept as written (`Expr.verbatim`, `Stmt.verbatim`), so that no source text
is lost between reading and printing.
-/

namespace Concord

/-- A string literal: its decoded value and the two letters before the quote that matter later. -/
structure StrLit where
  value : String
  raw : Bool := false
  bytes : Bool := false
deriving Repr, DecidableEq

/-- The roles a parameter can play; the last two are separators that bind no name. -/
inductive ParamKind where
  | regular | varArgs | kwArgs | keywordOnly | positionalOnly
deriving Repr, DecidableEq

/-- The separators `*` and `/` bind no name. -/
def ParamKind.isSeparator : ParamKind → Bool
  | .keywordOnly | .positionalOnly => true
  | _ => false

/-- A parameter of a function or lambda over expressions `ε`; annotations stay as written. -/
structure ParamOf (ε : Type) where
  name : String
  kind : ParamKind := .regular
  default : Option ε := none
  typeNote : Option String := none
deriving Repr

/-- An argument of a call over expressions `ε`. -/
inductive ArgOf (ε : Type) where
  | positional (value : ε)
  | keyword (name : String) (value : ε)
  | star (value : ε)
  | doubleStar (value : ε)
deriving Repr

/-- The expression an argument passes. -/
def ArgOf.value {ε : Type} : ArgOf ε → ε
  | .positional e | .keyword _ e | .star e | .doubleStar e => e

/-- What a comprehension builds. -/
inductive CompKind where
  | list | set | dict | generator
deriving Repr, DecidableEq

/-- One `for target in iter if …` clause of a comprehension over expressions `ε`. -/
structure ClauseOf (ε : Type) where
  target : ε
  iter : ε
  ifs : List ε
deriving Repr

/-- Expressions. -/
inductive Expr where
  | name (id : String)
  | int (value : Int)
  | float (value : Float)
  | str (lit : StrLit)
  | bool (value : Bool)
  | none
  | bin (op : BinOp) (left right : Expr)
  | unary (op : UnaryOp) (operand : Expr)
  | logic (op : BoolOp) (left right : Expr)
  | compare (left : Expr) (links : List (CmpOp × Expr))
  | call (func : Expr) (args : List (ArgOf Expr))
  | attribute (value : Expr) (attr : String)
  | subscript (value index : Expr)
  | slice (lower upper step : Option Expr)
  | list (items : List Expr)
  | tuple (items : List Expr)
  | set (items : List Expr)
  | dict (entries : List (Expr × Expr))
  | comp (kind : CompKind) (element : Expr) (value : Option Expr) (clauses : List (ClauseOf Expr))
  | ifExp (test body orelse : Expr)
  | lambda (params : List (ParamOf Expr)) (body : Expr)
  | starred (value : Expr)
  | verbatim (text : String)
deriving Repr

abbrev Param := ParamOf Expr
abbrev Arg := ArgOf Expr
abbrev Clause := ClauseOf Expr

instance : Inhabited Expr := ⟨.none⟩

/-- An imported module or member, with the name it is bound to if that is another one. -/
structure Alias where
  name : String
  asName : Option String := none
deriving Repr, DecidableEq

/-- The name an import binds: the alias, or the first segment of the dotted name. -/
def Alias.boundName (a : Alias) : String :=
  match a.asName with
  | some n => n
  | none => String.ofList (a.name.toList.takeWhile (· != '.'))

/-- A function definition whose body holds statements `σ`. -/
structure FunctionOf (σ : Type) where
  name : String
  params : List Param
  body : List σ
  decorators : List Expr := []
  returns : Option String := none
  isAsync : Bool := false
deriving Repr

/-- An `except` clause whose body holds statements `σ`. -/
structure HandlerOf (σ : Type) where
  type : Option Expr
  name : Option String
  body : List σ
deriving Repr

/-- Statements. An `elif` is an `if` that stands alone in the `orelse` of another. -/
inductive Stmt where
  | define (f : FunctionOf Stmt)
  | ret (value : Option Expr)
  | assign (targets : List Expr) (value : Expr) (typeNote : Option String)
  | augAssign (target : Expr) (op : BinOp) (value : Expr)
  | expr (e : Expr)
  | cond (test : Expr) (body orelse : List Stmt)
  | forLoop (target iter : Expr) (body orelse : List Stmt)
  | whileLoop (test : Expr) (body orelse : List Stmt)
  | tryBlock (body : List Stmt) (handlers : List (HandlerOf Stmt)) (orelse final : List Stmt)
  | raise (exc cause : Option Expr)
  | assert (test : Expr) (msg : Option Expr)
  | importNames (names : List Alias)
  | importFrom (source : String) (names : List Alias)
  | globals (names : List String)
  | nonlocals (names : List String)
  | pass
  | break
  | continue
  | verbatim (kind text : String) (binds : List String)
deriving Repr

abbrev Function := FunctionOf Stmt
abbrev Handler := HandlerOf Stmt

/-- A block is a list of statements. -/
abbrev Block := List Stmt

instance : Inhabited Stmt := ⟨.pass⟩

/-- A parsed source text. -/
structure Module where
  body : Block
deriving Repr

/-! ### Queries on expressions -/

namespace Expr

/-- A call of the function named `f` with positional arguments. -/
def callOf (f : String) (args : List Expr) : Expr := .call (.name f) (args.map .positional)

/-- Whether the expression is the identifier `id`. -/
def isName (e : Expr) (id : String) : Bool :=
  match e with
  | .name n => n == id
  | _ => false

/-- The identifier, if the expression is one. -/
def asName? : Expr → Option String
  | .name n => some n
  | _ => Option.none

/-- The arguments, if all of them are positional. -/
def positional? : List Arg → Option (List Expr)
  | [] => some []
  | .positional e :: rest => (positional? rest).map (e :: ·)
  | _ :: _ => Option.none

/-- Callee and arguments of a call of a named function with positional arguments only. -/
def asSimpleCall? : Expr → Option (String × List Expr)
  | .call (.name f) args => (positional? args).map (f, ·)
  | _ => Option.none

/-- Literal constants. -/
def isLiteral : Expr → Bool
  | .int _ | .float _ | .str _ | .bool _ | .none => true
  | _ => false

end Expr

/-! ### Queries on statements, functions and modules -/

namespace Stmt

/-- The kind of a class definition kept as written. -/
def classKind : String := "class_definition"

/-- Whether the statement is a class definition. -/
def isClass : Stmt → Bool
  | .verbatim kind _ _ => kind == classKind
  | _ => false

/-- Whether the statement defines a function or a class. -/
def isDefinition : Stmt → Bool
  | .define _ => true
  | s => s.isClass

/-- Whether the statement is a call of the function `f` whose value is dropped. -/
def isCallTo (s : Stmt) (f : String) : Bool :=
  match s with
  | .expr (.call g _) => g.isName f
  | _ => false

/-- Statements after which control never reaches the next one. -/
def isTerminal : Stmt → Bool
  | .ret _ | .raise _ _ | .break | .continue => true
  | _ => false

/-- A short word for the kind of statement. -/
def kindName : Stmt → String
  | .define _ => "def"
  | .ret _ => "return"
  | .assign _ _ _ => "assign"
  | .augAssign _ _ _ => "augassign"
  | .expr _ => "expr"
  | .cond _ _ _ => "if"
  | .forLoop _ _ _ _ => "for"
  | .whileLoop _ _ _ => "while"
  | .tryBlock _ _ _ _ => "try"
  | .raise _ _ => "raise"
  | .assert _ _ => "assert"
  | .importNames _ | .importFrom _ _ => "import"
  | .globals _ => "global"
  | .nonlocals _ => "nonlocal"
  | .pass => "pass"
  | .break => "break"
  | .continue => "continue"
  | .verbatim _ _ _ => "opaque"

/-- The name and the value, if the statement assigns to one plain name without an annotation. -/
def asNameAssign? : Stmt → Option (String × Expr)
  | .assign [.name n] value none => some (n, value)
  | _ => none

end Stmt

namespace FunctionOf

/-- Names of the parameters that bind one. -/
def paramNames {σ : Type} (f : FunctionOf σ) : List String :=
  (f.params.filter (!·.kind.isSeparator)).map (·.name)

/-- Number of ordinary parameters without a default. -/
def requiredArity {σ : Type} (f : FunctionOf σ) : Nat :=
  (f.params.filter fun p => p.kind == .regular && p.default.isNone).length

/-- The string literal a body starts with. -/
def docstring? (f : Function) : Option String :=
  match f.body with
  | .expr (.str lit) :: _ => some lit.value
  | _ => none

end FunctionOf

namespace Module

/-- Functions defined at the top level, in source order. -/
def functions (m : Module) : List Function :=
  m.body.filterMap fun
    | .define f => some f
    | _ => none

/-- The first top-level function of that name. -/
def function? (m : Module) (name : String) : Option Function :=
  m.functions.find? (·.name == name)

/-- The first top-level function, which is the entry point unless another one is named. -/
def primary? (m : Module) : Option Function := m.functions.head?

/-- The function named `name` if it is given and exists, otherwise the first one. -/
def entry? (m : Module) (name : Option String) : Option Function :=
  (name.bind m.function?).or m.primary?

/-- Whether something is defined at the top level. -/
def hasDefinition (m : Module) : Bool := m.body.any Stmt.isDefinition

/-- Apply `edit` to the first top-level function named `name`; `none` if there is no such function
or the edit declines. -/
def editFunction? (m : Module) (name : String) (edit : Function → Option Function) :
    Option Module :=
  let rec go : Block → Option Block
    | [] => none
    | .define f :: rest =>
      if f.name == name then (edit f).map fun g => .define g :: rest
      else (go rest).map (.define f :: ·)
    | s :: rest => (go rest).map (s :: ·)
  (go m.body).map Module.mk

end Module

end Concord
