import Concord.Tree.Literal
import Concord.Text.Blank

/-!
# Printing trees

One text for each tree: four blanks of indentation, one blank around operators, and parentheses only
where binding strength asks for them. Formatting and comments of the source text leave no trace.
-/

namespace Concord

namespace Expr

/-- Whether kept text is one literal, with at most three letters before its quote. -/
def looksLikeString (text : List Char) : Bool :=
  let mark := text.takeWhile (!StrLit.isQuote ·)
  mark.length < text.length && mark.length ≤ 3 && mark.all Char.isAlpha

/-- Whether kept text can stand as an operand without parentheses. -/
def isAtomicText (text : List Char) : Bool :=
  (match text with
    | [] => false
    | c :: _ => (StrLit.isQuote c || c.isAlpha) && !text.any Text.isBlank) ||
  looksLikeString text

/-- How tightly a printed expression binds; a higher number binds tighter. -/
def precedence : Expr → Nat
  | .lambda _ _ | .starred _ | .slice _ _ _ => 1
  | .ifExp _ _ _ => 2
  | .logic op _ _ => op.precedence
  | .unary .not _ => 5
  | .compare _ _ => 6
  | .bin op _ _ => op.precedence
  | .unary _ _ => 13
  | .int v => if v < 0 then 13 else 17
  | .float v => if v < 0 then 13 else 17
  | .call _ _ | .attribute _ _ | .subscript _ _ => 16
  | .verbatim t => if isAtomicText t.toList then 17 else 0
  | _ => 17

/-- Put the text of `e` into parentheses where it binds less tightly than `min`. -/
def wrap (min : Nat) (e : Expr) (text : String) : String :=
  if e.precedence < min then "(" ++ text ++ ")" else text

/-- Parts divided by commas. -/
def commas (parts : List String) : String := ", ".intercalate parts

/-- Parts divided by commas, with a comma after a single one. -/
def commasTuple : List String → String
  | [part] => part ++ ","
  | parts => commas parts

/-- The brackets of a comprehension around its inner text. -/
def bracketed : CompKind → String → String
  | .list, t => "[" ++ t ++ "]"
  | .set, t | .dict, t => "\x7b" ++ t ++ "\x7d"
  | .generator, t => "(" ++ t ++ ")"

/-- The least binding strengths of the two operands: the power operator groups to the right. -/
def operandStrengths : BinOp → Nat × Nat
  | .pow => (15, 13)
  | op => (op.precedence, op.precedence + 1)

mutual

/-- The text of an expression where any expression may stand. -/
def text : Expr → String
  | .name n => n
  | .int v => toString v
  | .float v => Literal.writeFloat v
  | .str lit => String.ofList lit.write
  | .bool true => "True"
  | .bool false => "False"
  | .none => "None"
  | .bin op l r =>
    let (left, right) := operandStrengths op
    wrap left l (text l) ++ " " ++ op.symbol ++ " " ++ wrap right r (text r)
  | .unary .not a => "not " ++ wrap 5 a (text a)
  | .unary op a => op.symbol ++ wrap 13 a (text a)
  | .logic op l r =>
    wrap op.precedence l (text l) ++ " " ++ op.symbol ++ " " ++
      wrap (op.precedence + 1) r (text r)
  | .compare l links => wrap 7 l (text l) ++ textLinks links
  | .call f [.positional (.comp .generator e v clauses)] =>
    wrap 16 f (text f) ++ "(" ++ textComp .generator (text e) e (textOption 1 v) (textClauses clauses)
      ++ ")"
  | .call f args => wrap 16 f (text f) ++ "(" ++ commas (textArgs args) ++ ")"
  | .attribute (.int v) n =>
    "(" ++ wrap 16 (.int v) (toString v) ++ ")." ++ n
  | .attribute a n => wrap 16 a (text a) ++ "." ++ n
  | .subscript a (.tuple (i :: is)) =>
    wrap 16 a (text a) ++ "[" ++ commasTuple (wrap 1 i (text i) :: textList is) ++ "]"
  | .subscript a i => wrap 16 a (text a) ++ "[" ++ wrap 1 i (text i) ++ "]"
  | .slice a b Option.none => textOption 2 a ++ ":" ++ textOption 2 b
  | .slice a b (some c) => textOption 2 a ++ ":" ++ textOption 2 b ++ ":" ++ wrap 2 c (text c)
  | .list items => "[" ++ commas (textList items) ++ "]"
  | .tuple items => "(" ++ commasTuple (textList items) ++ ")"
  | .set [] => "set()"
  | .set (i :: is) => "\x7b" ++ commas (wrap 1 i (text i) :: textList is) ++ "\x7d"
  | .dict entries => "\x7b" ++ commas (textEntries entries) ++ "\x7d"
  | .comp kind e v clauses =>
    bracketed kind (textComp kind (text e) e (textOption 1 v) (textClauses clauses))
  | .ifExp t a b =>
    wrap 3 a (text a) ++ " if " ++ wrap 3 t (text t) ++ " else " ++ wrap 2 b (text b)
  | .lambda ps b =>
    let list := commas (textParams false ps)
    (if ps.isEmpty then "lambda" else "lambda " ++ list) ++ ": " ++ wrap 1 b (text b)
  | .starred a => "*" ++ wrap 16 a (text a)
  | .verbatim t => t

/-- The inside of a comprehension, from the texts of its parts. -/
def textComp (kind : CompKind) (element : String) (e : Expr) (value clauses : String) : String :=
  match kind with
  | .dict => wrap 1 e element ++ ": " ++ value ++ clauses
  | _ => wrap 1 e element ++ clauses

/-- The text of an optional expression, empty where there is none. -/
def textOption (min : Nat) : Option Expr → String
  | Option.none => ""
  | some e => wrap min e (text e)

/-- The texts of the items of a display. -/
def textList : List Expr → List String
  | [] => []
  | e :: es => wrap 1 e (text e) :: textList es

/-- The operators and right operands of a comparison. -/
def textLinks : List (CmpOp × Expr) → String
  | [] => ""
  | (op, e) :: ls => " " ++ op.symbol ++ " " ++ wrap 7 e (text e) ++ textLinks ls

/-- The texts of arguments. -/
def textArgs : List (ArgOf Expr) → List String
  | [] => []
  | .positional e :: as => wrap 1 e (text e) :: textArgs as
  | .keyword n e :: as => (n ++ "=" ++ wrap 1 e (text e)) :: textArgs as
  | .star e :: as => ("*" ++ wrap 16 e (text e)) :: textArgs as
  | .doubleStar e :: as => ("**" ++ wrap 16 e (text e)) :: textArgs as

/-- The texts of the entries of a dictionary display. -/
def textEntries : List (Expr × Expr) → List String
  | [] => []
  | (k, v) :: es => (wrap 1 k (text k) ++ ": " ++ wrap 1 v (text v)) :: textEntries es

/-- The clauses of a comprehension. -/
def textClauses : List (ClauseOf Expr) → String
  | [] => ""
  | ⟨target, iter, ifs⟩ :: cs =>
    " for " ++ textTarget target (text target) ++ " in " ++ wrap 3 iter (text iter) ++
      textConditions ifs ++ textClauses cs

/-- The conditions of a comprehension clause. -/
def textConditions : List Expr → String
  | [] => ""
  | e :: es => " if " ++ wrap 3 e (text e) ++ textConditions es

/-- The texts of parameters, with or without their annotations. -/
def textParams (annotated : Bool) : List (ParamOf Expr) → List String
  | [] => []
  | ⟨n, kind, default, typeNote⟩ :: ps =>
    let note := if annotated then typeNote else Option.none
    let tail :=
      (match note with
        | some a => ": " ++ a
        | Option.none => "") ++
      (match default with
        | some d => (if note.isSome then " = " else "=") ++ wrap 1 d (text d)
        | Option.none => "")
    (match kind with
      | .regular => n ++ tail
      | .varArgs => "*" ++ n ++ tail
      | .kwArgs => "**" ++ n ++ tail
      | .keywordOnly => "*"
      | .positionalOnly => "/") :: textParams annotated ps

/-- The text of an assignment target, given its text as an expression: a tuple goes without
parentheses. -/
def textTarget : Expr → String → String
  | .tuple (i :: is), _ => commasTuple (textTarget i (text i) :: textTargets is)
  | .list items, _ => "[" ++ commas (textTargets items) ++ "]"
  | .starred _, own => own
  | e, own => wrap 16 e own

/-- The texts of targets. -/
def textTargets : List Expr → List String
  | [] => []
  | e :: es => textTarget e (text e) :: textTargets es

end

/-- The text of an assignment target. -/
def targetText (e : Expr) : String := textTarget e (text e)

end Expr

/-- The text of an import with its alias. -/
def Alias.text (a : Alias) : String :=
  match a.asName with
  | some n => a.name ++ " as " ++ n
  | none => a.name

namespace Stmt

/-- Move printed lines one level to the right; an empty line stays empty. -/
def indent (lines : List String) : List String :=
  lines.map fun l => if l.isEmpty then l else "    " ++ l

/-- The targets of an assignment, each followed by its equals sign. -/
def targetsText (typeNote : Option String) : List Expr → String
  | [t] =>
    t.targetText ++ (match typeNote with | some a => ": " ++ a | none => "") ++ " = "
  | ts => String.join (ts.map fun t => t.targetText ++ " = ")

/-- Kept text as lines; a blank one becomes empty. -/
def verbatimLines (text : String) : List String :=
  (Text.lines text.toList).map fun l => if Text.allBlank l then "" else String.ofList l

/-- The line that opens an exception handler. -/
def handlerLine (type : Option Expr) (name : Option String) : String :=
  match type, name with
  | some t, some n => "except " ++ t.text ++ " as " ++ n ++ ":"
  | some t, none => "except " ++ t.text ++ ":"
  | none, _ => "except:"

/-- The lines above the body of a function. -/
def headerLines (f : FunctionOf Stmt) : List String :=
  f.decorators.map (fun d => "@" ++ d.text) ++
    [(if f.isAsync then "async " else "") ++ "def " ++ f.name ++ "(" ++
      Expr.commas (Expr.textParams true f.params) ++ ")" ++
      (match f.returns with | some r => " -> " ++ r | none => "") ++ ":"]

mutual

/-- The lines of a statement, at the level of the statement itself. -/
def lines : Stmt → List String
  | .define ⟨name, params, body, decorators, returns, isAsync⟩ =>
    headerLines ⟨name, params, [], decorators, returns, isAsync⟩ ++ indent (bodyLines body)
  | .ret none => ["return"]
  | .ret (some v) => ["return " ++ v.text]
  | .assign ts v a => [targetsText a ts ++ v.text]
  | .augAssign t op v => [t.targetText ++ " " ++ op.symbol ++ "= " ++ v.text]
  | .expr e => [e.text]
  | .cond t body orelse => ("if " ++ t.text ++ ":") :: indent (bodyLines body) ++ elseLines orelse
  | .forLoop t i body orelse =>
    ("for " ++ t.targetText ++ " in " ++ i.text ++ ":") :: indent (bodyLines body) ++
      (if orelse.isEmpty then [] else "else:" :: indent (bodyLines orelse))
  | .whileLoop t body orelse =>
    ("while " ++ t.text ++ ":") :: indent (bodyLines body) ++
      (if orelse.isEmpty then [] else "else:" :: indent (bodyLines orelse))
  | .tryBlock body hs orelse final =>
    "try:" :: indent (bodyLines body) ++ handlersLines hs ++
      (if orelse.isEmpty then [] else "else:" :: indent (bodyLines orelse)) ++
      (if final.isEmpty && !hs.isEmpty then [] else "finally:" :: indent (bodyLines final))
  | .raise none _ => ["raise"]
  | .raise (some e) none => ["raise " ++ e.text]
  | .raise (some e) (some c) => ["raise " ++ e.text ++ " from " ++ c.text]
  | .assert t none => ["assert " ++ t.text]
  | .assert t (some m) => ["assert " ++ t.text ++ ", " ++ m.text]
  | .importNames ns => ["import " ++ Expr.commas (ns.map Alias.text)]
  | .importFrom m ns => ["from " ++ m ++ " import " ++ Expr.commas (ns.map Alias.text)]
  | .globals ns => ["global " ++ Expr.commas ns]
  | .nonlocals ns => ["nonlocal " ++ Expr.commas ns]
  | .pass => ["pass"]
  | .break => ["break"]
  | .continue => ["continue"]
  | .verbatim _ t _ => verbatimLines t

/-- The lines of a block; an empty block is written as `pass`. -/
def bodyLines : List Stmt → List String
  | [] => ["pass"]
  | s :: ss => lines s ++ restLines ss

/-- The lines of the statements after the first. -/
def restLines : List Stmt → List String
  | [] => []
  | s :: ss => lines s ++ restLines ss

/-- The lines of the other branch of a conditional; a conditional that stands alone there continues
the chain. -/
def elseLines : List Stmt → List String
  | [] => []
  | [.cond t body orelse] =>
    ("elif " ++ t.text ++ ":") :: indent (bodyLines body) ++ elseLines orelse
  | s :: ss => "else:" :: indent (lines s ++ restLines ss)

/-- The lines of exception handlers. -/
def handlersLines : List (HandlerOf Stmt) → List String
  | [] => []
  | ⟨type, name, body⟩ :: hs =>
    handlerLine type name :: indent (bodyLines body) ++ handlersLines hs

end

end Stmt

/-- Every line followed by a line feed. -/
def unlines (ls : List String) : String := String.join (ls.map (· ++ "\n"))

/-- The text of a block at the left margin. -/
def Block.text (b : Block) : String := unlines (Stmt.bodyLines b)

namespace Module

/-- The lines of top-level statements: two empty lines stand on both sides of a definition. -/
def spacedLines : Option Stmt → Block → List String
  | _, [] => []
  | before, s :: ss =>
    let gap := match before with
      | some b => if b.isDefinition || s.isDefinition then ["", ""] else []
      | none => []
    gap ++ s.lines ++ spacedLines (some s) ss

/-- The text of a module. -/
def text (m : Module) : String := unlines (spacedLines none m.body)

end Module

end Concord
