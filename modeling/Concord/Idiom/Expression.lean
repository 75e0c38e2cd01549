import Concord.Tree.Walk
import Concord.Tree.Equality

/-!
# Idioms of expressions

Ways to write an expression that have another form with the same meaning. Each is a predicate on one
expression; strategies and reports count its matches in pre-order.
-/

namespace Concord

namespace Expr

/-- Whether the expression is kept as written. -/
def isVerbatim : Expr → Bool
  | .verbatim _ => true
  | _ => false

/-- Free of calls and of parts kept as written, so that it may be dropped or written twice. -/
def isPure (e : Expr) : Bool := e.isCallFree && (e.find isVerbatim).isEmpty

/-- Whether the expression is spread by an asterisk. -/
def isStarred : Expr → Bool
  | .starred _ => true
  | _ => false

/-- Whether the expression is a comparison. -/
def isComparison : Expr → Bool
  | .compare _ _ => true
  | _ => false

/-- Whether the expression is `True` or `False`. -/
def isBoolLiteral : Expr → Bool
  | .bool _ => true
  | _ => false

/-- Whether the expression is the integer literal `k`. -/
def isInt (k : Int) : Expr → Bool
  | .int v => v == k
  | _ => false

end Expr

namespace Idiom

/-- Whether a comparison of a length with `k` asks for emptiness, if it asks for that or the
opposite. -/
def asksEmpty? : CmpOp → Int → Option Bool
  | .eq, 0 | .lt, 1 | .ltEq, 0 => some true
  | .notEq, 0 | .gt, 0 | .gtEq, 1 => some false
  | _, _ => none

/-- The operand of a comparison of its length with a constant, and whether it asks for
emptiness. -/
def lengthCheck? : Expr → Option (Expr × Bool)
  | .compare left [(op, .int k)] =>
    match left.asSimpleCall? with
    | some (callee, [arg]) => if callee = "len" then (asksEmpty? op k).map (arg, ·) else none
    | _ => none
  | _ => none

/-- A comparison of a length with a constant, in either direction. -/
def isLengthCheck (e : Expr) : Bool := (lengthCheck? e).isSome

/-- A comparison of a length that asks for emptiness. -/
def isEmptyCheck (e : Expr) : Bool := (lengthCheck? e).any (·.2)

/-- A comparison of a length that asks for at least one element. -/
def isNonemptyCheck (e : Expr) : Bool := (lengthCheck? e).any (!·.2)

/-- A negation of something that is no comparison. -/
def isNegatedTruthiness : Expr → Bool
  | .unary .not a => !a.isComparison
  | _ => false

/-- Operators that compare for equality or identity. -/
def isEquality : CmpOp → Bool
  | .eq | .notEq | .same | .notSame => true
  | _ => false

/-- A comparison for equality or identity with exactly one Boolean constant. -/
def isBoolComparison : Expr → Bool
  | .compare left [(op, right)] => isEquality op && (left.isBoolLiteral ^^ right.isBoolLiteral)
  | _ => false

/-- A negation of a single comparison. -/
def isNegatedComparison : Expr → Bool
  | .unary .not (.compare _ [_]) => true
  | _ => false

/-- An operation with the neutral element of its operator. -/
def isIdentity : Expr → Bool
  | .bin .add l r => r.isInt 0 || l.isInt 0
  | .bin .sub _ r => r.isInt 0
  | .bin .mul l r => r.isInt 1 || l.isInt 1
  | .bin .pow _ r => r.isInt 1
  | _ => false

/-- The square of a pure operand by the power operator. -/
def isSquare : Expr → Bool
  | .bin .pow l r => r.isInt 2 && l.isPure
  | _ => false

/-- A pure operand multiplied by itself. -/
def isSelfProduct : Expr → Bool
  | .bin .mul l r => decide (l = r) && l.isPure
  | _ => false

/-- A quotient cut to an integer. -/
def isTruncatingDivision (e : Expr) : Bool :=
  match e.asSimpleCall? with
  | some (callee, [.bin .div _ _]) => callee == "int"
  | _ => false

/-- A chain of an associative operator grouped to the right. -/
def isRightNested : Expr → Bool
  | .bin op _ (.bin inner _ _) => op.isAssociative && inner == op
  | _ => false

/-- A chain of an associative operator grouped to the left. -/
def isLeftNested : Expr → Bool
  | .bin op (.bin inner _ _) _ => op.isAssociative && inner == op
  | _ => false

/-- An operation with a commutative operator. -/
def isCommutative : Expr → Bool
  | .bin op _ _ => op.isCommutative
  | _ => false

/-- A conversion to a list or tuple of one plain argument. -/
def isMaterializing : Expr → Bool
  | .call f [.positional a] => (f.isName "list" || f.isName "tuple") && !a.isStarred
  | _ => false

/-- A conditional expression. -/
def isConditional : Expr → Bool
  | .ifExp _ _ _ => true
  | _ => false

/-- A call of the method `join` of a string literal. -/
def isJoin : Expr → Bool
  | .call (.attribute (.str _) attr) _ => attr == "join"
  | _ => false

/-- A list comprehension. -/
def isListComprehension : Expr → Bool
  | .comp .list _ _ _ => true
  | _ => false

/-- A coarse class of operands. -/
def operandClass (e : Expr) : String :=
  match e with
  | .name _ => "name"
  | .call _ _ => "call"
  | .bin _ _ _ | .unary _ _ => "arith"
  | .subscript _ _ | .attribute _ _ => "access"
  | _ => if e.isLiteral then "literal" else "expr"

/-- The sign of an operand: its position if it is a parameter, else its class. -/
def operandSign (params : List String) (e : Expr) : String :=
  match e.asName?.bind fun n => params.findIdx? (· == n) with
  | some i => "param" ++ toString i
  | none => operandClass e

/-- The signature of a commutative operation, which shows the order of its operands. -/
def signature? (params : List String) : Expr → Option String
  | .bin op l r =>
    if op.isCommutative then
      some (op.symbol ++ ":" ++ operandSign params l ++ "," ++ operandSign params r)
    else none
  | _ => none

end Idiom

end Concord
