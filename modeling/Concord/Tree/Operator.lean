/-!
# Operators of the source language

The closed sets of binary, unary, boolean and comparison operators, each with its spelling, and the
binding strengths that decide where a printed expression needs parentheses.
-/

namespace Concord

/-- Arithmetic and bitwise operators that stand between two operands. -/
inductive BinOp where
  | add | sub | mul | div | floorDiv | mod | pow | matMul
  | shiftLeft | shiftRight | bitOr | bitXor | bitAnd
deriving Repr, DecidableEq

namespace BinOp

/-- Every binary operator, once. -/
def all : List BinOp :=
  [add, sub, mul, div, floorDiv, mod, pow, matMul, shiftLeft, shiftRight, bitOr, bitXor, bitAnd]

/-- The spelling of the operator. -/
def symbol : BinOp → String
  | add => "+" | sub => "-" | mul => "*" | div => "/" | floorDiv => "//" | mod => "%"
  | pow => "**" | matMul => "@" | shiftLeft => "<<" | shiftRight => ">>"
  | bitOr => "|" | bitXor => "^" | bitAnd => "&"

/-- The operator spelled by `s`, if there is one. -/
def ofSymbol? (s : String) : Option BinOp := all.find? (·.symbol == s)

/-- How tightly a printed operation binds; a higher number binds tighter. -/
def precedence : BinOp → Nat
  | bitOr => 7
  | bitXor => 8
  | bitAnd => 9
  | shiftLeft | shiftRight => 10
  | add | sub => 11
  | mul | div | floorDiv | mod | matMul => 12
  | pow => 14

/-- Whether numbers may trade places around the operator. -/
def isCommutative : BinOp → Bool
  | add | mul | bitOr | bitXor | bitAnd => true
  | _ => false

/-- Whether a chain of the operator may be regrouped over numbers. -/
def isAssociative (op : BinOp) : Bool := op.isCommutative

theorem ofSymbol?_symbol (op : BinOp) : ofSymbol? op.symbol = some op := by
  cases op <;> decide

end BinOp

/-- Operators that stand before one operand. -/
inductive UnaryOp where
  | neg | pos | invert | not
deriving Repr, DecidableEq

/-- The spelling of the operator. -/
def UnaryOp.symbol : UnaryOp → String
  | .neg => "-" | .pos => "+" | .invert => "~" | .not => "not"

/-- The two short-circuit operators. -/
inductive BoolOp where
  | and | or
deriving Repr, DecidableEq

namespace BoolOp

/-- The keyword of the operator. -/
def symbol : BoolOp → String
  | and => "and" | or => "or"

/-- How tightly a printed operation binds. -/
def precedence : BoolOp → Nat
  | or => 3 | and => 4

end BoolOp

/-- Comparison operators, which chain. -/
inductive CmpOp where
  | eq | notEq | lt | ltEq | gt | gtEq | same | notSame | member | notMember
deriving Repr, DecidableEq

namespace CmpOp

/-- The spelling of the operator. -/
def symbol : CmpOp → String
  | eq => "==" | notEq => "!=" | lt => "<" | ltEq => "<=" | gt => ">" | gtEq => ">="
  | same => "is" | notSame => "is not" | member => "in" | notMember => "not in"

/-- The operator that holds exactly where this one fails. -/
def negated : CmpOp → CmpOp
  | eq => notEq | notEq => eq | lt => gtEq | ltEq => gt | gt => ltEq | gtEq => lt
  | same => notSame | notSame => same | member => notMember | notMember => member

theorem negated_negated (op : CmpOp) : op.negated.negated = op := by cases op <;> rfl

end CmpOp

end Concord
