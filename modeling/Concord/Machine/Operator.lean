import Concord.Machine.State
import Concord.Text.Search

/-!
# Operators on values

Integer operators are exact or stop the run: floor division rounds down, the remainder has the sign
of the divisor, and a result that does not fit in 64 bits halts. A pair of numbers with a double in it
is computed in doubles. Texts, lists and tuples can be joined and repeated, and sets subtracted.
-/

namespace Concord.Machine

/-- The longest sequence that repetition may build. -/
def maxRepeat : Nat := 100000

/-- An integer result, if it fits. -/
def checked (i : Int) : Except Signal Value :=
  if fits i then .ok (.int i) else .error .overflow

/-- The operands have types that the operator does not take. -/
def unsupportedOperands (op : String) (left right : Value) : Signal :=
  .error .type
    s!"unsupported operand type(s) for {op}: '{left.typeName}' and '{right.typeName}'"

/-- An integer power. Bases other than 0, 1 and -1 leave the range before the 64th power. -/
def intPow (a : Int) (n : Nat) : Except Signal Value :=
  if a.natAbs ≤ 1 then .ok (.int (if n = 0 then 1 else if n % 2 = 0 then a * a else a))
  else if 64 ≤ n then .error .overflow
  else checked (Int.pow a n)

/-- A bitwise operation on the two's complement form. -/
def bitwise (f : BitVec 64 → BitVec 64 → BitVec 64) (a b : Int) : Value :=
  .int (f (BitVec.ofInt 64 a) (BitVec.ofInt 64 b)).toInt

/-- Operators on integers. The remainder is computed along with the quotient, so both have to fit. -/
def intOp (op : BinOp) (a b : Int) : Except Signal Value :=
  match op with
  | .add => checked (a + b)
  | .sub => checked (a - b)
  | .mul => checked (a * b)
  | .div =>
    if b = 0 then .error .zeroDivision else .ok (.float (Float.ofInt a / Float.ofInt b))
  | .floorDiv => if b = 0 then .error .zeroDivision else checked (Int.fdiv a b)
  | .mod =>
    if b = 0 then .error .zeroDivision
    else if fits (Int.fdiv a b) then .ok (.int (Int.fmod a b))
    else .error .overflow
  | .pow =>
    if b < 0 then
      if a = 0 then .error .zeroDivision
      else .ok (.float (Float.pow (Float.ofInt a) (Float.ofInt b)))
    else if 0x100000000 ≤ b then .error .overflow
    else intPow a b.toNat
  | .shiftLeft =>
    if b < 0 then .error (.error .value "negative shift count")
    else if 64 ≤ b then .error .overflow
    else checked (a * Int.pow 2 b.toNat)
  | .shiftRight =>
    if b < 0 then .error (.error .value "negative shift count")
    else .ok (.int (a >>> (min b 63).toNat))
  | .bitOr => .ok (bitwise (· ||| ·) a b)
  | .bitXor => .ok (bitwise (· ^^^ ·) a b)
  | .bitAnd => .ok (bitwise (· &&& ·) a b)
  | .matMul => .error (.error .type "unsupported operand type(s) for @")

/-- Operators on doubles. -/
def floatOp (op : BinOp) (a b : Float) : Except Signal Value :=
  let divided (x : Float) : Except Signal Value :=
    if b == 0 then .error (.error .zeroDivision "float division by zero") else .ok (.float x)
  match op with
  | .add => .ok (.float (a + b))
  | .sub => .ok (.float (a - b))
  | .mul => .ok (.float (a * b))
  | .div => divided (a / b)
  | .floorDiv => divided (a / b).floor
  | .mod => divided (a - b * (a / b).floor)
  | .pow => .ok (.float (Float.pow a b))
  | op => .error (unsupportedOperands op.symbol (.float a) (.float b))

/-- Operators on two numbers. -/
def numberOp (op : BinOp) : Number → Number → Except Signal Value
  | .int a, .int b => intOp op a b
  | a, b => floatOp op a.toFloat b.toFloat

/-- Items repeated a number of times. -/
def repeated {α : Type} (items : List α) (times : Int) : Except Signal (List α) :=
  if items.isEmpty then .ok []
  else if maxRepeat < items.length * times.toNat then .error (.unsupported "oversized repetition")
  else .ok (List.replicate times.toNat items).flatten

/-- A sequence and the number it is to be repeated by. -/
def repetition? (left right : Value) : Option (Value × Number) :=
  let asSequence (v : Value) : Option Value :=
    match v with
    | .str _ | .list _ | .tuple _ => some v
    | _ => none
  match asSequence left, right.number?, asSequence right, left.number? with
  | some items, some n, _, _ => some (items, n)
  | _, _, some items, some n => some (items, n)
  | _, _, _, _ => none

/-- Repeat a text, a list or a tuple. -/
def repeatSequence (items : Value) (times : Int) : Exec Value := do
  match items with
  | .str s => return .str (String.ofList (← repeated s.toList times))
  | .list r => Exec.newList (← repeated (← Exec.ofHeap (·.list r)) times)
  | .tuple r => Exec.newTuple (← repeated (← Exec.ofHeap (·.tuple r)) times)
  | v => return v

/-- Operators on two values that are not both numbers. -/
def sequenceOp (op : BinOp) (left right : Value) : Exec Value := do
  match op, left, right with
  | .add, .str a, .str b => return .str (a ++ b)
  | .add, .list r, .list q => Exec.newList (← Exec.ofHeap fun h => h.list r ++ h.list q)
  | .add, .tuple r, .tuple q => Exec.newTuple (← Exec.ofHeap fun h => h.tuple r ++ h.tuple q)
  | .mul, left, right =>
    match repetition? left right with
    | some (items, .int times) => repeatSequence items times
    | _ => throw (unsupportedOperands op.symbol left right)
  | .mod, .str _, _ => throw (.unsupported "%-formatting")
  | .sub, .set r, .set q =>
    Exec.newSet (← Exec.ofHeap fun h => (h.set r).filter fun x => !(h.set q).any (h.equal x ·))
  | op, left, right => throw (unsupportedOperands op.symbol left right)

/-- A binary operator. -/
def binary (op : BinOp) (left right : Value) : Exec Value :=
  match left.number?, right.number? with
  | some a, some b => Exec.ofExcept (numberOp op a b)
  | _, _ => sequenceOp op left right

/-- A unary operator. -/
def unary (op : UnaryOp) (operand : Value) : Exec Value := do
  match op, operand.number? with
  | .not, _ => return .bool !(← Exec.truthy operand)
  | .neg, some (.int i) => checked (-i)
  | .neg, some (.float x) => return .float (-x)
  | .pos, some (.int i) => return .int i
  | .pos, some (.float x) => return .float x
  | .invert, some (.int i) => return .int (-i - 1)
  | op, _ =>
    throw (.error .type s!"bad operand type for unary {op.symbol}: '{operand.typeName}'")

/-- Whether a container holds an item. -/
def contains (container item : Value) : Exec Bool := do
  let among (items : Heap → List Value) : Exec Bool :=
    Exec.ofHeap fun h => (items h).any (h.equal · item)
  match container with
  | .str text =>
    match item with
    | .str part => return Text.holds part.toList text.toList
    | other =>
      throw (.error .type
        s!"'in <string>' requires string as left operand, not {other.typeName}")
  | .list r => among (·.list r)
  | .set r => among (·.set r)
  | .tuple r => among (·.tuple r)
  | .dict r => among fun h => (h.dict r).map (·.1)
  | .range start stop step =>
    match item.int? with
    | some i => return Range.holds start stop step i
    | none => return false
  | other => throw (.error .type s!"argument of type '{other.typeName}' is not iterable")

/-- One link of a comparison. -/
def compareValues (op : CmpOp) (left right : Value) : Exec Bool := do
  let ordered (p : Ordering → Bool) : Exec Bool := do
    return p (← Exec.raising (← Exec.ofHeap (·.order left right)))
  match op with
  | .eq => Exec.ofHeap (·.equal left right)
  | .notEq => return !(← Exec.ofHeap (·.equal left right))
  | .lt => ordered (·.isLT)
  | .ltEq => ordered (·.isLE)
  | .gt => ordered (·.isGT)
  | .gtEq => ordered (·.isGE)
  | .same => return Heap.identical left right
  | .notSame => return !Heap.identical left right
  | .member => contains right left
  | .notMember => return !(← contains right left)

end Concord.Machine
