import Concord.Machine.Value
import Concord.Machine.Range

/-!
# Truth, equality and order of values

Equality crosses the types of numbers and looks into containers; sameness, by which results of two
runs are compared, does not cross types and takes a value from each of two heaps. Order is defined
for numbers, texts, and lists and tuples of them. Containers are entered at most `Heap.depth` deep,
which reaches the bottom of every container that does not hold itself; one that does has none.
-/

namespace Concord.Machine

namespace Heap

variable (h : Heap)

/-- Whether a condition with this value holds. -/
def truthy : Value → Bool
  | .none => false
  | .bool b => b
  | .int i => i != 0
  | .float x => x != 0
  | .str s => !s.isEmpty
  | .list r => !(h.list r).isEmpty
  | .set r => !(h.set r).isEmpty
  | .tuple r => !(h.tuple r).isEmpty
  | .dict r => !(h.dict r).isEmpty
  | .range start stop step => 0 < Range.length start stop step
  | _ => true

/-- Equality of two numbers, if both values are. -/
def equalNumbers (a b : Value) : Bool :=
  match a.number?, b.number? with
  | some x, some y => x.equal y
  | _, _ => false

/-- Whether two lists have equally many items, related pairwise. -/
def pairwise {α : Type} (rel : α → α → Bool) (a b : List α) : Bool :=
  a.length == b.length && (a.zip b).all fun (x, y) => rel x y

/-- Whether two lists have equally many items, each of the first related to one of the second. -/
def covered {α : Type} (rel : α → α → Bool) (a b : List α) : Bool :=
  a.length == b.length && a.all fun x => b.any fun y => rel x y

/-- Equality of values, with containers entered `n` deep. -/
def equalWithin : Nat → Value → Value → Bool
  | 0, _, _ => false
  | n + 1, a, b =>
    match a, b with
    | .none, .none => true
    | .str s, .str t => s == t
    | .list r, .list q => r == q || pairwise (equalWithin n) (h.list r) (h.list q)
    | .tuple r, .tuple q => pairwise (equalWithin n) (h.tuple r) (h.tuple q)
    | .set r, .set q => covered (equalWithin n) (h.set r) (h.set q)
    | .dict r, .dict q =>
      covered (fun x y => equalWithin n x.1 y.1 && equalWithin n x.2 y.2) (h.dict r) (h.dict q)
    | .range a b c, .range a' b' c' => a == a' && b == b' && c == c'
    | .function r, .function q => r == q
    | .builtin x, .builtin y => x == y
    | .exceptionType c, .exceptionType d => c == d
    | .exception r, .exception q => r == q
    | a, b => equalNumbers a b

/-- Equality of values. -/
def equal (a b : Value) : Bool := h.equalWithin h.depth a b

/-- The failure of an attempt to order two values. -/
def unordered (a b : Value) : Exception :=
  ⟨.type, s!"'<' not supported between instances of '{a.typeName}' and '{b.typeName}'"⟩

/-- Order of two sequences: that of the first pair that is not equal, or of the lengths. -/
def orderItems (equal : Value → Value → Bool)
    (order : Value → Value → Except Exception Ordering) :
    List Value → List Value → Except Exception Ordering
  | x :: xs, y :: ys => if equal x y then orderItems equal order xs ys else order x y
  | [], [] => .ok .eq
  | [], _ :: _ => .ok .lt
  | _ :: _, [] => .ok .gt

/-- Order of values, with containers entered `n` deep. -/
def orderWithin : Nat → Value → Value → Except Exception Ordering
  | 0, a, b => .error (unordered a b)
  | n + 1, a, b =>
    match a, b with
    | .str s, .str t => .ok (compare s t)
    | .list r, .list q => orderItems h.equal (orderWithin n) (h.list r) (h.list q)
    | .tuple r, .tuple q => orderItems h.equal (orderWithin n) (h.tuple r) (h.tuple q)
    | a, b =>
      match a.number?, b.number? with
      | some x, some y => .ok (x.order y)
      | _, _ => .error (unordered a b)

/-- Order of values. -/
def order (a b : Value) : Except Exception Ordering := h.orderWithin h.depth a b

/-- Whether a value may be a key or a member, with tuples entered `n` deep. -/
def hashableWithin : Nat → Value → Bool
  | 0, _ => false
  | n + 1, v =>
    match v with
    | .list _ | .set _ | .dict _ => false
    | .tuple r => (h.tuple r).all (hashableWithin n)
    | _ => true

/-- Whether a value may be a key of a dictionary or a member of a set. -/
def hashable (v : Value) : Bool := h.hashableWithin h.depth v

/-- Whether two values are one and the same. -/
def identical : Value → Value → Bool
  | .none, .none => true
  | .bool a, .bool b => a == b
  | .int a, .int b => a == b
  | .str a, .str b => a == b
  | .list r, .list q | .set r, .set q | .dict r, .dict q | .tuple r, .tuple q
  | .function r, .function q | .exception r, .exception q => r == q
  | .builtin a, .builtin b => a == b
  | .exceptionType a, .exceptionType b => a == b
  | _, _ => false

end Heap

section Same

variable (h k : Heap)

/-- Sameness of a value of each of two heaps, with containers entered `n` deep. -/
def sameWithin : Nat → Value → Value → Bool
  | 0, _, _ => false
  | n + 1, a, b =>
    match a, b with
    | .none, .none => true
    | .bool a, .bool b => a == b
    | .int a, .int b => a == b
    | .float x, .float y => x == y || (x.isNaN && y.isNaN)
    | .str s, .str t => s == t
    | .list r, .list q => Heap.pairwise (sameWithin n) (h.list r) (k.list q)
    | .tuple r, .tuple q => Heap.pairwise (sameWithin n) (h.tuple r) (k.tuple q)
    | .set r, .set q => Heap.covered (sameWithin n) (h.set r) (k.set q)
    | .dict r, .dict q =>
      Heap.covered (fun x y => sameWithin n x.1 y.1 && sameWithin n x.2 y.2)
        (h.dict r) (k.dict q)
    | .range a b c, .range a' b' c' => a == a' && b == b' && c == c'
    | .builtin x, .builtin y => x == y
    | .exceptionType c, .exceptionType d => c == d
    | .exception r, .exception q => h.exception r == k.exception q
    | _, _ => false

/-- Whether two values are the same result: of one type all the way down and of equal contents. Two
doubles that are not a number are the same; functions made by the two programs never are. -/
def same (a b : Value) : Bool := sameWithin h k (max h.depth k.depth) a b

end Same

end Concord.Machine
