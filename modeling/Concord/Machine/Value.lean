import Concord.Machine.Exception
import Concord.Tree.Basic

/-!
# Values of the running program

A value is a scalar or a reference into the heap. Lists, sets and dictionaries change in place, so
two names may stand for one of them; tuples, functions and exceptions never change but are told apart
by where they stand in the heap. Sets and dictionaries keep the order of insertion.
-/

namespace Concord.Machine

/-- The functions every program starts with. -/
inductive Builtin where
  | abs | all | any | bool | chr | dict | divmod | enumerate | filter | float | int | isInstance
  | len | list | map | max | min | ord | pow | print | range | reversed | round | set | sorted | str
  | sum | tuple | zip
deriving Repr, DecidableEq

namespace Builtin

/-- Every such function, in the order of their names. -/
def every : List Builtin :=
  [abs, all, any, bool, chr, dict, divmod, enumerate, filter, float, int, isInstance, len, list, map,
    max, min, ord, pow, print, range, reversed, round, set, sorted, str, sum, tuple, zip]

/-- The name by which programs refer to the function. -/
def label : Builtin → String
  | abs => "abs" | all => "all" | any => "any" | bool => "bool" | chr => "chr" | dict => "dict"
  | divmod => "divmod" | enumerate => "enumerate" | filter => "filter" | float => "float"
  | int => "int" | isInstance => "isinstance" | len => "len" | list => "list" | map => "map"
  | max => "max" | min => "min" | ord => "ord" | pow => "pow" | print => "print"
  | range => "range" | reversed => "reversed" | round => "round" | set => "set"
  | sorted => "sorted" | str => "str" | sum => "sum" | tuple => "tuple" | zip => "zip"

/-- The function of that name. -/
def ofLabel? (s : String) : Option Builtin := every.find? (·.label == s)

theorem ofLabel?_label (b : Builtin) : ofLabel? b.label = some b := by
  cases b <;> decide +kernel

end Builtin

/-- A place in one of the stores of the heap. -/
abbrev Ref := Nat

/-- A place in the list of scopes; none stands for the top level. -/
abbrev Env := Option Nat

/-- Values. Integers stay within 64 bits with sign: an operation whose result does not fit stops the
run. -/
inductive Value where
  | none
  | bool (b : Bool)
  | int (i : Int)
  | float (x : Float)
  | str (s : String)
  | list (ref : Ref)
  | tuple (ref : Ref)
  | set (ref : Ref)
  | dict (ref : Ref)
  | range (start stop step : Int)
  | function (ref : Ref)
  | builtin (b : Builtin)
  | method (receiver : Value) (name : String)
  | exceptionType (c : ExceptionClass)
  | exception (ref : Ref)
deriving Repr

instance : Inhabited Value := ⟨.none⟩

/-- What a function runs: the block of a definition or the expression of a lambda. -/
inductive Code where
  | block (body : Block)
  | expr (e : Expr)

/-- A function made by the program, with the scope it was made in. Each parameter has its evaluated
default beside it. -/
structure Closure where
  name : String
  params : List (Param × Option Value)
  code : Code
  env : Env

/-- The entries of a dictionary. -/
abbrev Entries := List (Value × Value)

/-- Everything that references point to. -/
structure Heap where
  lists : Array (List Value) := #[]
  tuples : Array (List Value) := #[]
  sets : Array (List Value) := #[]
  dicts : Array Entries := #[]
  closures : Array Closure := #[]
  exceptions : Array Exception := #[]

namespace Heap

/-- The items of a list. -/
def list (h : Heap) (r : Ref) : List Value := h.lists[r]?.getD []

/-- The items of a tuple. -/
def tuple (h : Heap) (r : Ref) : List Value := h.tuples[r]?.getD []

/-- The members of a set. -/
def set (h : Heap) (r : Ref) : List Value := h.sets[r]?.getD []

/-- The entries of a dictionary. -/
def dict (h : Heap) (r : Ref) : Entries := h.dicts[r]?.getD []

/-- An exception. -/
def exception (h : Heap) (r : Ref) : Exception :=
  h.exceptions[r]?.getD ⟨.base, ""⟩

/-- The name of a function. -/
def functionName (h : Heap) (r : Ref) : String := (h.closures[r]?.map (·.name)).getD ""

/-- The number of containers. -/
def containers (h : Heap) : Nat := h.lists.size + h.tuples.size + h.sets.size + h.dicts.size

/-- How deep containers are entered: deeper than they can be nested in each other if none holds itself, and
deeper than there are pairs of them to compare. A container that does hold itself has no bottom. Going down
into it is no part of a run that ends, so the bound is far beyond what any machine can keep track of. -/
def depth (h : Heap) : Nat := 0x4000000000000000 + h.containers * (h.containers + 1)

end Heap

namespace Value

/-- The name of a value's type. -/
def typeName : Value → String
  | none => "NoneType"
  | bool _ => "bool"
  | int _ => "int"
  | float _ => "float"
  | str _ => "str"
  | list _ => "list"
  | tuple _ => "tuple"
  | set _ => "set"
  | dict _ => "dict"
  | range _ _ _ => "range"
  | function _ => "function"
  | builtin _ => "builtin_function_or_method"
  | method _ _ => "method"
  | exceptionType _ => "type"
  | exception _ => "exception"

/-- The value a name stands for that no scope binds. -/
def predefined? (name : String) : Option Value :=
  ((Builtin.ofLabel? name).map builtin).or ((ExceptionClass.ofLabel? name).map exceptionType)

end Value

/-- A number: an integer or a double. -/
inductive Number where
  | int (i : Int)
  | float (x : Float)

namespace Number

/-- The nearest double. -/
def toFloat : Number → Float
  | int i => Float.ofInt i
  | float x => x

/-- Equality of the values; a mixed pair is compared as doubles. -/
def equal : Number → Number → Bool
  | int a, int b => a == b
  | a, b => a.toFloat == b.toFloat

/-- Order of the values; a mixed pair is compared as doubles, and not-a-number equals everything. -/
def order : Number → Number → Ordering
  | int a, int b => compare a b
  | a, b =>
    if a.toFloat < b.toFloat then .lt else if b.toFloat < a.toFloat then .gt else .eq

end Number

/-- The value as a number; the two truth values count as integers. -/
def Value.number? : Value → Option Number
  | .bool b => some (.int (if b then 1 else 0))
  | .int i => some (.int i)
  | .float x => some (.float x)
  | _ => Option.none

/-- The value as an integer. -/
def Value.int? (v : Value) : Option Int :=
  match v.number? with
  | some (.int i) => some i
  | _ => Option.none

end Concord.Machine
