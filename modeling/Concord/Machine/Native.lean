import Concord.Machine.Conversion
import Concord.Machine.Sequence

/-!
# Predefined functions

What each predefined function does with its arguments. Functions that call back the program are given
the means to do so.
-/

namespace Concord.Machine

/-- Arguments passed by name. -/
abbrev Keywords := List (String × Value)

/-- How a predefined function calls one that it was passed. -/
abbrev Apply := Value → List Value → Exec Value

/-! ### Arguments -/

/-- Take the argument of a name out of the arguments passed by name. -/
def takeKeyword (name : String) : Keywords → Option Value × Keywords
  | [] => (none, [])
  | (n, v) :: rest =>
    if n == name then (some v, rest)
    else
      let (found, rest) := takeKeyword name rest
      (found, (n, v) :: rest)

/-- Refuse the first argument passed by name. -/
def rejectKeywords (function : String) : Keywords → Except Signal Unit
  | [] => .ok ()
  | (key, _) :: _ =>
    .error (.error .type s!"{function}() got an unexpected keyword argument '{key}'")

/-- The number of arguments has to lie between two bounds. -/
def arity (function : String) (args : List Value) (least most : Nat) : Except Signal Unit :=
  if least ≤ args.length ∧ args.length ≤ most then .ok ()
  else .error (.error .type
    s!"{function}() takes {least} to {most} arguments ({args.length} given)")

/-- An argument that has to be an integer. -/
def intArg (v : Value) : Except Signal Int :=
  match v.int? with
  | some i => .ok i
  | none => .error (.error .type s!"'{v.typeName}' object cannot be interpreted as an integer")

/-- An argument that has to be a text. -/
def textArg (function : String) : Value → Except Signal String
  | .str s => .ok s
  | other => .error (.error .type s!"{function}() argument must be str, not {other.typeName}")

/-- The argument at a position, for functions whose arity is checked before. -/
def argAt (args : List Value) (i : Nat) : Value := args[i]?.getD .none

/-- A key function, unless it is missing or none. -/
def keyFunction : Option Value → Option Value
  | some .none => none
  | key => key

/-! ### Functions of one value -/

/-- The length of a container. -/
def lengthOf (v : Value) : Exec Value := do
  match v with
  | .str s => return .int s.length
  | .list r => return .int (← Exec.ofHeap (·.list r)).length
  | .set r => return .int (← Exec.ofHeap (·.set r)).length
  | .tuple r => return .int (← Exec.ofHeap (·.tuple r)).length
  | .dict r => return .int (← Exec.ofHeap (·.dict r)).length
  | .range start stop step => return .int (min (Range.length start stop step) maxInt)
  | other => throw (.error .type s!"object of type '{other.typeName}' has no len()")

/-- The absolute value of a number. -/
def absolute (v : Value) : Except Signal Value :=
  match v.number? with
  | some (.int i) => checked i.natAbs
  | some (.float x) => .ok (.float x.abs)
  | none => .error (.error .type s!"bad operand type for abs(): '{v.typeName}'")

/-- Conversion to an integer. -/
def toInt (v : Value) : Except Signal Value := do
  match v, v.number? with
  | .str s, _ =>
    match readInt? s with
    | some i => return .int i
    | none => throw (.error .value s!"invalid literal for int() with base 10: '{s}'")
  | _, some (.int i) => return .int i
  | _, some (.float x) => return .int (← wholeToInt (truncate x))
  | v, none =>
    throw (.error .type s!"int() argument must be a string or a number, not '{v.typeName}'")

/-- Conversion to a double. -/
def toFloat (v : Value) : Except Signal Value := do
  match v, v.number? with
  | .str s, _ =>
    match readFloat? s with
    | some x => return .float x
    | none => throw (.error .value s!"could not convert string to float: '{s}'")
  | _, some n => return .float n.toFloat
  | v, none =>
    throw (.error .type s!"float() argument must be a string or a number, not '{v.typeName}'")

/-- A number rounded, to a number of decimal places if it is given. -/
def rounded (v : Value) (places : Option Int) : Except Signal Value := do
  match v.number?, places with
  | some (.int i), _ => return .int i
  | some (.float x), none => return .int (← wholeToInt (roundHalfEven x))
  | some (.float x), some places => return .float (roundPlaces x places)
  | none, _ => throw (.error .type s!"type {v.typeName} doesn't define __round__ method")

/-- The code point of a text of one character. -/
def codePoint (s : String) : Except Signal Value :=
  match s.toList with
  | [c] => .ok (.int c.toNat)
  | cs => .error (.error .type
      s!"ord() expected a character, but string of length {cs.length} found")

/-- The character with a code point, as a text. -/
def character (code : Int) : Except Signal Value :=
  if 0 ≤ code ∧ code.toNat.isValidChar then .ok (.str (Char.ofNat code.toNat).toString)
  else .error (.error .value "chr() arg not in range(0x110000)")

/-- Whether a value belongs to a class. -/
def Heap.isInstance (h : Heap) (v cls : Value) : Bool :=
  match cls with
  | .builtin b => b.label == v.typeName || (b == .int && v matches .bool _)
  | .exceptionType c =>
    match v with
    | .exception r => c.catches (h.exception r).kind
    | _ => false
  | _ => false

/-! ### Functions of several items -/

/-- The range from one, two or three bounds. -/
def rangeOf (bounds : List Int) : Except Signal Value :=
  match bounds with
  | [stop] => .ok (.range 0 stop 1)
  | [start, stop] => .ok (.range start stop 1)
  | [start, stop, step] =>
    if step = 0 then .error (.error .value "range() arg 3 must not be zero")
    else .ok (.range start stop step)
  | _ => .error (.error .type "range expected 1 to 3 arguments")

/-- The rows of a table given by its columns, as many as the shortest column has. -/
def rows (columns : List (List Value)) : List (List Value) :=
  (List.range (((columns.map List.length).min?).getD 0)).map fun i =>
    columns.map fun c => argAt c i

/-- The entries of a dictionary made from pairs. -/
def entriesOf (pairs : List Value) : Exec Entries :=
  pairs.foldlM (fun entries pair => do
    match ← iterate pair with
    | [key, value] => insertEntry entries key value
    | _ => throw (.error .value "dictionary update sequence element has wrong length")) []

/-- The items with their keys: what a function gives for each of them, or the items themselves. -/
def withKeys (apply : Apply) (key : Option Value) (items : List Value) :
    Exec (List (Value × Value)) :=
  match key with
  | none => pure (items.map fun x => (x, x))
  | some f => items.mapM fun x => do return (← apply f [x], x)

/-- Sorting, and the least and the greatest of several items. -/
def orderedCall (apply : Apply) (b : Builtin) (args : List Value) (keywords : Keywords) :
    Exec Value := do
  let (key, keywords) := takeKeyword "key" keywords
  let (downwards, keywords) := takeKeyword "reverse" keywords
  let (default, keywords) := takeKeyword "default" keywords
  let downwards ← match downwards with
    | some v => Exec.truthy v
    | none => pure false
  rejectKeywords b.label keywords
  let items ← match args with
    | [v] => iterate v
    | _ :: _ :: _ =>
      if b == .sorted then throw (.error .type s!"{b.label}() takes an iterable argument")
      else pure args
    | [] => throw (.error .type s!"{b.label}() takes an iterable argument")
  let pairs ← withKeys apply (keyFunction key) items
  if b == .sorted then Exec.newList (← sortValues pairs downwards)
  else
    match pairs with
    | [] =>
      match default with
      | some v => return v
      | none => throw (.error .value s!"{b.label}() arg is an empty sequence")
    | first :: rest =>
      let wins : Ordering := if b == .min then .lt else .gt
      return (← (← Exec.ofHeap (·.bestPair wins first rest))).2

/-- The sum of items, starting from a value that is no text. -/
def sumOf (items start : Value) : Exec Value := do
  match start with
  | .str _ => throw (.error .type "sum() can't sum strings [use ''.join(seq) instead]")
  | _ => (← iterate items).foldlM (fun total x => binary .add total x) start

/-- The predefined functions that take no arguments by name. -/
def plainCall (apply : Apply) (b : Builtin) (args : List Value) : Exec Value := do
  let count (least most : Nat) : Exec Unit := Exec.ofExcept (arity b.label args least most)
  let first := argAt args 0
  let second := argAt args 1
  let itemsOrNone : Exec (List Value) := do
    count 0 1
    match args with
    | [] => return []
    | v :: _ => iterate v
  match b with
  | .print => return .none
  | .len => count 1 1; lengthOf first
  | .abs => count 1 1; absolute first
  | .bool =>
    count 0 1
    return .bool (← Exec.truthy first)
  | .int => count 0 1; if args.isEmpty then return .int 0 else toInt first
  | .float => count 0 1; if args.isEmpty then return .float 0 else toFloat first
  | .str =>
    count 0 1
    if args.isEmpty then return .str "" else return .str (← Exec.ofHeap (·.display first))
  | .list => Exec.newList (← itemsOrNone)
  | .tuple => Exec.newTuple (← itemsOrNone)
  | .set => makeSet (← itemsOrNone)
  | .dict =>
    count 0 1
    match args with
    | [] => Exec.newDict []
    | .dict r :: _ => Exec.newDict (← Exec.ofHeap (·.dict r))
    | pairs :: _ => Exec.newDict (← entriesOf (← iterate pairs))
  | .range =>
    count 1 3
    rangeOf (← args.mapM fun v => Exec.ofExcept (intArg v))
  | .sum =>
    count 1 2
    sumOf first (args[1]?.getD (.int 0))
  | .reversed =>
    count 1 1
    Exec.newList (← iterate first).reverse
  | .enumerate =>
    count 1 2
    let start ← if args.length < 2 then pure 0 else Exec.ofExcept (intArg second)
    let items ← iterate first
    Exec.newList (← items.zipIdx.mapM fun (x, i) => Exec.newTuple [.int (wrap (start + i)), x])
  | .zip =>
    let columns ← args.mapM iterate
    Exec.newList (← (rows columns).mapM Exec.newTuple)
  | .map =>
    match args with
    | f :: c :: cs =>
      let columns ← (c :: cs).mapM iterate
      Exec.newList (← (rows columns).mapM (apply f))
    | _ => throw (.error .type "map() must have at least two arguments.")
  | .filter =>
    count 2 2
    let keeps (x : Value) : Exec Bool :=
      match first with
      | .none => Exec.truthy x
      | f => do Exec.truthy (← apply f [x])
    Exec.newList (← (← iterate second).filterM keeps)
  | .any =>
    count 1 1
    let items ← iterate first
    return .bool (← Exec.ofHeap fun h => items.any h.truthy)
  | .all =>
    count 1 1
    let items ← iterate first
    return .bool (← Exec.ofHeap fun h => items.all h.truthy)
  | .round =>
    count 1 2
    let places ← match second with
      | .none => pure none
      | v => some <$> Exec.ofExcept (intArg v)
    rounded first places
  | .divmod =>
    count 2 2
    let quotient ← binary .floorDiv first second
    let remainder ← binary .mod first second
    Exec.newTuple [quotient, remainder]
  | .pow => count 2 2; binary .pow first second
  | .ord =>
    count 1 1
    codePoint (← textArg b.label first)
  | .chr =>
    count 1 1
    character (← intArg first)
  | .isInstance =>
    count 2 2
    match second with
    | .tuple r => return .bool (← Exec.ofHeap fun h => (h.tuple r).any (h.isInstance first))
    | cls => return .bool (← Exec.ofHeap (·.isInstance first cls))
  | .min | .max | .sorted => orderedCall apply b args []

/-- A call of a predefined function, which costs one unit of fuel. -/
def native (apply : Apply) (b : Builtin) (args : List Value) (keywords : Keywords) :
    Exec Value := do
  Exec.charge 1
  match b with
  | .min | .max | .sorted => orderedCall apply b args keywords
  | _ =>
    rejectKeywords b.label keywords
    plainCall apply b args

end Concord.Machine
