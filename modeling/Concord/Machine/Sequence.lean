import Concord.Machine.Operator

/-!
# Items of containers

Going through the items of a value, reaching one by its index or key, cutting slices, building sets
and dictionaries whose members and keys differ, and sorting.
-/

namespace Concord.Machine

/-- The items of a value in order, each charged one unit of fuel. -/
def iterate (v : Value) : Exec (List Value) := do
  let charged (items : List Value) : Exec (List Value) := do
    Exec.charge items.length
    return items
  match v with
  | .list r => charged (← Exec.ofHeap (·.list r))
  | .set r => charged (← Exec.ofHeap (·.set r))
  | .tuple r => charged (← Exec.ofHeap (·.tuple r))
  | .str s => charged (s.toList.map fun c => .str c.toString)
  | .dict r => charged (← Exec.ofHeap fun h => (h.dict r).map (·.1))
  | .range start stop step =>
    Exec.charge (Range.length start stop step)
    return (Range.members start stop step).map .int
  | other => throw (.error .type s!"'{other.typeName}' object is not iterable")

/-! ### Indices -/

/-- The position that an index stands for among `len` items; a negative index counts from the end. -/
def position (index : Value) (len : Nat) (message : String) : Except Signal Nat :=
  match index.int? with
  | none => .error (.error .type s!"indices must be integers, not {index.typeName}")
  | some i =>
    let len : Int := min len maxInt
    let place := if i < 0 then i + len else i
    if 0 ≤ place ∧ place < len then .ok place.toNat else .error (.error .index message)

/-- The item at an index. -/
def itemAt (items : List Value) (index : Value) (message : String) : Except Signal Value := do
  return (items[← position index items.length message]?).getD .none

/-- The value of a key among the entries of a dictionary. -/
def Heap.valueOf? (h : Heap) (entries : Entries) (key : Value) : Option Value :=
  (entries.find? fun e => h.equal e.1 key).map (·.2)

/-- `container[index]`. -/
def getItem (container index : Value) : Exec Value := do
  match container with
  | .list r => itemAt (← Exec.ofHeap (·.list r)) index "list index out of range"
  | .tuple r => itemAt (← Exec.ofHeap (·.tuple r)) index "tuple index out of range"
  | .str s =>
    itemAt (s.toList.map fun c => .str c.toString) index "string index out of range"
  | .range start stop step =>
    let place ← position index (Range.length start stop step) "range object index out of range"
    return .int (saturate (start + saturate (place * step)))
  | .dict r =>
    match ← Exec.ofHeap fun h => h.valueOf? (h.dict r) index with
    | some value => return value
    | none => throw (.error .key (← Exec.ofHeap (·.repr index)))
  | other => throw (.error .type s!"'{other.typeName}' object is not subscriptable")

/-- A bound counted from the front and brought between `low` and `high`. -/
def clampBound (len bound low high : Int) : Int :=
  max low (min high (if bound < 0 then wrap (bound + len) else bound))

/-- The integers from one on up to `stop`, a step apart, as long as the fuel lasts. The additions wrap
round at the bounds of 64 bits. -/
def strides : Nat → Int → Int → Int → List Int
  | 0, _, _, _ => []
  | fuel + 1, i, stop, step =>
    if Range.Before stop step i then i :: strides fuel (wrap (i + step)) stop step else []

/-- The positions that a slice picks out of `len` items. Where an addition wraps round, the strides go
back and forth between negative numbers, which stand for the first position, and lower and lower
positions: there are at most `len + 1` of them. -/
def slicePositions (len : Nat) (lower upper step : Option Int) : Except Signal (List Nat) :=
  let step := step.getD 1
  let fuel := len + 1
  let len : Int := min len maxInt
  if step = 0 then .error (.error .value "slice step cannot be zero")
  else
    let (start, stop) :=
      if 0 < step then
        ((lower.map (clampBound len · 0 len)).getD 0, (upper.map (clampBound len · 0 len)).getD len)
      else
        ((lower.map (clampBound len · (-1) (len - 1))).getD (len - 1),
          (upper.map (clampBound len · (-1) (len - 1))).getD (-1))
    .ok ((strides fuel start stop step).map Int.toNat)

/-- The items that a slice picks. -/
def sliceItems {α : Type} (items : List α) (lower upper step : Option Int) :
    Except Signal (List α) := do
  return (← slicePositions items.length lower upper step).filterMap (items[·]?)

/-- `container[lower:upper:step]`. -/
def getSlice (container : Value) (lower upper step : Option Int) : Exec Value := do
  match container with
  | .list r => Exec.newList (← sliceItems (← Exec.ofHeap (·.list r)) lower upper step)
  | .tuple r => Exec.newTuple (← sliceItems (← Exec.ofHeap (·.tuple r)) lower upper step)
  | .str s => return .str (String.ofList (← sliceItems s.toList lower upper step))
  | other => throw (.error .type s!"'{other.typeName}' object is not subscriptable")

/-! ### Keys and members -/

/-- Entries with a key given a value: in its place if an equal key is there, and at the end
otherwise. -/
def Heap.insertEntry (h : Heap) (key value : Value) : Entries → Entries
  | [] => [(key, value)]
  | (k, v) :: rest =>
    if h.equal k key then (k, value) :: rest else (k, v) :: h.insertEntry key value rest

/-- Give a key of a dictionary's entries a value. -/
def insertEntry (entries : Entries) (key value : Value) : Exec Entries := do
  if ← Exec.ofHeap (·.hashable key) then Exec.ofHeap (·.insertEntry key value entries)
  else throw (.unhashable key)

/-- Members with another one added, unless an equal one is there. -/
def Heap.insertMember (h : Heap) (members : List Value) (item : Value) : List Value :=
  if members.any (h.equal · item) then members else members ++ [item]

/-- A new set of items. -/
def makeSet (items : List Value) : Exec Value := do
  let members ← items.foldlM (fun members item => do
    if ← Exec.ofHeap (·.hashable item) then Exec.ofHeap (·.insertMember members item)
    else throw (.unhashable item)) []
  Exec.newSet members

/-- `container[index] = value`. -/
def setItem (container index value : Value) : Exec Unit := do
  match container with
  | .list r =>
    let items ← Exec.ofHeap (·.list r)
    let place ← position index items.length "list assignment index out of range"
    Exec.setList r (items.set place value)
  | .dict r => Exec.setDict r (← insertEntry (← Exec.ofHeap (·.dict r)) index value)
  | other =>
    throw (.error .type s!"'{other.typeName}' object does not support item assignment")

/-! ### Sorting, least and greatest items

Items are put in order by keys. Sorting is stable, also downwards: each item goes in behind those
before it that do not have to stand after it. The first pair of keys that cannot be ordered fails.
-/

/-- Put an item among items that are in falling order, behind those that it does not come before. -/
def insertBefore {α : Type} (before : α → α → Except Signal Bool) (x : α) :
    List α → Except Signal (List α)
  | [] => .ok [x]
  | y :: ys => do
    if ← before x y then return y :: (← insertBefore before x ys)
    else return x :: y :: ys

/-- The items in order, each put in from the back. -/
def sortedBy {α : Type} (before : α → α → Except Signal Bool) (items : List α) :
    Except Signal (List α) := do
  return (← items.foldlM (fun done x => insertBefore before x done) []).reverse

/-- The order of two keys in a heap, as a result of the run. -/
def Heap.keyOrder (h : Heap) (a b : Value) : Except Signal Ordering :=
  match h.order a b with
  | .ok o => .ok o
  | .error e => .error (.raise e)

/-- Sort pairs of a key and an item, upwards or downwards. -/
def Heap.sortPairs (h : Heap) (downwards : Bool) (pairs : List (Value × Value)) :
    Except Signal (List (Value × Value)) :=
  sortedBy (fun x y => do
    let o ← if downwards then h.keyOrder y.1 x.1 else h.keyOrder x.1 y.1
    return o.isLT) pairs

/-- Sort items by the keys beside them. -/
def sortValues (pairs : List (Value × Value)) (downwards : Bool) : Exec (List Value) := do
  let sorted ← (← Exec.ofHeap (·.sortPairs downwards pairs))
  Exec.charge pairs.length
  return sorted.map (·.2)

/-- The first pair that no other one beats by its key. -/
def Heap.bestPair (h : Heap) (wins : Ordering) (first : Value × Value)
    (rest : List (Value × Value)) : Except Signal (Value × Value) :=
  rest.foldlM (fun best p => do
    let o ← h.keyOrder p.1 best.1
    return if o == wins then p else best) first

end Concord.Machine
