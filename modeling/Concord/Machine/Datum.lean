import Concord.Machine.State

/-!
# Data from outside

Plain data that can be put into the heap of a run: the arguments with which its functions are called.
-/

namespace Concord.Machine

/-- Plain data. Sets and dictionaries are taken as they are, with no duplicates removed. -/
inductive Datum where
  | none
  | bool (b : Bool)
  | int (i : Int)
  | float (x : Float)
  | str (s : String)
  | list (items : List Datum)
  | tuple (items : List Datum)
  | set (items : List Datum)
  | dict (entries : List (Datum × Datum))
  | range (start stop step : Int)

instance : Inhabited Datum := ⟨.none⟩

namespace Datum

mutual

/-- Put a datum into the heap. -/
def store : Datum → Exec Value
  | none => return .none
  | bool b => return .bool b
  | int i => return .int i
  | float x => return .float x
  | str s => return .str s
  | list items => do Exec.newList (← storeAll items)
  | tuple items => do Exec.newTuple (← storeAll items)
  | set items => do Exec.newSet (← storeAll items)
  | dict entries => do Exec.newDict (← storeEntries entries)
  | range start stop step => return .range start stop step

/-- Put data into the heap, in order. -/
def storeAll : List Datum → Exec (List Value)
  | [] => return []
  | d :: rest => do
    let v ← store d
    return v :: (← storeAll rest)

/-- Put entries into the heap, in order. -/
def storeEntries : List (Datum × Datum) → Exec Entries
  | [] => return []
  | (k, v) :: rest => do
    let key ← store k
    let value ← store v
    return (key, value) :: (← storeEntries rest)

end

/-- Put data into the heap of a state. -/
def storeIn (data : List Datum) (s : State) : List Value × State :=
  match storeAll data s with
  | .ok vs t => (vs, t)
  | .error _ t => ([], t)

end Datum

end Concord.Machine
