import Concord.Json.Reader
import Concord.Store.Record
import Concord.Store.Table

/-!
# Backends

Where records are kept: in memory, or as documents in files, one for each task. Both hold at most one
record of a task.
-/

namespace Concord

/-- Why a canon is not taken. -/
inductive Refusal where
  | oracleFailed (passRate : Float)
  | unparsable
  | noDefinition
  | nonePassed (candidates : Nat)
deriving Repr, DecidableEq

/-- The words for a refusal. -/
def Refusal.message : Refusal → String
  | oracleFailed rate => "oracle did not pass (pass rate " ++ Decimal.fixedFloat 2 rate ++ ")"
  | unparsable => "canon does not parse: syntax error"
  | noDefinition => "canon defines no function"
  | nonePassed n => "none of " ++ n.repr ++ " candidates passed the oracle"

/-- Why a store does not do what it is asked. -/
inductive StoreError where
  | missing (task : String)
  | refused (task : String) (reason : Refusal)
  | alreadyExists (task : String)
  | invalidTaskId (task : String)
  /-- A stored document that is no record. -/
  | unreadable
deriving Repr, DecidableEq

namespace StoreError

/-- The words for an error. -/
def message : StoreError → String
  | missing task => "no canon recorded for task '" ++ task ++ "'"
  | refused task reason => "canon for task '" ++ task ++ "' refused: " ++ reason.message
  | alreadyExists task => "canon for task '" ++ task ++ "' already exists"
  | invalidTaskId task => "invalid task id: '" ++ task ++ "'"
  | unreadable => "record serialization failed"

/-- Whether the caller caused the error. -/
def isRefusal : StoreError → Bool
  | refused _ _ | alreadyExists _ | invalidTaskId _ => true
  | _ => false

/-- Whether the error is that a task has no canon. -/
def isMissing : StoreError → Bool
  | missing _ => true
  | _ => false

end StoreError

/-- Where records are kept. -/
inductive Backend where
  /-- Records by their tasks. -/
  | memory (records : Table CanonRecord)
  /-- Documents by the names of their files. -/
  | files (documents : Table String)

namespace Backend

/-- The ending of the names of files that hold records. -/
def ending : List Char := ".json".toList

/-- The name of the file of a task. -/
def fileName (task : String) : String := String.ofList (task.toList ++ ending)

/-- The task whose file has a name. -/
def taskOf? (name : String) : Option String :=
  let cs := name.toList
  let stem := cs.take (cs.length - ending.length)
  if !stem.isEmpty && cs == stem ++ ending then some (String.ofList stem) else none

/-- Read the document of a record. -/
def readRecord (text : String) : Except StoreError CanonRecord :=
  match (Json.read? text).bind CanonRecord.ofJson? with
  | some r => .ok r
  | none => .error .unreadable

/-- The record of a task. -/
def get (b : Backend) (task : String) : Except StoreError (Option CanonRecord) :=
  match b with
  | memory records => .ok (records.get? task)
  | files documents =>
    match documents.get? (fileName task) with
    | some text => (readRecord text).map some
    | none => .ok none

/-- Whether there is something under a task. -/
def occupied (b : Backend) (task : String) : Bool :=
  match b with
  | memory records => (records.get? task).isSome
  | files documents => (documents.get? (fileName task)).isSome

/-- Put a record in the place of the one of its task, if there is one. -/
def replace (b : Backend) (r : CanonRecord) : Backend :=
  match b with
  | memory records => memory (records.put r.taskId r)
  | files documents => files (documents.put (fileName r.taskId) r.toJson.text)

/-- Put a record where none of its task is. -/
def insertNew (b : Backend) (r : CanonRecord) : Except StoreError Backend :=
  if b.occupied r.taskId then .error (.alreadyExists r.taskId) else .ok (b.replace r)

/-- Remove the record of a task; says whether there was one. -/
def remove (b : Backend) (task : String) : Backend × Bool :=
  (match b with
    | memory records => memory (records.erase task)
    | files documents => files (documents.erase (fileName task)), b.occupied task)

/-- The tasks with a record, in increasing order. -/
def taskIds (b : Backend) : List String :=
  Names.ofList <|
    match b with
    | memory records => records.names
    | files documents => documents.names.filterMap taskOf?

end Backend

end Concord
