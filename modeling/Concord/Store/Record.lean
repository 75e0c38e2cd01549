import Concord.Contract.Document
import Concord.Profile.Extract
import Concord.Store.Timestamp

/-!
# Canon records

A record is what a store keeps of a task: the canon's text with its digest and its profile, and how the
canon was validated.
-/

namespace Concord

namespace TaskId

/-- The greatest number of characters. -/
def maxLength : Nat := 128

/-- The characters of a task's name. -/
def isNameChar (c : Char) : Bool := c.isAlphanum || c == '-' || c == '_' || c == '.'

/-- Whether a text is the name of a task: letters, digits, `-`, `_` and `.`, no `.` in front. -/
def isValid (s : String) : Bool :=
  let cs := s.toList
  !cs.isEmpty && cs.length ≤ maxLength && cs.head? != some '.' && cs.all isNameChar

end TaskId

/-- How a canon was validated. -/
structure Provenance where
  oracle : Verdict
  requiredPass : Bool
deriving Repr, DecidableEq

/-- The canon of a task. -/
structure CanonRecord where
  taskId : String
  source : String
  sourceHash : Digest
  profile : Profile
  mode : Mode
  provenance : Provenance
  naming : Option NamingPolicy := none
  createdAt : String

namespace CanonRecord

/-- Whether a text is the canon. -/
def matchesSource (r : CanonRecord) (source : String) : Bool :=
  Digest.ofText source = r.sourceHash

/-- The name of the canon's entry function. -/
def entryPoint (r : CanonRecord) : Option String := do
  return (← (← Module.parse? r.source).primary?).name

/-- The names of the fields in documents. -/
def fields : List String :=
  ["task_id", "source", "source_hash", "properties", "mode", "provenance", "naming", "created_at"]

/-- The document of a record. -/
def toJson (r : CanonRecord) : Json :=
  .obj (fields.zip
    [.str r.taskId, .str r.source, .str r.sourceHash.hex, r.profile.toJson, .str r.mode.name,
      .obj [("oracle", r.provenance.oracle.toJson),
        ("required_pass", .bool r.provenance.requiredPass)],
      (r.naming.map (·.toJson)).getD .null, .str r.createdAt])

/-- Read how a canon was validated. -/
def provenance? (j : Json) : Option Provenance := do
  let [oracle, requiredPass] ← j.record? ["oracle", "required_pass"] | none
  return {
    oracle := ← Json.need Verdict.ofJson? oracle
    requiredPass := ← Json.need Json.bool? requiredPass }

/-- Read a record. -/
def ofJson? (j : Json) : Option CanonRecord := do
  let [taskId, source, sourceHash, profile, mode, provenance, naming, createdAt] ←
    j.record? fields | none
  return {
    taskId := ← Json.need Json.str? taskId
    source := ← Json.need Json.str? source
    sourceHash := ← Json.need Digest.ofJson? sourceHash
    profile := ← Json.need Profile.ofJson? profile
    mode := ← Json.need (fun j => j.str?.bind Mode.ofName?) mode
    provenance := ← Json.need provenance? provenance
    naming := ← Json.optional NamingPolicy.ofJson? naming
    createdAt := ← Json.need (fun j => j.str?.filter Timestamp.isValid) createdAt }

end CanonRecord

end Concord
