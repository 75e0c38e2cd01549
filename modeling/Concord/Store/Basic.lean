import Concord.Profile.Distance
import Concord.Store.Backend

/-!
# Stores

A store lets a canon in only if it parses, defines something and, where that is asked, passed the
oracle. An operation that fails leaves the store as it was, and only overwriting and removing change
what is stored.
-/

namespace Concord

/-- Records behind the rules for letting them in, and the mode in which new ones are taken. -/
structure Store where
  backend : Backend := .memory []
  mode : Mode := .enhanced

/-- A canon that is to be stored. -/
structure Submission where
  task : String
  code : String
  oracle : Verdict
  requirePass : Bool := true
  naming : Option NamingPolicy := none
  /-- When it is made. -/
  moment : String

/-- The distance of a text to a stored canon. -/
structure CanonComparison where
  task : String
  distance : Rat
  facets : List FacetDistance

namespace CanonComparison

/-- The band of the distance. -/
def band (c : CanonComparison) : Band := .ofDistance c.distance

/-- The facets that differ at all. -/
def differing (c : CanonComparison) : List Facet :=
  (c.facets.filter (·.band != .none)).map (·.facet)

end CanonComparison

namespace Store

/-- A task's name has to be valid. -/
def checkTask (task : String) : Except StoreError Unit :=
  if TaskId.isValid task then .ok () else .error (.invalidTaskId task)

/-- The record of a submission, if it may be stored. -/
def prepare (s : Store) (q : Submission) : Except StoreError CanonRecord := do
  checkTask q.task
  if q.requirePass && !q.oracle.passed then
    throw (.refused q.task (.oracleFailed q.oracle.passRate))
  match Module.parse? q.code with
  | none => throw (.refused q.task .unparsable)
  | some m =>
    if !m.hasDefinition then throw (.refused q.task .noDefinition)
    return {
      taskId := q.task, source := q.code, sourceHash := Digest.ofText q.code
      profile := m.profile s.mode, mode := s.mode
      provenance := { oracle := q.oracle, requiredPass := q.requirePass }
      naming := q.naming, createdAt := q.moment }

/-- Store the canon of a task that has none. -/
def create (s : Store) (q : Submission) : Except StoreError CanonRecord × Store :=
  match s.prepare q with
  | .error e => (.error e, s)
  | .ok r =>
    match s.backend.insertNew r with
    | .error e => (.error e, s)
    | .ok backend => (.ok r, { s with backend })

/-- Store the canon of a task in the place of the one it has. -/
def overwrite (s : Store) (q : Submission) : Except StoreError CanonRecord × Store :=
  match s.prepare q with
  | .error e => (.error e, s)
  | .ok r => (.ok r, { s with backend := s.backend.replace r })

/-- The canon of a task, if it has one. -/
def load (s : Store) (task : String) : Except StoreError (Option CanonRecord) := do
  checkTask task
  s.backend.get task

/-- The canon of a task. -/
def require (s : Store) (task : String) : Except StoreError CanonRecord := do
  match ← s.load task with
  | some r => return r
  | none => throw (.missing task)

/-- The distance of a text to the canon of a task, in the mode of the canon. Names count where the
canon has a naming policy. -/
def compare (s : Store) (task code : String) : Except StoreError CanonComparison := do
  let r ← s.require task
  let candidate := Profile.ofSource r.mode code
  let selection := HashSelection.forPolicy r.naming.isSome
  return { task, distance := Profile.distance selection candidate r.profile
           facets := Profile.distances selection candidate r.profile }

/-- Remove the canon of a task; says whether it had one. -/
def remove (s : Store) (task : String) : Except StoreError Bool × Store :=
  match checkTask task with
  | .error e => (.error e, s)
  | .ok () =>
    let (backend, removed) := s.backend.remove task
    (.ok removed, { s with backend })

/-- The tasks with a canon, in increasing order. -/
def taskIds (s : Store) : List String := s.backend.taskIds

end Store

end Concord
