import Concord.Engine.Basic
import Concord.Store.Basic
import Concord.Store.Selection

/-!
# Canonicalizing by task

An engine beside a store: the canon of a task is looked up by its name, and the naming policy stored
with it holds where the contract has none.
-/

namespace Concord

/-- An engine and the store of its canons. -/
structure Canonicalizer where
  engine : Engine := {}
  store : Store := {}

namespace Canonicalizer

/-- An engine and a store that follow one configuration. -/
def ofConfig (backend : Backend) (config : Config) : Canonicalizer where
  engine := { config }
  store := { backend, mode := config.mode }

/-- The words for an error of the store, as the engine reports it. -/
def errorText (e : StoreError) : String := "canon store error: " ++ e.message

/-- Move a text towards the canon of a task. -/
def canonicalize (c : Canonicalizer) (task candidate : String) (contract : Option Contract) :
    Except StoreError Transformation := do
  let r ← c.store.require task
  return c.engine.transform { candidate, canon := r.source, contract, naming := r.naming }

/-- The distance of a text to the canon of a task. -/
def compare (c : Canonicalizer) (task candidate : String) : Except StoreError CanonComparison :=
  c.store.compare task candidate

/-- Choose the canon of a task among candidates and store it with the contract's naming policy. -/
def establish (c : Canonicalizer) (task : String) (candidates : List String) (contract : Contract)
    (oracle : Oracle) (checker : Checker) (moment : String) :
    Except StoreError CanonRecord × Canonicalizer :=
  match Choice.select oracle checker contract candidates with
  | none => (.error (.refused task (.nonePassed candidates.length)), c)
  | some choice =>
    let (result, store) := c.store.create
      { task, code := choice.code, oracle := choice.oracle, naming := contract.naming, moment }
    (result, { c with store })

end Canonicalizer

end Concord
