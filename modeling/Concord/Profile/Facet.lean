/-!
# Facets

The fourteen facets under which a source is described. Their order decides between differences of
equal weight.
-/

namespace Concord

/-- One facet of a function's structure or behaviour. -/
inductive Facet where
  | controlFlow
  | dataDependency
  | executionPaths
  | functionContracts
  | complexity
  | sideEffects
  | termination
  | algebraicStructure
  | numericalBehavior
  | logicalEquivalence
  | normalizedStructure
  | operatorPrecedence
  | statementOrdering
  | recursionSchema
deriving Repr, DecidableEq, Inhabited

/-- How the values of a facet are compared. -/
inductive Shape where
  /-- Key by key. -/
  | record
  /-- By the longest common subsequence. -/
  | sequence
  /-- By equality of one of two digests. -/
  | hashPair
  /-- By a rule of its own. -/
  | recursion
deriving Repr, DecidableEq

namespace Shape

/-- The name of a shape in reports. -/
def name : Shape → String
  | record => "Record"
  | sequence => "Sequence"
  | hashPair => "HashPair"
  | recursion => "Recursion"

end Shape

namespace Facet

/-- Every facet, once, in order. -/
def all : List Facet :=
  [controlFlow, dataDependency, executionPaths, functionContracts, complexity, sideEffects,
    termination, algebraicStructure, numericalBehavior, logicalEquivalence, normalizedStructure,
    operatorPrecedence, statementOrdering, recursionSchema]

/-- The number of facets. -/
def count : Nat := all.length

theorem mem_all (k : Facet) : k ∈ all := by cases k <;> decide

/-- The name of a facet in documents. -/
def name : Facet → String
  | controlFlow => "control_flow"
  | dataDependency => "data_dependency"
  | executionPaths => "execution_paths"
  | functionContracts => "function_contracts"
  | complexity => "complexity"
  | sideEffects => "side_effects"
  | termination => "termination"
  | algebraicStructure => "algebraic_structure"
  | numericalBehavior => "numerical_behavior"
  | logicalEquivalence => "logical_equivalence"
  | normalizedStructure => "normalized_structure"
  | operatorPrecedence => "operator_precedence"
  | statementOrdering => "statement_ordering"
  | recursionSchema => "recursion_schema"

/-- The facet with that name. -/
def ofName? (s : String) : Option Facet := all.find? (·.name == s)

theorem ofName?_name (k : Facet) : ofName? k.name = some k := by cases k <;> decide

/-- The wording for a name that is no facet. -/
def unknownMessage (s : String) : String := "unknown property kind: '" ++ s ++ "'"

/-- How the values of a facet are compared. -/
def shape : Facet → Shape
  | normalizedStructure => .hashPair
  | operatorPrecedence | statementOrdering => .sequence
  | recursionSchema => .recursion
  | _ => .record

/-- The position of a facet in the order. -/
def rank (k : Facet) : Nat := all.idxOf k

end Facet

end Concord
