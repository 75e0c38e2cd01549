import Concord.Profile.Facet
import Concord.Digest.Basic

/-!
# Facet values and profiles

The value of each facet, and the profile of a source: at most one value for each facet. A source that
does not parse has the empty profile, every other one a complete profile.
-/

namespace Concord

/-- A set of names or texts in increasing order. -/
abbrev TextSet := List String

/-- Branches, loops and calls. -/
structure ControlFlow where
  branches : Nat := 0
  loops : Nat := 0
  maxNesting : Nat := 0
  returns : Nat := 0
  conditionalExpressions : Nat := 0
  comprehensions : Nat := 0
  calls : List String := []
  branchConditions : Option (List String) := none
deriving Repr, DecidableEq

/-- Which names the value of a name depends on; the keys are in increasing order. -/
structure DataDependency where
  edges : List (String × TextSet) := []
  maxChain : Nat := 0
  deadStores : Nat := 0
deriving Repr, DecidableEq

/-- How a function is left. -/
structure ExecutionPaths where
  pathCount : Nat := 0
  returnPoints : Nat := 0
  raisePoints : Nat := 0
  implicitReturn : Bool := false
  guardClauses : Nat := 0
  elseAfterReturn : Nat := 0
  pathSignatures : Option (List String) := none
deriving Repr, DecidableEq

/-- The signature of the entry function. -/
structure FunctionContracts where
  functions : Nat := 0
  arity : Nat := 0
  defaults : Nat := 0
  varArgs : Bool := false
  varKwargs : Bool := false
  annotated : Bool := false
  docstring : Bool := false
  returnForms : TextSet := []
deriving Repr, DecidableEq

/-- A growth class and the counts behind it. -/
structure Complexity where
  growth : String := ""
  loopDepth : Nat := 0
  recursiveCalls : Nat := 0
  materializations : Nat := 0
  cyclomatic : Nat := 0
deriving Repr, DecidableEq

/-- Observable effects. -/
structure SideEffects where
  prints : Nat := 0
  ioCalls : Nat := 0
  mutatingCalls : Nat := 0
  globalWrites : Nat := 0
  attributeWrites : Nat := 0
  subscriptWrites : Nat := 0
  raises : Nat := 0
  isPure : Bool := false
deriving Repr, DecidableEq

/-- Whether loops and recursion end. -/
structure Termination where
  boundedLoops : Nat := 0
  unboundedLoops : Nat := 0
  whileTrueLoops : Nat := 0
  breaks : Nat := 0
  indexIterations : Nat := 0
  recursive : Bool := false
  baseCaseGuarded : Bool := false
  alwaysTerminates : Bool := false
deriving Repr, DecidableEq

/-- Which operators occur, and the order of their operands. -/
structure Algebraic where
  operators : List (String × Nat) := []
  commutativeOrders : List String := []
  identityOperations : Nat := 0
deriving Repr, DecidableEq

/-- Division, power and conversion of numbers. -/
structure Numerical where
  trueDivisions : Nat := 0
  floorDivisions : Nat := 0
  truncatingDivisions : Nat := 0
  modulos : Nat := 0
  powers : Nat := 0
  selfMultiplications : Nat := 0
  floatLiterals : Nat := 0
  intCasts : Nat := 0
  floatCasts : Nat := 0
  roundingCalls : Nat := 0
deriving Repr, DecidableEq

/-- Forms of Boolean tests. -/
structure Logical where
  lengthEmptyChecks : Nat := 0
  truthinessNegations : Nat := 0
  boolLiteralComparisons : Nat := 0
  negatedComparisons : Nat := 0
  booleanOperators : Nat := 0
  normalizedConditions : Option (List String) := none
deriving Repr, DecidableEq

/-- Digests of the printed module as written and of its normal form. -/
structure StructureHashes where
  literal : Digest
  nameInvariant : Digest
deriving Repr, DecidableEq

/-- How many calls of itself a function makes at once. -/
inductive Branching where
  | none
  | linear
  | binary
  | multiWay
deriving Repr, DecidableEq

namespace Branching

/-- The class of a number of calls. -/
def ofCalls : Nat → Branching
  | 0 => none
  | 1 => linear
  | 2 => binary
  | _ => multiWay

/-- Every class, once. -/
def all : List Branching := [none, linear, binary, multiWay]

/-- The name of a class in documents. -/
def name : Branching → String
  | none => "none"
  | linear => "linear"
  | binary => "binary"
  | multiWay => "multi_way"

end Branching

/-- How a function calls itself. -/
structure RecursionSchema where
  isRecursive : Bool := false
  branching : Branching := .none
  baseCases : Nat := 0
  recursiveCalls : Nat := 0
  divideAndConquer : Bool := false
deriving Repr, DecidableEq

/-- The value of a facet. -/
inductive FacetValue where
  | controlFlow (v : ControlFlow)
  | dataDependency (v : DataDependency)
  | executionPaths (v : ExecutionPaths)
  | functionContracts (v : FunctionContracts)
  | complexity (v : Complexity)
  | sideEffects (v : SideEffects)
  | termination (v : Termination)
  | algebraicStructure (v : Algebraic)
  | numericalBehavior (v : Numerical)
  | logicalEquivalence (v : Logical)
  | normalizedStructure (v : StructureHashes)
  | operatorPrecedence (v : List String)
  | statementOrdering (v : List String)
  | recursionSchema (v : RecursionSchema)
deriving Repr, DecidableEq

/-- The facet a value belongs to. -/
def FacetValue.facet : FacetValue → Facet
  | controlFlow _ => .controlFlow
  | dataDependency _ => .dataDependency
  | executionPaths _ => .executionPaths
  | functionContracts _ => .functionContracts
  | complexity _ => .complexity
  | sideEffects _ => .sideEffects
  | termination _ => .termination
  | algebraicStructure _ => .algebraicStructure
  | numericalBehavior _ => .numericalBehavior
  | logicalEquivalence _ => .logicalEquivalence
  | normalizedStructure _ => .normalizedStructure
  | operatorPrecedence _ => .operatorPrecedence
  | statementOrdering _ => .statementOrdering
  | recursionSchema _ => .recursionSchema

/-- At most one value for each facet. -/
structure Profile where
  controlFlow : Option ControlFlow := none
  dataDependency : Option DataDependency := none
  executionPaths : Option ExecutionPaths := none
  functionContracts : Option FunctionContracts := none
  complexity : Option Complexity := none
  sideEffects : Option SideEffects := none
  termination : Option Termination := none
  algebraicStructure : Option Algebraic := none
  numericalBehavior : Option Numerical := none
  logicalEquivalence : Option Logical := none
  normalizedStructure : Option StructureHashes := none
  operatorPrecedence : Option (List String) := none
  statementOrdering : Option (List String) := none
  recursionSchema : Option RecursionSchema := none
deriving Repr, DecidableEq

namespace Profile

/-- The profile without any value. -/
def empty : Profile := {}

/-- The value of a facet. -/
def get? (p : Profile) : Facet → Option FacetValue
  | .controlFlow => p.controlFlow.map .controlFlow
  | .dataDependency => p.dataDependency.map .dataDependency
  | .executionPaths => p.executionPaths.map .executionPaths
  | .functionContracts => p.functionContracts.map .functionContracts
  | .complexity => p.complexity.map .complexity
  | .sideEffects => p.sideEffects.map .sideEffects
  | .termination => p.termination.map .termination
  | .algebraicStructure => p.algebraicStructure.map .algebraicStructure
  | .numericalBehavior => p.numericalBehavior.map .numericalBehavior
  | .logicalEquivalence => p.logicalEquivalence.map .logicalEquivalence
  | .normalizedStructure => p.normalizedStructure.map .normalizedStructure
  | .operatorPrecedence => p.operatorPrecedence.map .operatorPrecedence
  | .statementOrdering => p.statementOrdering.map .statementOrdering
  | .recursionSchema => p.recursionSchema.map .recursionSchema

/-- The profile with a value put in the place of its facet. -/
def insert (p : Profile) : FacetValue → Profile
  | .controlFlow v => { p with controlFlow := some v }
  | .dataDependency v => { p with dataDependency := some v }
  | .executionPaths v => { p with executionPaths := some v }
  | .functionContracts v => { p with functionContracts := some v }
  | .complexity v => { p with complexity := some v }
  | .sideEffects v => { p with sideEffects := some v }
  | .termination v => { p with termination := some v }
  | .algebraicStructure v => { p with algebraicStructure := some v }
  | .numericalBehavior v => { p with numericalBehavior := some v }
  | .logicalEquivalence v => { p with logicalEquivalence := some v }
  | .normalizedStructure v => { p with normalizedStructure := some v }
  | .operatorPrecedence v => { p with operatorPrecedence := some v }
  | .statementOrdering v => { p with statementOrdering := some v }
  | .recursionSchema v => { p with recursionSchema := some v }

/-- The profile with the given values; of several for one facet, the last. -/
def ofValues (values : List FacetValue) : Profile := values.foldl insert empty

/-- The values of a profile in the order of the facets. -/
def values (p : Profile) : List FacetValue := Facet.all.filterMap p.get?

/-- The number of values. -/
def size (p : Profile) : Nat := p.values.length

/-- Whether a profile has no value at all. -/
def isNull (p : Profile) : Bool := p.values.isEmpty

/-- Whether a profile has a value for every facet. -/
def isComplete (p : Profile) : Bool := p.size == Facet.count

theorem facet_of_get? {p : Profile} {k : Facet} {v : FacetValue} (h : p.get? k = some v) :
    v.facet = k := by
  cases k <;> simp only [get?, Option.map_eq_some_iff] at h <;> obtain ⟨_, _, rfl⟩ := h <;> rfl

theorem get?_insert_self (p : Profile) (v : FacetValue) :
    (p.insert v).get? v.facet = some v := by
  cases v <;> rfl

end Profile

end Concord
