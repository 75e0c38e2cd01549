import Concord.Profile.Value
import Concord.Json.Decode

/-!
# Profiles as documents

How facet values and profiles are written as documents and read back. A document of a profile is an
object with a field for each facet that has a value; the value repeats the name of its facet. Reading
accepts a record also as the array of its fields in order, ignores unknown fields, and refuses a
value that stands under the name of another facet.
-/

namespace Concord

/-- A digest in a document. -/
def Digest.ofJson? (j : Json) : Option Digest :=
  j.str?.bind fun s => (Digest.read s).toOption

/-! ### Values -/

namespace Profile.Document

open Json (need optional)

/-- An optional array of texts; null stands for none. -/
def optTexts : Option (List String) → Json
  | some texts => Json.strs texts
  | none => .null

def controlFlowFields : List String :=
  ["branches", "loops", "max_nesting", "returns", "conditional_expressions", "comprehensions",
    "calls", "branch_conditions"]

def dataDependencyFields : List String := ["edges", "max_chain", "dead_stores"]

def executionPathsFields : List String :=
  ["path_count", "return_points", "raise_points", "implicit_return", "guard_clauses",
    "else_after_return", "path_signatures"]

def functionContractsFields : List String :=
  ["functions", "arity", "defaults", "var_args", "var_kwargs", "annotated", "docstring",
    "return_forms"]

def complexityFields : List String :=
  ["class", "loop_depth", "recursive_calls", "materializations", "cyclomatic"]

def sideEffectsFields : List String :=
  ["prints", "io_calls", "mutating_calls", "global_writes", "attribute_writes",
    "subscript_writes", "raises", "pure"]

def terminationFields : List String :=
  ["bounded_loops", "unbounded_loops", "while_true_loops", "breaks", "index_iterations",
    "recursive", "base_case_guarded", "always_terminates"]

def algebraicFields : List String := ["operators", "commutative_orders", "identity_operations"]

def numericalFields : List String :=
  ["true_divisions", "floor_divisions", "truncating_divisions", "modulos", "powers",
    "self_multiplications", "float_literals", "int_casts", "float_casts", "rounding_calls"]

def logicalFields : List String :=
  ["length_empty_checks", "truthiness_negations", "bool_literal_comparisons",
    "negated_comparisons", "boolean_operators", "normalized_conditions"]

def structureHashesFields : List String := ["literal", "name_invariant"]

def recursionSchemaFields : List String :=
  ["is_recursive", "branching", "base_cases", "recursive_calls", "divide_and_conquer"]

/-- The fields of a value in order, for values that are records. -/
def fields : FacetValue → List (String × Json)
  | .controlFlow v =>
    controlFlowFields.zip
      [Json.nat v.branches, Json.nat v.loops, Json.nat v.maxNesting, Json.nat v.returns,
        Json.nat v.conditionalExpressions, Json.nat v.comprehensions, Json.strs v.calls,
        optTexts v.branchConditions]
  | .dataDependency v =>
    dataDependencyFields.zip
      [.obj (v.edges.map fun (k, s) => (k, Json.strs s)), Json.nat v.maxChain,
        Json.nat v.deadStores]
  | .executionPaths v =>
    executionPathsFields.zip
      [Json.nat v.pathCount, Json.nat v.returnPoints, Json.nat v.raisePoints,
        .bool v.implicitReturn, Json.nat v.guardClauses, Json.nat v.elseAfterReturn,
        optTexts v.pathSignatures]
  | .functionContracts v =>
    functionContractsFields.zip
      [Json.nat v.functions, Json.nat v.arity, Json.nat v.defaults, .bool v.varArgs,
        .bool v.varKwargs, .bool v.annotated, .bool v.docstring, Json.strs v.returnForms]
  | .complexity v =>
    complexityFields.zip
      [.str v.growth, Json.nat v.loopDepth, Json.nat v.recursiveCalls,
        Json.nat v.materializations, Json.nat v.cyclomatic]
  | .sideEffects v =>
    sideEffectsFields.zip
      [Json.nat v.prints, Json.nat v.ioCalls, Json.nat v.mutatingCalls, Json.nat v.globalWrites,
        Json.nat v.attributeWrites, Json.nat v.subscriptWrites, Json.nat v.raises,
        .bool v.isPure]
  | .termination v =>
    terminationFields.zip
      [Json.nat v.boundedLoops, Json.nat v.unboundedLoops, Json.nat v.whileTrueLoops,
        Json.nat v.breaks, Json.nat v.indexIterations, .bool v.recursive, .bool v.baseCaseGuarded,
        .bool v.alwaysTerminates]
  | .algebraicStructure v =>
    algebraicFields.zip
      [.obj (v.operators.map fun (k, n) => (k, Json.nat n)), Json.strs v.commutativeOrders,
        Json.nat v.identityOperations]
  | .numericalBehavior v =>
    numericalFields.zip
      [Json.nat v.trueDivisions, Json.nat v.floorDivisions, Json.nat v.truncatingDivisions,
        Json.nat v.modulos, Json.nat v.powers, Json.nat v.selfMultiplications,
        Json.nat v.floatLiterals, Json.nat v.intCasts, Json.nat v.floatCasts,
        Json.nat v.roundingCalls]
  | .logicalEquivalence v =>
    logicalFields.zip
      [Json.nat v.lengthEmptyChecks, Json.nat v.truthinessNegations,
        Json.nat v.boolLiteralComparisons, Json.nat v.negatedComparisons,
        Json.nat v.booleanOperators, optTexts v.normalizedConditions]
  | .normalizedStructure v =>
    structureHashesFields.zip [.str v.literal.hex, .str v.nameInvariant.hex]
  | .recursionSchema v =>
    recursionSchemaFields.zip
      [.bool v.isRecursive, .str v.branching.name, Json.nat v.baseCases,
        Json.nat v.recursiveCalls, .bool v.divideAndConquer]
  | .operatorPrecedence _ | .statementOrdering _ => []

/-- The document of a value. -/
def payload : FacetValue → Json
  | .operatorPrecedence v => Json.strs v
  | .statementOrdering v => Json.strs v
  | v => .obj (fields v)

/-- A class of recursion in a document. -/
def branching? : Json → Option Branching
  | .str s => Branching.all.find? (·.name == s)
  | .obj [(s, .null)] => Branching.all.find? (·.name == s)
  | _ => none

/-- Read the value of a facet. -/
def payload? (k : Facet) (j : Json) : Option FacetValue :=
  match k with
  | .controlFlow => do
    let [a, b, c, d, e, f, g, h] ← j.record? controlFlowFields | none
    return .controlFlow
      ⟨← need Json.nat? a, ← need Json.nat? b, ← need Json.nat? c, ← need Json.nat? d,
        ← need Json.nat? e, ← need Json.nat? f, ← need Json.strs? g, ← optional Json.strs? h⟩
  | .dataDependency => do
    let [a, b, c] ← j.record? dataDependencyFields | none
    return .dataDependency
      ⟨← need (Json.entries? Json.strSet?) a, ← need Json.nat? b, ← need Json.nat? c⟩
  | .executionPaths => do
    let [a, b, c, d, e, f, g] ← j.record? executionPathsFields | none
    return .executionPaths
      ⟨← need Json.nat? a, ← need Json.nat? b, ← need Json.nat? c, ← need Json.bool? d,
        ← need Json.nat? e, ← need Json.nat? f, ← optional Json.strs? g⟩
  | .functionContracts => do
    let [a, b, c, d, e, f, g, h] ← j.record? functionContractsFields | none
    return .functionContracts
      ⟨← need Json.nat? a, ← need Json.nat? b, ← need Json.nat? c, ← need Json.bool? d,
        ← need Json.bool? e, ← need Json.bool? f, ← need Json.bool? g, ← need Json.strSet? h⟩
  | .complexity => do
    let [a, b, c, d, e] ← j.record? complexityFields | none
    return .complexity
      ⟨← need Json.str? a, ← need Json.nat? b, ← need Json.nat? c, ← need Json.nat? d,
        ← need Json.nat? e⟩
  | .sideEffects => do
    let [a, b, c, d, e, f, g, h] ← j.record? sideEffectsFields | none
    return .sideEffects
      ⟨← need Json.nat? a, ← need Json.nat? b, ← need Json.nat? c, ← need Json.nat? d,
        ← need Json.nat? e, ← need Json.nat? f, ← need Json.nat? g, ← need Json.bool? h⟩
  | .termination => do
    let [a, b, c, d, e, f, g, h] ← j.record? terminationFields | none
    return .termination
      ⟨← need Json.nat? a, ← need Json.nat? b, ← need Json.nat? c, ← need Json.nat? d,
        ← need Json.nat? e, ← need Json.bool? f, ← need Json.bool? g, ← need Json.bool? h⟩
  | .algebraicStructure => do
    let [a, b, c] ← j.record? algebraicFields | none
    return .algebraicStructure
      ⟨← need (Json.entries? Json.nat?) a, ← need Json.strs? b, ← need Json.nat? c⟩
  | .numericalBehavior => do
    let [a, b, c, d, e, f, g, h, i, l] ← j.record? numericalFields | none
    return .numericalBehavior
      ⟨← need Json.nat? a, ← need Json.nat? b, ← need Json.nat? c, ← need Json.nat? d,
        ← need Json.nat? e, ← need Json.nat? f, ← need Json.nat? g, ← need Json.nat? h,
        ← need Json.nat? i, ← need Json.nat? l⟩
  | .logicalEquivalence => do
    let [a, b, c, d, e, f] ← j.record? logicalFields | none
    return .logicalEquivalence
      ⟨← need Json.nat? a, ← need Json.nat? b, ← need Json.nat? c, ← need Json.nat? d,
        ← need Json.nat? e, ← optional Json.strs? f⟩
  | .normalizedStructure => do
    let [a, b] ← j.record? structureHashesFields | none
    return .normalizedStructure ⟨← need Digest.ofJson? a, ← need Digest.ofJson? b⟩
  | .operatorPrecedence => j.strs?.map .operatorPrecedence
  | .statementOrdering => j.strs?.map .statementOrdering
  | .recursionSchema => do
    let [a, b, c, d, e] ← j.record? recursionSchemaFields | none
    return .recursionSchema
      ⟨← need Json.bool? a, ← need branching? b, ← need Json.nat? c, ← need Json.nat? d,
        ← need Json.bool? e⟩

/-- The document of a value with the name of its facet. -/
def tagged (v : FacetValue) : Json := .obj [("kind", .str v.facet.name), ("value", payload v)]

/-- Read a value with the name of its facet. -/
def tagged? (j : Json) : Option FacetValue := do
  let [kind, value] ← j.record? ["kind", "value"] | none
  let k ← Facet.ofName? (← need Json.str? kind)
  need (payload? k) value

end Profile.Document

namespace Profile

/-- The document of a profile. -/
def toJson (p : Profile) : Json :=
  .obj (p.values.map fun v => (v.facet.name, Document.tagged v))

/-- Read the fields of a profile: the facets they name, each with the value that stands there. -/
def readFields? (fields : List (String × Json)) : Option (List (Facet × FacetValue)) :=
  fields.mapM fun (name, j) => do return (← Facet.ofName? name, ← Document.tagged? j)

/-- Read a profile. Under a name that stands several times the last value counts, and every value
that counts has to belong to the facet whose name it stands under. -/
def ofJson? : Json → Option Profile
  | .obj fields => do
    let read ← readFields? fields
    let values := Facet.all.filterMap fun k => (read.reverse.lookup k).map (k, ·)
    if values.all fun (k, v) => v.facet = k then some (.ofValues (values.map (·.2))) else none
  | _ => none

/-- The digest of a profile's document. -/
def fingerprint (p : Profile) : Digest := Digest.ofDocument p.toJson.text

end Profile

end Concord
