import Concord.Profile.Facet
import Concord.Number.Binary

/-!
# Kinds of differences

The closed list of differences that can be explained. Each belongs to one facet and has a severity,
which decides the order in which differences are acted on.
-/

namespace Concord

/-- A kind of difference between a candidate and a canon. -/
inductive DifferenceKind where
  /-- Assignments that lead to a return of the same name. -/
  | consolidatable
  /-- Emptiness asked by the length or by truth. -/
  | emptyCheckForm
  /-- A comparison with a Boolean constant. -/
  | boolComparison
  /-- A negated comparison. -/
  | negatedComparison
  /-- A loop that appends, for a list comprehension. -/
  | accumulatorLoop
  /-- A loop that concatenates, for a joined text. -/
  | concatenation
  /-- Patterns with classes that are spelled differently. -/
  | patternClass
  /-- Other differences of string literals. -/
  | stringLiteral
  /-- Identifiers that correspond by position. -/
  | naming
  /-- Two returns under a condition, for one conditional expression. -/
  | ifReturn
  /-- A branch after one that always leaves. -/
  | elseAfterReturn
  /-- An assignment whose value is never read. -/
  | deadStore
  /-- Printed output. -/
  | printedOutput
  /-- A loop over indices. -/
  | indexIteration
  /-- A copy into a list that is only iterated. -/
  | materialization
  /-- An operation with a neutral element. -/
  | identityOperation
  /-- The order of the operands of a commutative operator. -/
  | operandOrder
  /-- A power for a product, or a product for a power. -/
  | powerForm
  /-- A quotient cut to an integer. -/
  | truncatingDivision
  /-- The grouping of an associative operator. -/
  | reassociation
  /-- A docstring that the canon does not have. -/
  | docstring
  /-- Recursion for a loop, or a loop for recursion. -/
  | recursionForm
  /-- The number of base cases. -/
  | baseCases
deriving Repr, DecidableEq, Inhabited

namespace DifferenceKind

/-- Every kind, once. -/
def all : List DifferenceKind :=
  [consolidatable, emptyCheckForm, boolComparison, negatedComparison, accumulatorLoop,
    concatenation, patternClass, stringLiteral, naming, ifReturn, elseAfterReturn, deadStore,
    printedOutput, indexIteration, materialization, identityOperation, operandOrder, powerForm,
    truncatingDivision, reassociation, docstring, recursionForm, baseCases]

theorem mem_all (k : DifferenceKind) : k ∈ all := by cases k <;> decide

/-- The tag of a kind in documents. -/
def tag : DifferenceKind → String
  | consolidatable => "consecutive-statements-consolidatable"
  | emptyCheckForm => "empty-check-form"
  | boolComparison => "redundant-boolean-comparison"
  | negatedComparison => "negated-comparison"
  | accumulatorLoop => "accumulator-loop-vs-comprehension"
  | concatenation => "string-concatenation-vs-join"
  | patternClass => "regex-character-class-variant"
  | stringLiteral => "string-literal-variant"
  | naming => "identifier-naming"
  | ifReturn => "if-return-vs-conditional-expression"
  | elseAfterReturn => "redundant-else-after-return"
  | deadStore => "dead-store"
  | printedOutput => "diagnostic-output"
  | indexIteration => "index-based-iteration"
  | materialization => "redundant-materialization"
  | identityOperation => "identity-operation"
  | operandOrder => "commutative-operand-order"
  | powerForm => "power-vs-multiplication"
  | truncatingDivision => "truncating-division"
  | reassociation => "operator-reassociation"
  | docstring => "extraneous-docstring"
  | recursionForm => "recursion-vs-iteration"
  | baseCases => "base-case-mismatch"

/-- The kind with that tag. -/
def ofTag? (s : String) : Option DifferenceKind := all.find? (·.tag == s)

/-- The facet in which the difference shows. -/
def facet : DifferenceKind → Facet
  | consolidatable => .statementOrdering
  | emptyCheckForm | boolComparison | negatedComparison => .logicalEquivalence
  | accumulatorLoop | concatenation | patternClass | stringLiteral | naming => .normalizedStructure
  | ifReturn => .controlFlow
  | elseAfterReturn => .executionPaths
  | deadStore => .dataDependency
  | printedOutput => .sideEffects
  | indexIteration => .termination
  | materialization => .complexity
  | identityOperation | operandOrder => .algebraicStructure
  | powerForm | truncatingDivision => .numericalBehavior
  | reassociation => .operatorPrecedence
  | docstring => .functionContracts
  | recursionForm | baseCases => .recursionSchema

/-- The severity in hundredths. -/
def percent : DifferenceKind → Nat
  | recursionForm => 90
  | patternClass => 70
  | accumulatorLoop | concatenation => 60
  | printedOutput | indexIteration | baseCases => 50
  | ifReturn => 45
  | consolidatable | truncatingDivision => 40
  | stringLiteral | elseAfterReturn => 35
  | emptyCheckForm | boolComparison | deadStore | materialization => 30
  | negatedComparison | powerForm => 25
  | naming | identityOperation | reassociation => 20
  | operandOrder => 15
  | docstring => 10

/-- The severity, between zero and one. -/
def severity (k : DifferenceKind) : Rat := Binary.round (mkRat k.percent 100)

/-- Whether the difference is only reported and never acted on. -/
def isDiagnostic : DifferenceKind → Bool
  | recursionForm | baseCases => true
  | _ => false

end DifferenceKind

end Concord
