import Concord.Difference.Explain
import Concord.Profile.Distance

/-!
# Explainers

An explainer serves one facet. A registry holds at most one for each facet, and explains two
profiles by asking the explainers of all facets in which they differ, the most severe difference
first.
-/

namespace Concord

/-- Why values cannot be explained. -/
inductive ExplainError where
  /-- A value of another facet. -/
  | mismatch (expected actual : Facet)
  /-- No explainer for a facet. -/
  | missing (facet : Facet)
deriving Repr, DecidableEq

/-- The wording of an error. -/
def ExplainError.message : ExplainError → String
  | mismatch expected actual =>
    "explainer for " ++ expected.name ++ " received a " ++ actual.name ++ " value"
  | missing facet => "no explainer registered for " ++ facet.name

/-- Turns two values of a facet into a difference, or none if no known idiom accounts for it. -/
abbrev Explainer := FacetValue → FacetValue → Comparison → Except ExplainError (Option Difference)

/-- At most one explainer for each facet. -/
abbrev Explainers := Facet → Option Explainer

namespace Explainer

/-- The error for values of which one is of another facet: the first such is named. -/
def mismatch (expected : Facet) (a b : FacetValue) : ExplainError :=
  .mismatch expected (if a.facet = expected then b.facet else a.facet)

/-- The standard explainer of a facet. -/
def standard (k : Facet) : Explainer := fun x y c =>
  match k, x, y with
  | .controlFlow, .controlFlow a, .controlFlow b => .ok (Explain.controlFlow c a b)
  | .dataDependency, .dataDependency a, .dataDependency b => .ok (Explain.dataDependency c a b)
  | .executionPaths, .executionPaths a, .executionPaths b => .ok (Explain.executionPaths c a b)
  | .functionContracts, .functionContracts a, .functionContracts b =>
    .ok (Explain.functionContracts c a b)
  | .complexity, .complexity a, .complexity b => .ok (Explain.complexity c a b)
  | .sideEffects, .sideEffects a, .sideEffects b => .ok (Explain.sideEffects c a b)
  | .termination, .termination a, .termination b => .ok (Explain.termination c a b)
  | .algebraicStructure, .algebraicStructure a, .algebraicStructure b =>
    .ok (Explain.algebraic c a b)
  | .numericalBehavior, .numericalBehavior a, .numericalBehavior b => .ok (Explain.numerical c a b)
  | .logicalEquivalence, .logicalEquivalence a, .logicalEquivalence b => .ok (Explain.logical c a b)
  | .normalizedStructure, .normalizedStructure _, .normalizedStructure _ =>
    .ok (Explain.structural c)
  | .operatorPrecedence, .operatorPrecedence _, .operatorPrecedence _ =>
    .ok (Explain.operatorPrecedence c)
  | .statementOrdering, .statementOrdering a, .statementOrdering b =>
    .ok (Explain.statementOrdering c a b)
  | .recursionSchema, .recursionSchema a, .recursionSchema b => .ok (Explain.recursion a b)
  | k, x, y => .error (mismatch k x y)

end Explainer

namespace Explainers

/-- The standard explainer of every facet. -/
def standard : Explainers := fun k => some (Explainer.standard k)

/-- No explainers. -/
def empty : Explainers := fun _ => none

/-- Explain two values by the explainer of a facet. -/
def explain (es : Explainers) (k : Facet) (a b : FacetValue) (c : Comparison) :
    Except ExplainError (Option Difference) :=
  match es k with
  | some e => e a b c
  | none => .error (.missing k)

/-- The difference of two profiles in a facet. A facet at no distance, without an explainer or
without values has none. -/
def explainAt (es : Explainers) (a b : Profile) (c : Comparison) (d : FacetDistance) :
    Except ExplainError (Option Difference) :=
  match es d.facet, a.get? d.facet, b.get? d.facet with
  | some e, some x, some y => if 0 < d.distance then e x y c else .ok none
  | _, _, _ => .ok none

/-- The differences of two profiles, the most severe first. -/
def explainAll (es : Explainers) (a b : Profile) (distances : List FacetDistance)
    (c : Comparison) : Except ExplainError (List Difference) := do
  let found ← distances.mapM (explainAt es a b c)
  return (found.filterMap id).mergeSort Difference.precedes

end Explainers

end Concord
