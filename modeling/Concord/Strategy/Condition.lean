import Concord.Strategy.Basic

/-!
# Conditions

Tests for emptiness, comparisons with Boolean constants and negated comparisons.
-/

namespace Concord.Strategy

/-- A test for emptiness by truth. -/
def toTruthiness? (e : Expr) : Option Expr :=
  (Idiom.lengthCheck? e).map fun (operand, empty) =>
    if empty then .unary .not operand else operand

/-- A negation as a comparison of the length with zero. -/
def toLength? : Expr → Option Expr
  | .unary .not a => some (.compare (.callOf "len" [a]) [(.eq, .int 0)])
  | _ => none

/-- What a comparison with a Boolean constant says about the other side. -/
def withoutBool? : Expr → Option Expr
  | .compare left [(op, right)] =>
    let result (subject : Expr) (constant : Bool) : Expr :=
      if (op == .eq || op == .same) == constant then subject else .unary .not subject
    match left, right with
    | .bool b, subject => some (result subject b)
    | subject, .bool b => some (result subject b)
    | _, _ => none
  | _ => none

/-- A negated comparison with the opposite operator. -/
def inverted? : Expr → Option Expr
  | .unary .not (.compare left [(op, right)]) => some (.compare left [(op.negated, right)])
  | _ => none

/-- Write a test for emptiness in the other form. -/
def emptyCheck : Strategy :=
  forHint "empty_check_rewrite" .emptyCheckForm
    (fun | .emptyCheck site form => some (site, form) | _ => none)
    fun (site, form) =>
      match form with
      | .truthiness => replaceAt (fun e => (Idiom.lengthCheck? e).isSome) toTruthiness? site
      | .length => replaceAt Idiom.isNegatedTruthiness toLength? site

/-- Drop a comparison with a Boolean constant. -/
def boolComparison : Strategy :=
  atSite "boolean_comparison_simplify" .boolComparison
    (replaceAt Idiom.isBoolComparison withoutBool?)

/-- Invert a comparison instead of negating it. -/
def negatedComparison : Strategy :=
  atSite "negated_comparison_invert" .negatedComparison
    (replaceAt Idiom.isNegatedComparison inverted?)

end Concord.Strategy
