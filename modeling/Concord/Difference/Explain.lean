import Concord.Contract.Basic
import Concord.Difference.Basic
import Concord.Profile.Value
import Concord.Text.Blank
import Concord.Text.CharClass
import Concord.Text.Quoted

/-!
# Explaining differences

For each facet a rule that turns two unequal values into a difference of a known kind, or none. A
rule compares counts of the two values and then points to the first place in the candidate where
the idiom stands.
-/

namespace Concord

/-- The two modules that are compared, with the texts they were read from, the naming policy in force
and the entry point. -/
structure Comparison where
  candidate : Module
  canon : Module
  candidateText : String := ""
  canonText : String := ""
  naming : Option NamingPolicy := none
  entryPoint : Option String := none

namespace Explain

/-- A count with its noun. -/
def counted (n : Nat) (noun : String) : String :=
  if n = 1 then "1 " ++ noun else toString n ++ " " ++ noun ++ "s"

/-- A difference at the first of some sites, described by two counts. -/
def atFirst (sites : List Site) (kind : DifferenceKind) (hint : Site → Hint) (explanation : String)
    (ours theirs : String) : Option Difference :=
  sites.head?.map fun site => { kind, hint := hint site, explanation, ours, theirs }

/-! ### Flow -/

/-- Returns in both arms of a conditional where the canon has fewer branches. -/
def controlFlow (c : Comparison) (a b : ControlFlow) : Option Difference :=
  let sites := Idiom.stmtSites Idiom.isIfElseReturn c.candidate
  if b.branches < a.branches && (Idiom.stmtSites Idiom.isIfElseReturn c.canon).length < sites.length
  then
    atFirst sites .ifReturn .site
      "candidate returns from both arms of an if; canon returns a conditional expression"
      (counted a.branches "branch") (counted b.branches "branch")
  else none

/-- A branch after one that always leaves. -/
def executionPaths (c : Comparison) (a b : ExecutionPaths) : Option Difference :=
  if b.elseAfterReturn < a.elseAfterReturn then
    atFirst (Idiom.stmtSites Idiom.isElseAfterReturn c.candidate) .elseAfterReturn .site
      "candidate keeps an else after a branch that always exits"
      (counted a.elseAfterReturn "redundant else") (counted b.elseAfterReturn "redundant else")
  else none

/-- A loop over indices. -/
def termination (c : Comparison) (a b : Termination) : Option Difference :=
  if b.indexIterations < a.indexIterations then
    atFirst (Idiom.stmtSites Idiom.isIndexIteration c.candidate) .indexIteration .site
      "candidate iterates over indices and only reads elements"
      (counted a.indexIterations "index loop") (counted b.indexIterations "index loop")
  else none

/-- A word for how a function repeats work. -/
def repetition (recursive : Bool) : String := if recursive then "recursive" else "iterative"

/-- Recursion for a loop, or other base cases. -/
def recursion (a b : RecursionSchema) : Option Difference :=
  if a.isRecursive != b.isRecursive then
    some
      { kind := .recursionForm
        hint := .none
        explanation := "candidate is " ++ repetition a.isRecursive ++ " where canon is " ++
          repetition b.isRecursive
        ours := repetition a.isRecursive
        theirs := repetition b.isRecursive }
  else if a.isRecursive && a.baseCases != b.baseCases then
    some
      { kind := .baseCases
        hint := .none
        explanation := "recursive formulations differ in their base cases"
        ours := counted a.baseCases "base case"
        theirs := counted b.baseCases "base case" }
  else none

/-! ### Data and effects -/

/-- An assignment whose value is never read. -/
def dataDependency (c : Comparison) (a b : DataDependency) : Option Difference :=
  if b.deadStores < a.deadStores then
    atFirst (Idiom.deadStoreSites c.candidate) .deadStore .site
      "candidate assigns a value that is overwritten or never read"
      (counted a.deadStores "dead store") (counted b.deadStores "dead store")
  else none

/-- Printed output. -/
def sideEffects (c : Comparison) (a b : SideEffects) : Option Difference :=
  if b.prints < a.prints then
    atFirst (Idiom.stmtSites Idiom.isPrint c.candidate) .printedOutput .site
      "candidate prints diagnostic output" (counted a.prints "print") (counted b.prints "print")
  else none

/-- A copy into a list that is only iterated. -/
def complexity (c : Comparison) (a b : Complexity) : Option Difference :=
  if b.materializations < a.materializations then
    atFirst (Idiom.materializationSites c.candidate) .materialization .site
      "candidate copies an iterable into a list only to iterate it"
      (counted a.materializations "materialization") (counted b.materializations "materialization")
  else none

/-- A docstring that the canon does not have. -/
def functionContracts (c : Comparison) (a b : FunctionContracts) : Option Difference :=
  if a.docstring && !b.docstring then
    (c.candidate.entry? c.entryPoint).map fun f =>
      { kind := .docstring
        hint := .stripDocstring f.name
        explanation := "candidate documents \x60" ++ f.name ++ "\x60; canon carries no docstring"
        ours := "docstring"
        theirs := "none" }
  else none

/-! ### Operators -/

/-- The signature of a commutative operation with its operands exchanged. -/
def reversed? (signature : String) : Option String :=
  match Text.splitAt ':' signature.toList with
  | op :: rest@(_ :: _) =>
    match Text.splitAt ',' (List.intercalate [':'] rest) with
    | left :: right@(_ :: _) =>
      some (String.ofList (op ++ ':' :: (List.intercalate [','] right ++ ',' :: left)))
    | _ => none
  | [] | [_] => none

/-- The position of the first operation whose operands stand the other way in the canon. -/
def swapped? (ours theirs : List String) : Option Nat :=
  (ours.zip theirs).findIdx? fun (a, b) => a != b && reversed? a == some b

/-- An operation with a neutral element, or operands in the other order. -/
def algebraic (c : Comparison) (a b : Algebraic) : Option Difference :=
  let identity :=
    if b.identityOperations < a.identityOperations then
      atFirst (Idiom.exprSites Idiom.isIdentity c.candidate) .identityOperation .site
        "candidate applies an operation with its identity element"
        (counted a.identityOperations "identity operation")
        (counted b.identityOperations "identity operation")
    else none
  identity.or do
    let i ← swapped? a.commutativeOrders b.commutativeOrders
    let site ← (Idiom.exprSites Idiom.isCommutative c.candidate)[i]?
    return {
      kind := .operandOrder
      hint := .site site
      explanation := "candidate orders the operands of a commutative operator the other way"
      ours := a.commutativeOrders.getD i ""
      theirs := b.commutativeOrders.getD i "" }

/-- How often squares are written in each of two ways. -/
def squares (n : Numerical) : String :=
  toString n.powers ++ " powers / " ++ toString n.selfMultiplications ++ " products"

/-- A square written the other way. -/
def power (c : Comparison) (a b : Numerical) : Option Difference :=
  let report (p : Expr → Bool) (toProduct : Bool) (ours theirs : String) : Option Difference :=
    atFirst (Idiom.exprSites p c.candidate) .powerForm (.powerForm · toProduct)
      ("candidate squares as \x60" ++ ours ++ "\x60; canon as \x60" ++ theirs ++ "\x60")
      (squares a) (squares b)
  if b.powers < a.powers && a.selfMultiplications < b.selfMultiplications then
    report Idiom.isSquare true "x ** 2" "x * x"
  else if b.selfMultiplications < a.selfMultiplications && a.powers < b.powers then
    report Idiom.isSelfProduct false "x * x" "x ** 2"
  else none

/-- A square written the other way, or a quotient cut to an integer. -/
def numerical (c : Comparison) (a b : Numerical) : Option Difference :=
  (power c a b).or <|
    if b.truncatingDivisions < a.truncatingDivisions && a.floorDivisions < b.floorDivisions then
      atFirst (Idiom.exprSites Idiom.isTruncatingDivision c.candidate) .truncatingDivision .site
        "candidate truncates a true division; canon floor-divides"
        (counted a.truncatingDivisions "truncating division")
        (counted b.floorDivisions "floor division")
    else none

/-- A word for a grouping. -/
def grouping (right : Bool) : String := if right then "right-nested" else "left-nested"

/-- A chain of an associative operator grouped the other way. -/
def operatorPrecedence (c : Comparison) : Option Difference :=
  let right := Idiom.exprSites Idiom.isRightNested c.candidate
  let left := Idiom.exprSites Idiom.isLeftNested c.candidate
  let canonRight := (Idiom.exprSites Idiom.isRightNested c.canon).length
  let canonLeft := (Idiom.exprSites Idiom.isLeftNested c.canon).length
  let shown (r l : Nat) : String := toString r ++ " right / " ++ toString l ++ " left"
  let report (sites : List Site) (toLeft : Bool) : Option Difference :=
    atFirst sites .reassociation (.reassociate · toLeft)
      ("candidate groups an associative chain " ++ grouping toLeft ++ " where canon groups it " ++
        grouping (!toLeft))
      (shown right.length left.length) (shown canonRight canonLeft)
  if canonRight < right.length && left.length < canonLeft then report right true
  else if canonLeft < left.length && right.length < canonRight then report left false
  else none

/-! ### Tests -/

/-- Whether an expression asks for the length to be zero or not. -/
def isLengthCheck (e : Expr) : Bool := (Idiom.lengthCheck? e).isSome

/-- A test for emptiness in the other form, a comparison with a Boolean constant, or a negated
comparison. -/
def logical (c : Comparison) (a b : Logical) : Option Difference :=
  if b.lengthEmptyChecks < a.lengthEmptyChecks then
    atFirst (Idiom.exprSites isLengthCheck c.candidate) .emptyCheckForm (.emptyCheck · .truthiness)
      "candidate tests emptiness through len(); canon relies on truthiness"
      (counted a.lengthEmptyChecks "length check") (counted b.lengthEmptyChecks "length check")
  else if a.lengthEmptyChecks < b.lengthEmptyChecks && b.truthinessNegations < a.truthinessNegations
  then
    atFirst (Idiom.exprSites Idiom.isNegatedTruthiness c.candidate) .emptyCheckForm
      (.emptyCheck · .length)
      "candidate negates truthiness; canon compares len() with zero"
      (counted a.truthinessNegations "negation") (counted b.lengthEmptyChecks "length check")
  else
    let comparison :=
      if b.boolLiteralComparisons < a.boolLiteralComparisons then
        atFirst (Idiom.exprSites Idiom.isBoolComparison c.candidate) .boolComparison .site
          "candidate compares against a boolean literal"
          (counted a.boolLiteralComparisons "literal comparison")
          (counted b.boolLiteralComparisons "literal comparison")
      else none
    comparison.or <|
      if b.negatedComparisons < a.negatedComparisons then
        atFirst (Idiom.exprSites Idiom.isNegatedComparison c.candidate) .negatedComparison .site
          "candidate negates a comparison instead of inverting it"
          (counted a.negatedComparisons "negated comparison")
          (counted b.negatedComparisons "negated comparison")
      else none

/-! ### Statements -/

/-- The number of assignments that the return at a site takes up. -/
def chainLengthAt (m : Module) (site : Site) : Nat :=
  let found := (m.function? site.function).bind fun f =>
    (Block.sites Idiom.isReturnChain f.body)[site.occurrence]?
  (found.map fun (b, i) => Idiom.returnChainLength b i).getD 1

/-- Assignments that lead to a return of the same name. -/
def statementOrdering (c : Comparison) (a b : List String) : Option Difference :=
  let chains := Idiom.stmtSites Idiom.isReturnChain c.candidate
  if a != b && (Idiom.stmtSites Idiom.isReturnChain c.canon).length < chains.length then
    chains.head?.map fun site =>
      let length := chainLengthAt c.candidate site
      { kind := .consolidatable
        hint := .inlineReturn site length
        explanation := "candidate builds its return value through " ++
          counted length "assignment" ++ " before returning it"
        ours := toString a.length ++ " statements"
        theirs := toString b.length ++ " statements" }
  else none

/-! ### Structure -/

/-- A loop that builds a value where the canon has fewer such loops. -/
def loopBuild (c : Comparison) (p : Block → Nat → Bool) (kind : DifferenceKind)
    (explanation : String) : Option Difference :=
  let ours := Idiom.stmtSites p c.candidate
  let theirs := (Idiom.stmtSites p c.canon).length
  if theirs < ours.length then
    atFirst ours kind .site explanation (counted ours.length "loop") (counted theirs "loop")
  else none

/-- Whether the expression is a string literal. -/
def isString : Expr → Bool
  | .str _ => true
  | _ => false

/-- The value of a text literal. -/
def textValue? : Expr → Option String
  | .str lit => if lit.bytes then none else some lit.value
  | _ => none

/-- The text literals of all functions with their sites among all string literals. -/
def textLiterals (m : Module) : List (Site × String) :=
  m.functions.flatMap fun f =>
    (Block.find isString f.body).zipIdx.filterMap fun (e, i) =>
      (textValue? e).map (⟨f.name, i⟩, ·)

/-- The first text literal that differs, if there are equally many. -/
def literal (c : Comparison) : Option Difference := do
  let ours := textLiterals c.candidate
  let theirs := textLiterals c.canon
  if ours.length != theirs.length then none
  else
    let ((site, a), (_, b)) ← (ours.zip theirs).find? fun (x, y) => x.2 != y.2
    let (kind, explanation) :=
      if CharClass.isVariant a b then
        (DifferenceKind.patternClass, "patterns spell the same character class differently")
      else
        (DifferenceKind.stringLiteral, "candidate and canon spell a string literal differently")
    some
      { kind
        hint := .literal site a b
        explanation
        ours := Quoted.text a
        theirs := Quoted.text b }

/-- The local names of a function that are no parameters, in the order of their binding. -/
def localNames (f : Function) : List String :=
  (Block.boundNames false f.body).filter (!f.paramNames.contains ·)

/-- Parameters by position, then other local names by position, each if there are equally many. -/
def alignedNames (ours theirs : Function) : List (String × String) :=
  let zipped (a b : List String) : List (String × String) :=
    if a.length = b.length then a.zip b else []
  zipped ours.paramNames theirs.paramNames ++ zipped (localNames ours) (localNames theirs)

/-- The renames that a policy admits among aligned names: a new name is not in use and is taken
once. -/
def admitted (policy : NamingPolicy) : List String → List (String × String) → List Rename
  | _, [] => []
  | taken, (a, b) :: rest =>
    if policy.canRename a b && !taken.contains b then
      ⟨a, b⟩ :: admitted policy (b :: taken) rest
    else admitted policy taken rest

/-- Renames that carry the names of the entry function to those of the canon. -/
def naming (c : Comparison) : Option Difference := do
  let policy ← c.naming
  if !policy.allowsRenaming then none
  else
    let ours ← c.candidate.entry? c.entryPoint
    let theirs ← c.canon.entry? c.entryPoint
    let taken := Block.nameOccurrences ours.body ++ ours.paramNames ++
      Block.boundNames true ours.body ++ c.candidate.globals
    let renames := admitted policy taken (alignedNames ours theirs)
    if renames.isEmpty then none
    else
      let listed := ", ".intercalate (renames.map fun r => r.source ++ " -> " ++ r.target)
      some
        { kind := .naming
          hint := .rename ours.name renames
          explanation := "candidate names differ from canon: " ++ listed
          ours := ", ".intercalate ours.paramNames
          theirs := ", ".intercalate theirs.paramNames }

/-- A loop that builds a value, a literal, or names. -/
def structural (c : Comparison) : Option Difference :=
  (loopBuild c Idiom.isAccumulatorLoop .accumulatorLoop
      "candidate appends to a list in a loop; canon builds it in one expression").or <|
    (loopBuild c Idiom.isConcatLoop .concatenation
      "candidate concatenates strings in a loop; canon joins them").or <|
    (literal c).or (naming c)

end Explain

end Concord
