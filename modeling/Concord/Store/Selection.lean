import Concord.Contract.Basic

/-!
# Choosing a canon

Of the candidates that pass the oracle the best one is chosen: a fully compliant one before others, then
by score, then by pass rate, then the earliest.
-/

namespace Concord

/-- A candidate that passed the oracle. -/
structure Choice where
  index : Nat
  code : String
  oracle : Verdict
  compliance : Compliance

namespace Choice

/-- The order of two numbers, in which a negative zero comes before the other zero. -/
def numberOrder (x y : Float) : Ordering :=
  if Binary.valueOf x < Binary.valueOf y then .lt
  else if Binary.valueOf y < Binary.valueOf x then .gt
  else compare (!Binary.isNegative x) (!Binary.isNegative y)

/-- The order of two candidates by how good they are, their places left aside. -/
def quality (a b : Choice) : Ordering :=
  (compare a.compliance.fullyCompliant b.compliance.fullyCompliant).then
    ((numberOrder a.compliance.score b.compliance.score).then
      (numberOrder a.oracle.passRate b.oracle.passRate))

/-- The better of two candidates, the first on a tie. -/
def better (a b : Choice) : Choice := if (quality a b).isLT then b else a

/-- The candidates that pass, with the texts that the oracle was asked about before. -/
def passing (oracle : Oracle) (checker : Checker) (contract : Contract) :
    Nat → List String → List String → List Choice
  | _, _, [] => []
  | index, asked, code :: rest =>
    let v := oracle contract asked code
    let others := passing oracle checker contract (index + 1) (code :: asked) rest
    if v.passed then
      { index, code, oracle := v, compliance := checker contract code } :: others
    else others

/-- The best candidate that passes the oracle, if one does. -/
def select (oracle : Oracle) (checker : Checker) (contract : Contract)
    (candidates : List String) : Option Choice :=
  match passing oracle checker contract 0 [] candidates with
  | [] => none
  | c :: cs => some (cs.foldl better c)

end Choice

end Concord
