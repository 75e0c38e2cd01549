import Concord.Profile.Document
import Concord.Number.Binary

/-!
# Distance between profiles

Each facet is compared by the rule of its shape, and the distance of two profiles is the mean over
all facets, where a facet that is missing on either side counts as the greatest distance. Every
operation is rounded to double precision. Main facts: the rules are symmetric, and the distance of a
complete profile to itself is zero.
-/

namespace Concord

/-- Which digest of the pair is compared. -/
inductive HashSelection where
  /-- The tree as written, where local names count. -/
  | literal
  /-- The normal form, where local names do not count. -/
  | nameInvariant
deriving Repr, DecidableEq, Inhabited

namespace HashSelection

/-- The name of a selection in documents. -/
def name : HashSelection → String
  | literal => "literal"
  | nameInvariant => "name_invariant"

/-- The selection with that name. -/
def ofName? (s : String) : Option HashSelection := [literal, nameInvariant].find? (·.name == s)

/-- Names count where a naming policy is in force. -/
def forPolicy (hasPolicy : Bool) : HashSelection := if hasPolicy then literal else nameInvariant

end HashSelection

/-- The selected digest. -/
def StructureHashes.select (h : StructureHashes) : HashSelection → Digest
  | .literal => h.literal
  | .nameInvariant => h.nameInvariant

/-- A class of distances. -/
inductive Band where
  | none
  | minor
  | moderate
  | major
deriving Repr, DecidableEq

namespace Band

/-- The name of a band in documents. -/
def name : Band → String
  | none => "none"
  | minor => "minor"
  | moderate => "moderate"
  | major => "major"

/-- The least distance that is not minor. -/
def moderateFrom : Rat := Binary.round (3 / 10)

/-- The least distance that is major. -/
def majorFrom : Rat := Binary.round (7 / 10)

/-- The band of a distance. -/
def ofDistance (d : Rat) : Band :=
  if d ≤ 0 then none else if d < moderateFrom then minor else if d < majorFrom then moderate
  else major

/-- The band of a double; what is no number is as far as can be. -/
def ofFloat (x : Float) : Band :=
  if x.isNaN then major
  else if x.isInf then (if Binary.isNegative x then none else major)
  else ofDistance (Binary.valueOf x)

end Band

namespace Distance

/-- A quotient of counts; both are doubles before they are divided. -/
def ratio (a b : Nat) : Rat := Binary.round (Binary.round a / Binary.round b)

/-! ### Records -/

mutual

/-- The fields of a document that are no objects themselves, by their dotted paths. -/
def leaves (path : String) : Json → List (String × Json)
  | .obj fields => leavesFields path fields
  | .null => [(path, .null)]
  | .bool b => [(path, .bool b)]
  | .int v => [(path, .int v)]
  | .float v => [(path, .float v)]
  | .str s => [(path, .str s)]
  | .arr items => [(path, .arr items)]

/-- `leaves` of the fields of an object. -/
def leavesFields (path : String) : List (String × Json) → List (String × Json)
  | [] => []
  | (k, j) :: fs =>
    leaves (if path.isEmpty then k else path ++ "." ++ k) j ++ leavesFields path fs

end

/-- The paths of both documents, and those of them where the documents differ. -/
def compared (a b : List (String × Json)) : List String × List String :=
  let keys := Names.ofList ((a ++ b).map (·.1))
  (keys, keys.filter fun k => a.lookup k != b.lookup k)

/-- The share of the dotted paths where two documents differ. -/
def record (a b : Json) : Rat :=
  let (keys, differing) := compared (leaves "" a) (leaves "" b)
  ratio differing.length keys.length

/-! ### Sequences -/

/-- A pass over cells of a row, for the items `ys` they stand for. `diagonal` is what the cell on the
left held before the pass, and `left` is what it holds now. -/
def lcsPass (x : String) (diagonal left : Nat) : List String → List Nat → List Nat
  | y :: ys, above :: row =>
    let cell := if x = y then diagonal + 1 else max above left
    cell :: lcsPass x above cell ys row
  | _, _ => []

/-- The row with one more item taken into account. The first cell stands for no item and stays. -/
def lcsUpdate (ys : List String) : List Nat → String → List Nat
  | first :: row, x => first :: lcsPass x 0 first ys row
  | [], _ => []

/-- The length of the longest common subsequence, from a row with a cell for every prefix of `ys`. -/
def lcsLength (xs ys : List String) : Nat :=
  (xs.foldl (lcsUpdate ys) (List.replicate (ys.length + 1) 0)).getD ys.length 0

/-- One minus the share of the longest common subsequence in the longer list. -/
def sequence (xs ys : List String) : Rat :=
  let longest := max xs.length ys.length
  if longest = 0 then 0 else Binary.round (1 - ratio (lcsLength xs ys) longest)

/-! ### Recursion -/

/-- The difference of two counts in relation to the greater one. -/
def gap (a b : Nat) : Rat := ratio ((a - b) + (b - a)) (max (max a b) 1)

/-- The mean of the differences in branching, base cases and calls. -/
def recursion (a b : RecursionSchema) : Rat :=
  if a.isRecursive != b.isRecursive then 1
  else
    let branching : Rat := if a.branching = b.branching then 0 else 1
    let sum := Binary.round (Binary.round (branching + gap a.baseCases b.baseCases) +
      gap a.recursiveCalls b.recursiveCalls)
    Binary.round (sum / 3)

/-- The distance between two values; values of different facets are far apart. -/
def values (selection : HashSelection) : FacetValue → FacetValue → Rat
  | .normalizedStructure a, .normalizedStructure b =>
    if a.select selection = b.select selection then 0 else 1
  | .operatorPrecedence a, .operatorPrecedence b => sequence a b
  | .statementOrdering a, .statementOrdering b => sequence a b
  | .recursionSchema a, .recursionSchema b => recursion a b
  | a, b =>
    if a.facet = b.facet then record (Profile.Document.payload a) (Profile.Document.payload b)
    else 1

end Distance

/-- The distance of a facet with its band. -/
structure FacetDistance where
  facet : Facet
  distance : Rat
deriving Repr, DecidableEq

/-- The band of the distance of a facet. -/
def FacetDistance.band (d : FacetDistance) : Band := .ofDistance d.distance

namespace Profile

/-- The distance of two profiles in a facet. -/
def facetDistance (selection : HashSelection) (a b : Profile) (k : Facet) : Rat :=
  match a.get? k, b.get? k with
  | some x, some y => Distance.values selection x y
  | _, _ => 1

/-- The distances of two profiles in all facets. -/
def distances (selection : HashSelection) (a b : Profile) : List FacetDistance :=
  Facet.all.map fun k => ⟨k, facetDistance selection a b k⟩

/-- The distance of two profiles: the mean over all facets. -/
def distance (selection : HashSelection) (a b : Profile) : Rat :=
  let total := (distances selection a b).foldl (fun acc d => Binary.round (acc + d.distance)) 0
  Binary.round (total / Facet.count)

end Profile

end Concord
