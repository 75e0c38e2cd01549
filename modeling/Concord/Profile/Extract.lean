import Concord.Profile.Dependency
import Concord.Profile.Document
import Concord.Profile.Effect
import Concord.Profile.Recursion
import Concord.Profile.Skeleton
import Concord.Source.Statement
import Concord.Tree.Normal

/-!
# The profile of a source

Every facet but the pair of digests is read off the normal form, so that local names show in that
pair alone. A text that does not parse has the empty profile.
-/

namespace Concord

/-- Which optional fields a profile fills. -/
inductive Mode where
  /-- Counts and shapes only. -/
  | baseline
  /-- Also printed conditions and exits. -/
  | enhanced
deriving Repr, DecidableEq, Inhabited

namespace Mode

/-- The name of a mode in documents. -/
def name : Mode → String
  | baseline => "baseline"
  | enhanced => "enhanced"

/-- The mode with that name. -/
def ofName? (s : String) : Option Mode := [baseline, enhanced].find? (·.name == s)

end Mode

namespace Module

/-- The digests of the printed module as written and of its normal form. -/
def hashes (m : Module) : StructureHashes :=
  ⟨Digest.ofText m.text, Digest.ofText m.normalize.text⟩

/-- The value of a facet, from a module and its normal form. -/
def facetOf (mode : Mode) (m normal : Module) : Facet → FacetValue
  | .controlFlow => .controlFlow (normal.controlFlow (mode = .enhanced))
  | .dataDependency => .dataDependency normal.dataDependency
  | .executionPaths => .executionPaths (normal.executionPaths (mode = .enhanced))
  | .functionContracts => .functionContracts normal.functionContracts
  | .complexity => .complexity normal.complexity
  | .sideEffects => .sideEffects normal.sideEffects
  | .termination => .termination normal.termination
  | .algebraicStructure => .algebraicStructure normal.algebraic
  | .numericalBehavior => .numericalBehavior normal.numerical
  | .logicalEquivalence => .logicalEquivalence (normal.logical (mode = .enhanced))
  | .normalizedStructure => .normalizedStructure m.hashes
  | .operatorPrecedence => .operatorPrecedence normal.operatorPrecedence
  | .statementOrdering => .statementOrdering normal.statementOrdering
  | .recursionSchema => .recursionSchema normal.recursionSchema

/-- The value of a facet of a module. -/
def facet (mode : Mode) (m : Module) (k : Facet) : FacetValue := facetOf mode m m.normalize k

/-- The profile of a module. -/
def profile (mode : Mode) (m : Module) : Profile :=
  let normal := m.normalize
  Facet.all.foldl (fun p k => p.insert (facetOf mode m normal k)) .empty

theorem facet_facetOf (mode : Mode) (m normal : Module) (k : Facet) :
    (facetOf mode m normal k).facet = k := by cases k <;> rfl

end Module

/-- The profile of a source text. -/
def Profile.ofSource (mode : Mode) (source : String) : Profile :=
  match Module.parse? source with
  | some m => m.profile mode
  | none => .empty

end Concord
