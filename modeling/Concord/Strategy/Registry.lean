import Concord.Strategy.Arithmetic
import Concord.Strategy.Build
import Concord.Strategy.Condition
import Concord.Strategy.Flow
import Concord.Strategy.Removal

/-!
# Registered strategies

A registry is a list of strategies with different names. Those that apply to a difference are tried
in the order of the list.
-/

namespace Concord

/-- Strategies in the order in which they are tried. -/
abbrev Strategies := List Strategy

namespace Strategies

/-- The twenty standard strategies. -/
def standard : Strategies :=
  [Strategy.inlineReturnChain, Strategy.emptyCheck, Strategy.boolComparison,
    Strategy.negatedComparison, Strategy.loopToComprehension, Strategy.concatToJoin,
    Strategy.literalAlignment, Strategy.identifierRename, Strategy.conditionalExpression,
    Strategy.flattenElse, Strategy.deadStoreElimination, Strategy.stripOutput,
    Strategy.directIteration, Strategy.unwrapMaterialization, Strategy.identityElimination,
    Strategy.commutativeSwap, Strategy.powerMultiplication, Strategy.floorDivision,
    Strategy.reassociate, Strategy.stripDocstring]

/-- The names of the strategies. -/
def names (ss : Strategies) : List String := ss.map (·.name)

/-- The strategy with that name. -/
def find? (ss : Strategies) (name : String) : Option Strategy := List.find? (·.name == name) ss

/-- The strategies without the one of that name. -/
def erase (ss : Strategies) (name : String) : Strategies := ss.filter (·.name != name)

/-- The strategies that serve the facet of a difference and handle its kind. -/
def applicable (ss : Strategies) (d : Difference) : Strategies :=
  ss.filter fun s => s.facet = d.facet && s.handles d.kind

end Strategies

end Concord
