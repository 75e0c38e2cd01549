import Concord.Idiom.Position

/-!
# Sites

A site addresses a match of an idiom by the name of a top-level function and the number of the match
in it. Normalizing local names does not change the shape of a tree, so a site found on the normal
form addresses the same part of the tree it came from.
-/

namespace Concord

/-- A match of an idiom in a top-level function. -/
structure Site where
  function : String
  occurrence : Nat
deriving Repr, DecidableEq, Inhabited

namespace Idiom

/-- Sites numbered by `occurrences` in every top-level function. -/
def sitesBy (occurrences : Function → List Nat) (m : Module) : List Site :=
  m.functions.flatMap fun f => (occurrences f).map (⟨f.name, ·⟩)

/-- The sites of expressions that satisfy `p`. -/
def exprSites (p : Expr → Bool) : Module → List Site :=
  sitesBy fun f => List.range (Block.count p f.body)

/-- The sites of positions that satisfy `p`. -/
def stmtSites (p : Block → Nat → Bool) : Module → List Site :=
  sitesBy fun f => List.range (Block.sites p f.body).length

/-- The sites of conversions that are only iterated. -/
def materializationSites : Module → List Site :=
  sitesBy fun f => redundantMaterializations f.body

/-- The sites of values that are never read; the number is the position in the function's block. -/
def deadStoreSites : Module → List Site := sitesBy deadStores

/-- The calls a function makes of itself. -/
def selfCalls (f : Function) : List Expr := Block.find (Expr.isCallOf f.name) f.body

end Idiom

end Concord
