import Concord.Strategy.Basic

/-!
# Built values, literals and names

Loops that build a value, string literals that are spelled differently, and names.
-/

namespace Concord.Strategy

/-- A comprehension that builds the same elements as a loop. -/
def comprehension (kind : CompKind) (b : Idiom.LoopBuild) : Expr :=
  .comp kind b.element none [⟨b.target, b.iter, b.condition.toList⟩]

/-- Put an assignment to a name in the place of a start value and the loop after it. -/
def collapse (block : Block) (i : Nat) (accumulator : String) (value : Expr) : Block :=
  block.take i ++ .assign [.name accumulator] value none :: block.drop (i + 2)

/-- Build a list by a comprehension. -/
def loopToComprehension : Strategy :=
  atSite "loop_to_comprehension" .accumulatorLoop
    (editAt Idiom.isAccumulatorLoop fun block i =>
      (Idiom.accumulatorLoop? block i).map fun b =>
        collapse block i b.accumulator (comprehension .list b))

/-- The joined elements of a loop; where each is taken as it is, of what it runs over. -/
def joined (b : Idiom.LoopBuild) : Expr :=
  let items :=
    if b.condition.isNone && b.element = b.target then b.iter else comprehension .generator b
  .call (.attribute (.str ⟨"", false, false⟩) "join") [.positional items]

/-- Build a text by joining. -/
def concatToJoin : Strategy :=
  atSite "concat_to_join" .concatenation
    (editAt Idiom.isConcatLoop fun block i =>
      (Idiom.concatLoop? block i).map fun b => collapse block i b.accumulator (joined b))

/-- A text literal with another value, if it has the expected one. -/
def respelled (source target : String) : Expr → Expr
  | .str lit =>
    if !lit.bytes && lit.value = source then .str { lit with value := target } else .str lit
  | e => e

/-- Whether the expression is a string literal. -/
def isStringLiteral : Expr → Bool
  | .str _ => true
  | _ => false

/-- Respell a string literal, also in a pattern. -/
def literalAlignment : Strategy :=
  let one := forHint "literal_alignment" .stringLiteral
    (fun | .literal site source target => some (site, source, target) | _ => none)
    fun (site, source, target) =>
      replaceAt isStringLiteral (fun e => some (respelled source target e)) site
  { one with handles := fun k => k == .stringLiteral || k == .patternClass }

/-- Rename parameters and names in the scope of a function. -/
def renameScope (source target : String) (f : Function) : Function :=
  { f with
    params := f.params.map (·.rename source target)
    body := Block.rename source target f.body }

/-- The name that stands in for the one numbered `n` while names are exchanged. -/
def stagedName (n : Nat) : String := "__canonize_rename_" ++ toString n

/-- Rename all sources to staged names and then these to the targets, so that names may change
places. -/
def renameAll (renames : List Rename) (f : Function) : Function :=
  let staged := renames.zipIdx
  let out := staged.foldl (fun f (r, n) => renameScope r.source (stagedName n) f) f
  staged.foldl (fun f (r, n) => renameScope (stagedName n) r.target f) out

/-- Rename identifiers of a function at once. -/
def identifierRename : Strategy :=
  forHint "identifier_rename" .naming
    (fun | .rename function renames => some (function, renames) | _ => none)
    fun (function, renames) =>
      inFunction function fun f => if renames.isEmpty then none else some (renameAll renames f)

end Concord.Strategy
