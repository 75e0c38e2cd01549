import Concord.Strategy.Basic

/-!
# Flow

Assignments before a return, branches that return, branches after a return, and loops over indices.
-/

namespace Concord.Strategy

/-- A return with a value put in the place of a name. -/
def takeUp (target : String) (value : Expr) : Stmt → Stmt
  | .ret (some e) => .ret (some (e.substitute target value))
  | s => s

/-- Fold so many assignments that stand right before position `i` into the return there. -/
def foldReturn : Nat → Block → Nat → Option Block
  | 0, block, _ => some block
  | _ + 1, _, 0 => none
  | count + 1, block, i + 1 =>
    match block[i]? with
    | some (.assign (.name target :: _) value _) =>
      foldReturn count ((block.eraseIdx i).modify i (takeUp target value)) i
    | _ => none

/-- Fold the chain of assignments before a return into it, at most `wanted` of them. -/
def inlineChain (wanted : Nat) (block : Block) (i : Nat) : Option Block :=
  match min wanted (Idiom.returnChainLength block i) with
  | 0 => none
  | count => foldReturn count block i

/-- Fold the assignments that lead to a return into it. -/
def inlineReturnChain : Strategy :=
  forHint "inline_return_chain" .consolidatable
    (fun | .inlineReturn site length => some (site, length) | _ => none)
    fun (site, wanted) => editAt Idiom.isReturnChain (inlineChain wanted) site

/-- Two returns under a condition as the return of a conditional expression. -/
def collapseReturns (block : Block) (i : Nat) : Option Block :=
  match block[i]? with
  | some (.cond test body orelse) =>
    let (other, rest) :=
      if orelse.isEmpty then (block[i + 1]?, block.drop (i + 2))
      else (orelse.head?, block.drop (i + 1))
    match body.getLast?, other with
    | some (.ret (some a)), some (.ret (some b)) =>
      some (block.take i ++ .ret (some (.ifExp test a b)) :: rest)
    | _, _ => none
  | _ => none

/-- Return a conditional expression instead of branching. -/
def conditionalExpression : Strategy :=
  atSite "conditional_expression" .ifReturn (editAt Idiom.isIfElseReturn collapseReturns)

/-- The other branch of a conditional put behind it. -/
def hoistElse (block : Block) (i : Nat) : Option Block :=
  match block[i]? with
  | some (.cond test body orelse) =>
    some (block.take i ++ .cond test body [] :: (orelse ++ block.drop (i + 1)))
  | _ => none

/-- Drop an `else` after a branch that always leaves. -/
def flattenElse : Strategy :=
  atSite "flatten_else_after_return" .elseAfterReturn (editAt Idiom.isElseAfterReturn hoistElse)

/-- A name that is free: the base itself, or the base with the first number that makes it free. -/
def freshName (taken : List String) (base : String) : String :=
  if !taken.contains base && !isBuiltin base then base
  else
    let numbered := (List.range (taken.length + 1)).map fun n => base ++ "_" ++ toString (n + 1)
    (numbered.find? (!taken.contains ·)).getD base

/-- A loop over the elements of a sequence in the place of one over its indices. -/
def iterateElements (element : String) (block : Block) (i : Nat) : Option Block :=
  match Idiom.indexIteration? block i, block[i]? with
  | some (index, sequence), some (.forLoop _ _ body orelse) =>
    let read (e : Expr) : Expr := if Idiom.isElement sequence index e then .name element else e
    some (block.set i (.forLoop (.name element) (.name sequence) (Stmt.mapList id read body) orelse))
  | _, _ => none

/-- Let a loop over indices in a function run over elements, under a name that is free there. -/
def iterateAt (site : Site) : ModuleEdit := fun m =>
  inFunction site.function (fun f =>
    let taken := Block.nameOccurrences f.body ++ f.paramNames ++ m.globals
    let edit := iterateElements (freshName taken "item")
    (Block.editNth? Idiom.isIndexIteration edit f.body site.occurrence).map fun body =>
      { f with body }) m

/-- Iterate over elements instead of indices. -/
def directIteration : Strategy := atSite "direct_iteration" .indexIteration iterateAt

end Concord.Strategy
