import Concord.Difference.Basic
import Concord.Source.Statement
import Concord.Tree.Edit
import Concord.Tree.Printer

/-!
# Strategies

A strategy changes a source where a hint points to. It reads the source, edits the tree and prints
it; it declines where the idiom no longer stands or the edit changes nothing.
-/

namespace Concord

/-- Why a strategy fails. -/
inductive StrategyError where
  /-- The source does not parse. -/
  | unparsable
  /-- A hint of a form that the strategy cannot act on. -/
  | unexpectedHint (strategy hint : String)
  /-- A hint for a function that the source does not define. -/
  | missingFunction (name : String)
deriving Repr, DecidableEq

/-- The wording of an error. -/
def StrategyError.message : StrategyError → String
  | unparsable => "source does not parse: syntax error"
  | unexpectedHint strategy hint =>
    "strategy '" ++ strategy ++ "' cannot act on a '" ++ hint ++ "' hint"
  | missingFunction name => "no top-level function '" ++ name ++ "' in source"

/-- A change that closes differences of some kinds. -/
structure Strategy where
  name : String
  facet : Facet
  handles : DifferenceKind → Bool
  generate : Difference → String → Except StrategyError (Option String)

namespace Strategy

/-- An edit of a module: it fails, declines or changes the module. -/
abbrev ModuleEdit := Module → Except StrategyError (Option Module)

/-- Read a source, edit it and print it; an edit that changes nothing declines. -/
def editSource (edit : ModuleEdit) (source : String) : Except StrategyError (Option String) :=
  match Module.parse? source with
  | none => .error .unparsable
  | some m =>
    match edit m with
    | .error e => .error e
    | .ok none => .ok none
    | .ok (some edited) => .ok (if edited = m then none else some edited.text)

/-- Edit the first function of a name. -/
def inFunction (name : String) (edit : Function → Option Function) : ModuleEdit := fun m =>
  match m.function? name with
  | none => .error (.missingFunction name)
  | some _ => .ok (m.editFunction? name edit)

/-- Edit the body of the first function of a name. -/
def inBody (name : String) (edit : Block → Option Block) : ModuleEdit :=
  inFunction name fun f => (edit f.body).map fun body => { f with body }

/-- Replace the expression at a site of `p`, unless `f` declines. -/
def replaceAt (p : Expr → Bool) (f : Expr → Option Expr) (site : Site) : ModuleEdit :=
  inBody site.function fun body =>
    Block.replaceNth? p (fun e => (f e).getD e) body site.occurrence

/-- Edit the block at a site of `p`. -/
def editAt (p : Block → Nat → Bool) (edit : Block → Nat → Option Block) (site : Site) :
    ModuleEdit :=
  inBody site.function fun body => Block.editNth? p edit body site.occurrence

/-- A strategy for one kind of difference that acts on hints which `accepts` understands. -/
def forHint {α : Type} (name : String) (kind : DifferenceKind) (accepts : Hint → Option α)
    (edit : α → ModuleEdit) : Strategy where
  name := name
  facet := kind.facet
  handles := (· == kind)
  generate d source :=
    match accepts d.hint with
    | some a => editSource (edit a) source
    | none => .error (.unexpectedHint name d.hint.tag)

/-- The site of a plain hint. -/
def plainSite : Hint → Option Site
  | .site s => some s
  | _ => none

/-- A strategy for one kind of difference that acts on a site. -/
def atSite (name : String) (kind : DifferenceKind) (edit : Site → ModuleEdit) : Strategy :=
  forHint name kind plainSite edit

/-- A block that is never empty: where nothing is left, `pass` stands. -/
def nonempty (b : Block) : Block := if b.isEmpty then [.pass] else b

end Strategy

end Concord
