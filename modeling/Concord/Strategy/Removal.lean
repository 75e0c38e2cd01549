import Concord.Strategy.Basic

/-!
# Removal

Values that are never read, printed output, copies that are only iterated, and docstrings.
-/

namespace Concord.Strategy

/-- Drop an assignment whose value is never read; the site counts the statements of the
function. -/
def deadStoreElimination : Strategy :=
  atSite "dead_store_elimination" .deadStore fun site =>
    inFunction site.function fun f =>
      if (Idiom.deadStores f).contains site.occurrence then
        some { f with body := nonempty (f.body.eraseIdx site.occurrence) }
      else none

/-- Drop a printing statement. -/
def stripOutput : Strategy :=
  atSite "strip_diagnostic_output" .printedOutput
    (editAt Idiom.isPrint fun block i => some (nonempty (block.eraseIdx i)))

/-- The argument of a conversion. -/
def converted? : Expr → Option Expr
  | .call _ [.positional e] => some e
  | _ => none

/-- Iterate over something itself instead of a copy; the site counts all conversions. -/
def unwrapMaterialization : Strategy :=
  atSite "unwrap_materialization" .materialization fun site =>
    inBody site.function fun body =>
      if (Idiom.redundantMaterializations body).contains site.occurrence then
        Block.replaceNth? Idiom.isMaterializing (fun e => (converted? e).getD e) body
          site.occurrence
      else none

/-- Drop the docstring of a function. -/
def stripDocstring : Strategy :=
  forHint "strip_docstring" .docstring (fun | .stripDocstring f => some f | _ => none) fun name =>
    inFunction name fun f =>
      f.docstring?.map fun _ => { f with body := nonempty f.body.tail }

end Concord.Strategy
