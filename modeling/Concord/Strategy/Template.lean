import Concord.Strategy.Basic

/-!
# The template

The canon itself in the place of the candidate, under the name of the candidate's entry function.
-/

namespace Concord.Template

/-- The name under which the template is reported. -/
def name : String := "oracle_guided_template"

/-- The canon with its entry function named as that of the candidate. -/
def adapted (candidate canon : Module) (entryPoint : Option String) : Module :=
  match candidate.entry? entryPoint, canon.entry? entryPoint with
  | some wanted, some found =>
    if wanted.name = found.name then canon
    else ⟨Block.rename found.name wanted.name canon.body⟩
  | _, _ => canon

/-- The printed template, unless the candidate already is the same tree. -/
def generate (candidate canon : String) (entryPoint : Option String) :
    Except StrategyError (Option String) :=
  match Module.parse? candidate, Module.parse? canon with
  | some a, some b =>
    let template := adapted a b entryPoint
    .ok (if template = a then none else some template.text)
  | _, _ => .error .unparsable

end Concord.Template
