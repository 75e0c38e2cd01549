import Concord.Number.Binary
import Concord.Probe.Basic
import Concord.Text.Names
import Concord.Text.Search

/-!
# Contracts and judges

A contract says what a function is for and under which names. Two judges look at a text from
outside: an oracle says how far it behaves as the contract asks, and a checker says how far it
follows the rules of style.
-/

namespace Concord

/-! ## Naming policies

A policy says which names may be renamed. A fixed name is neither renamed nor chosen as a new name,
a flexible name may be renamed, and a strict policy forbids every renaming. Where no flexible names
are listed, every name is flexible; an empty list makes none flexible.
-/

/-- Which names may be renamed. -/
structure NamingPolicy where
  fixed : List String := []
  flexible : Option (List String) := none
  strict : Bool := false
deriving Repr, DecidableEq

namespace NamingPolicy

/-- Whether a name is flexible. -/
def isFlexible (p : NamingPolicy) (name : String) : Bool := p.flexible.all (·.contains name)

/-- Whether some name may be renamed. -/
def allowsRenaming (p : NamingPolicy) : Bool :=
  !p.strict &&
    match p.flexible with
    | none => true
    | some names => names.any (!p.fixed.contains ·)

/-- Whether one name may be renamed to another. -/
def canRename (p : NamingPolicy) (source target : String) : Bool :=
  !p.strict && source != target && !p.fixed.contains source && !p.fixed.contains target &&
    p.isFlexible source

end NamingPolicy

/-! ## Contracts and what is said under them -/

/-- What a function is for. -/
structure Contract where
  id : String := ""
  entryPoint : Option String := none
  description : String := ""
  naming : Option NamingPolicy := none
  constraints : List String := []
deriving Repr, DecidableEq

/-- What an oracle says about a text. -/
structure Verdict where
  passed : Bool
  passRate : Float
  detail : String := ""
deriving Repr, DecidableEq

namespace Verdict

/-- The verdict of a text that behaves as asked. -/
def pass (detail : String) : Verdict := { passed := true, passRate := 1, detail }

/-- The verdict of a text that does not, with a rate put between zero and one. -/
def fail (rate : Float) (detail : String) : Verdict :=
  { passed := false
    passRate := if rate < 0 then 0 else if 1 < rate then 1 else rate
    detail }

/-- Whether a verdict is worse than an earlier one: the text passed and does not any more, or passes
a smaller share. -/
def regressesFrom (v before : Verdict) : Bool :=
  (before.passed && !v.passed) || Binary.valueOf v.passRate < Binary.valueOf before.passRate

end Verdict

/-- What a checker says about a text. -/
structure Compliance where
  fullyCompliant : Bool := false
  score : Float := 0
  violations : List String := []
deriving Repr, DecidableEq

/-! ## Judges

Some plain ones: an oracle that compares with a reference text, judges that go by the words in a
text, and a checker that prefers short texts.
-/

/-- What an oracle says about a text under a contract. It may answer the same question differently
later, so it is also given the texts it was asked about before, the latest first. -/
abbrev Oracle := Contract → List String → String → Verdict

/-- What a checker says about a text under a contract. -/
abbrev Checker := Contract → String → Compliance

/-- The answer of the first row whose part stands in a text, or a default. -/
def judgeByRows {α : Type} (rows : List (String × α)) (default : α) (text : String) : α :=
  ((rows.find? fun row => Text.holds row.1.toList text.toList).map (·.2)).getD default

namespace Oracle

/-- The same verdict on every text. -/
def always (v : Verdict) : Oracle := fun _ _ _ => v

/-- A verdict by the words in a text. -/
def byRows (rows : List (String × Verdict)) (default : Verdict) : Oracle :=
  fun _ _ text => judgeByRows rows default text

/-- A text passes if a probe finds it equivalent to the reference. -/
def reference (source : String) : Oracle := fun contract _ text =>
  let v := Probe.compareTexts {} source text contract.entryPoint
  if v.isEquivalent then .pass v.text else .fail 0 v.text

end Oracle

namespace Checker

/-- A report by the words in a text. -/
def byRows (rows : List (String × Compliance)) (default : Compliance) : Checker :=
  fun _ text => judgeByRows rows default text

/-- Every text complies; its score falls with the number of its lines that are not blank. -/
def brevity : Checker := fun _ text =>
  let lines := (Text.lines text.toList).filter (!Text.allBlank ·)
  { fullyCompliant := true, score := 1 / Float.ofNat (max lines.length 1) }

end Checker

end Concord
