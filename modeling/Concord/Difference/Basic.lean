import Concord.Difference.Kind
import Concord.Idiom.Site

/-!
# Differences and hints

An explained difference names what the candidate does and what the canon does, and carries a hint
that tells a strategy where to act and in which direction.
-/

namespace Concord

/-- The form of an emptiness test that is wanted. -/
inductive EmptyForm where
  /-- `not x`, or `x` itself. -/
  | truthiness
  /-- A comparison of the length with zero. -/
  | length
deriving Repr, DecidableEq

namespace EmptyForm

/-- The name of a direction in documents. -/
def name : EmptyForm → String
  | truthiness => "to_truthiness"
  | length => "to_length"

/-- The direction with that name. -/
def ofName? (s : String) : Option EmptyForm := [truthiness, length].find? (·.name == s)

end EmptyForm

/-- A name and the name it becomes. -/
structure Rename where
  source : String
  target : String
deriving Repr, DecidableEq

/-- What a strategy needs to know about a difference. -/
inductive Hint where
  /-- The idiom at a site. -/
  | site (site : Site)
  /-- A return at a site that takes up so many assignments. -/
  | inlineReturn (site : Site) (chainLength : Nat)
  /-- An emptiness test and its new form. -/
  | emptyCheck (site : Site) (form : EmptyForm)
  /-- A square and whether it becomes a product. -/
  | powerForm (site : Site) (toProduct : Bool)
  /-- A chain of operators and whether it becomes grouped to the left. -/
  | reassociate (site : Site) (toLeft : Bool)
  /-- A string literal, its value and its new value. -/
  | literal (site : Site) (source target : String)
  /-- Names of a function that are renamed at once. -/
  | rename (function : String) (renames : List Rename)
  /-- A function that loses its docstring. -/
  | stripDocstring (function : String)
  /-- Nothing to act on. -/
  | none
deriving Repr, DecidableEq

namespace Hint

/-- The tag of a hint in documents. -/
def tag : Hint → String
  | site _ => "site"
  | inlineReturn _ _ => "inline_return"
  | emptyCheck _ _ => "empty_check"
  | powerForm _ _ => "power_form"
  | reassociate _ _ => "reassociate"
  | literal _ _ _ => "literal_alignment"
  | rename _ _ => "rename"
  | stripDocstring _ => "strip_docstring"
  | none => "none"

end Hint

/-- An explained difference between a candidate and a canon. -/
structure Difference where
  kind : DifferenceKind
  facet : Facet := kind.facet
  severity : Rat := kind.severity
  hint : Hint
  explanation : String := ""
  ours : String := ""
  theirs : String := ""
deriving Repr, DecidableEq

/-- Whether a difference is acted on no later than another: the more severe one first, and of equal
ones the one in the earlier facet. -/
def Difference.precedes (a b : Difference) : Bool :=
  b.severity < a.severity || (a.severity == b.severity && a.facet.rank ≤ b.facet.rank)

end Concord
