import Concord.Strategy.Basic

/-!
# Arithmetic

Neutral elements, operand order, squares, quotients and the grouping of associative operators.
-/

namespace Concord.Strategy

/-- The operand that an operation with a neutral element leaves as it is. -/
def withoutIdentity? : Expr → Option Expr
  | .bin op l r =>
    let dropsRight := match op with
      | .add | .sub => r.isInt 0
      | .mul | .pow => r.isInt 1
      | _ => false
    let dropsLeft := match op with
      | .add => l.isInt 0
      | .mul => l.isInt 1
      | _ => false
    if dropsRight then some l else if dropsLeft then some r else none
  | _ => none

/-- A commutative operation with its operands exchanged. -/
def swapped? : Expr → Option Expr
  | .bin op l r => if op.isCommutative then some (.bin op r l) else none
  | _ => none

/-- A power as a product of its base with itself. -/
def powerToProduct? : Expr → Option Expr
  | .bin .pow l _ => some (.bin .mul l l)
  | _ => none

/-- A product as the square of its first factor. -/
def productToPower? : Expr → Option Expr
  | .bin .mul l _ => some (.bin .pow l (.int 2))
  | _ => none

/-- A converted quotient as a floor division. -/
def floored? (e : Expr) : Option Expr :=
  match e.asSimpleCall? with
  | some (_, [.bin .div l r]) => some (.bin .floorDiv l r)
  | _ => none

/-- A chain grouped to the left. -/
def regroupLeft? : Expr → Option Expr
  | .bin op a (.bin inner b c) => if inner = op then some (.bin op (.bin op a b) c) else none
  | _ => none

/-- A chain grouped to the right. -/
def regroupRight? : Expr → Option Expr
  | .bin op (.bin inner a b) c => if inner = op then some (.bin op a (.bin op b c)) else none
  | _ => none

/-- Drop a neutral element. -/
def identityElimination : Strategy :=
  atSite "identity_elimination" .identityOperation (replaceAt Idiom.isIdentity withoutIdentity?)

/-- Exchange the operands of a commutative operation. -/
def commutativeSwap : Strategy :=
  atSite "commutative_swap" .operandOrder (replaceAt Idiom.isCommutative swapped?)

/-- Write a square as a power or as a product. -/
def powerMultiplication : Strategy :=
  forHint "power_multiplication" .powerForm
    (fun | .powerForm site toProduct => some (site, toProduct) | _ => none)
    fun (site, toProduct) =>
      if toProduct then replaceAt Idiom.isSquare powerToProduct? site
      else replaceAt Idiom.isSelfProduct productToPower? site

/-- Divide to the floor instead of cutting a quotient. -/
def floorDivision : Strategy :=
  atSite "floor_division" .truncatingDivision (replaceAt Idiom.isTruncatingDivision floored?)

/-- Group a chain of an associative operator the other way. -/
def reassociate : Strategy :=
  forHint "reassociate" .reassociation
    (fun | .reassociate site toLeft => some (site, toLeft) | _ => none)
    fun (site, toLeft) =>
      if toLeft then replaceAt Idiom.isRightNested regroupLeft? site
      else replaceAt Idiom.isLeftNested regroupRight? site

end Concord.Strategy
