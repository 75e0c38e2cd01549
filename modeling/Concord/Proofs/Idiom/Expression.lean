import Concord.Idiom.Position
import Concord.Proofs.Tree.Mirror
import Concord.Proofs.Tree.Names

/-!
# Idioms of expressions on normal forms

Normalization keeps the shape of an expression, so that most idioms are found in the normal form of an
expression if and only if they are found in the expression itself. Some ask for the name of a function:
they are kept as long as no scope binds the name. The product of an operand with itself is kept if the
operand has no scopes of its own, as its two copies would get different placeholders there.

Main statements: `Idiom.seesShape_of_mem` and `Idiom.seesCallee_of_mem` for lists of idioms, and
`Idiom.isSelfProduct_expr`.
-/

namespace Concord

open Normal Scopes

namespace Idiom

variable {S R : Scopes} {spared : List String} {e e' : Expr} {j k : Nat}

/-! ## Idioms that see the shape -/

/-- An idiom that does not depend on names. -/
def SeesShape (p : Expr → Bool) : Prop :=
  ∀ {R : Scopes} {k : Nat}, Placeholders.Between 0 k R.flatten → ∀ e, p (expr R e k).1 = p e

/-- Idioms that one node shows, whatever stands inside. -/
theorem SeesShape.of_forall {p : Expr → Bool} (h : ∀ R e k, p (expr R e k).1 = p e) : SeesShape p :=
  fun _ e => h _ e _

theorem isInt_expr (c : Int) (R : Scopes) (e : Expr) (k : Nat) :
    (expr R e k).1.isInt c = e.isInt c := by
  cases e with
  | comp kind e v cs => cases cs <;> rfl
  | _ => rfl

theorem isComparison_expr (R : Scopes) (e : Expr) (k : Nat) :
    (expr R e k).1.isComparison = e.isComparison := by
  cases e with
  | comp kind e v cs => cases cs <;> rfl
  | _ => rfl

theorem isBoolLiteral_expr (R : Scopes) (e : Expr) (k : Nat) :
    (expr R e k).1.isBoolLiteral = e.isBoolLiteral := by
  cases e with
  | comp kind e v cs => cases cs <;> rfl
  | _ => rfl

theorem isStarred_expr (R : Scopes) (e : Expr) (k : Nat) :
    (expr R e k).1.isStarred = e.isStarred := by
  cases e with
  | comp kind e v cs => cases cs <;> rfl
  | _ => rfl

theorem isCall_expr (R : Scopes) (e : Expr) (k : Nat) : (expr R e k).1.isCall = e.isCall := by
  cases e with
  | comp kind e v cs => cases cs <;> rfl
  | _ => rfl

theorem isVerbatim_expr (R : Scopes) (e : Expr) (k : Nat) :
    (expr R e k).1.isVerbatim = e.isVerbatim := by
  cases e with
  | comp kind e v cs => cases cs <;> rfl
  | _ => rfl

/-- Lists that go in step agree on a test that related elements agree on. -/
theorem any_eq_of_forall₂ {α β : Type} {r : α → β → Prop} {p : α → Bool} {q : β → Bool} {xs : List α}
    {ys : List β} (h : List.Forall₂ r xs ys) (hr : ∀ x y, r x y → q y = p x) : ys.any q = xs.any p := by
  induction h with
  | nil => rfl
  | cons hxy _ ih => rw [List.any_cons, List.any_cons, hr _ _ hxy, ih]

theorem subterms_plain (hR : Placeholders.Between 0 k R.flatten) (e : Expr) :
    List.Forall₂ (Seen R []) e.subterms (expr R e k).1.subterms :=
  subterms_seen e (fun _ _ => by simp) (Within.refl hR [])

theorem isCallFree_expr : SeesShape Expr.isCallFree := by
  intro R k hR e
  unfold Expr.isCallFree
  rw [any_eq_of_forall₂ (subterms_plain hR e)]
  rintro x _ ⟨T, j, -, rfl⟩
  exact isCall_expr T x j

theorem isPure_expr : SeesShape Expr.isPure := by
  intro R k hR e
  have hverbatim (e : Expr) : (e.find Expr.isVerbatim).isEmpty = !e.subterms.any Expr.isVerbatim := by
    unfold Expr.find
    rw [Bool.eq_iff_iff]
    simp
  unfold Expr.isPure
  rw [isCallFree_expr hR, hverbatim, hverbatim, any_eq_of_forall₂ (subterms_plain hR e)]
  rintro x _ ⟨T, j, -, rfl⟩
  exact isVerbatim_expr T x j

theorem isIdentity_expr : SeesShape isIdentity := by
  refine SeesShape.of_forall fun R e k => ?_
  cases e with
  | bin op l r =>
    show isIdentity (.bin op (expr R l k).1 (expr R r (expr R l k).2).1) = _
    cases op <;> simp only [isIdentity, isInt_expr]
  | comp kind e v cs => cases cs <;> rfl
  | _ => rfl

theorem isSquare_expr : SeesShape isSquare := by
  intro R k hR e
  cases e with
  | bin op l r =>
    show isSquare (.bin op (expr R l k).1 (expr R r (expr R l k).2).1) = _
    cases op <;> simp only [isSquare, isInt_expr, isPure_expr hR]
  | comp kind e v cs => cases cs <;> rfl
  | _ => rfl

theorem isNegatedTruthiness_expr : SeesShape isNegatedTruthiness := by
  refine SeesShape.of_forall fun R e k => ?_
  cases e with
  | unary op a =>
    show isNegatedTruthiness (.unary op (expr R a k).1) = _
    cases op <;> simp only [isNegatedTruthiness, isComparison_expr]
  | comp kind e v cs => cases cs <;> rfl
  | _ => rfl

theorem isBoolComparison_expr : SeesShape isBoolComparison := by
  refine SeesShape.of_forall fun R e k => ?_
  cases e with
  | compare l links =>
    match links with
    | [] => rfl
    | [(op, r)] =>
      show isBoolComparison (.compare (expr R l k).1 [(op, (expr R r (expr R l k).2).1)]) = _
      simp only [isBoolComparison, isBoolLiteral_expr]
    | _ :: _ :: _ => rfl
  | comp kind e v cs => cases cs <;> rfl
  | _ => rfl

theorem isNegatedComparison_expr : SeesShape isNegatedComparison := by
  refine SeesShape.of_forall fun R e k => ?_
  cases e with
  | unary op a =>
    cases a with
    | compare l links =>
      match links with
      | [] | [_] | _ :: _ :: _ => cases op <;> rfl
    | comp kind e v cs => cases cs <;> cases op <;> rfl
    | _ => cases op <;> rfl
  | comp kind e v cs => cases cs <;> rfl
  | _ => rfl

theorem isRightNested_expr : SeesShape isRightNested := by
  refine SeesShape.of_forall fun R e k => ?_
  cases e with
  | bin op l r =>
    cases r with
    | comp kind e v cs => cases cs <;> rfl
    | _ => rfl
  | comp kind e v cs => cases cs <;> rfl
  | _ => rfl

theorem isLeftNested_expr : SeesShape isLeftNested := by
  refine SeesShape.of_forall fun R e k => ?_
  cases e with
  | bin op l r =>
    cases l with
    | comp kind e v cs => cases cs <;> rfl
    | _ => rfl
  | comp kind e v cs => cases cs <;> rfl
  | _ => rfl

theorem isCommutative_expr : SeesShape isCommutative := by
  refine SeesShape.of_forall fun R e k => ?_
  cases e with
  | comp kind e v cs => cases cs <;> rfl
  | _ => rfl

theorem isConditional_expr : SeesShape isConditional := by
  refine SeesShape.of_forall fun R e k => ?_
  cases e with
  | comp kind e v cs => cases cs <;> rfl
  | _ => rfl

theorem isJoin_expr : SeesShape isJoin := by
  refine SeesShape.of_forall fun R e k => ?_
  cases e with
  | call f args =>
    cases f with
    | «attribute» a n =>
      cases a with
      | comp kind e v cs => cases cs <;> rfl
      | _ => rfl
    | comp kind e v cs => cases cs <;> rfl
    | _ => rfl
  | comp kind e v cs => cases cs <;> rfl
  | _ => rfl

theorem isListComprehension_expr : SeesShape isListComprehension := by
  refine SeesShape.of_forall fun R e k => ?_
  cases e with
  | comp kind e v cs => cases cs <;> cases kind <;> rfl
  | _ => rfl

/-- The idioms of expressions that do not depend on names. -/
def shapes : List (Expr → Bool) :=
  [isIdentity, isSquare, isNegatedTruthiness, isBoolComparison, isNegatedComparison, isRightNested,
    isLeftNested, isCommutative, isConditional, isJoin, isListComprehension]

theorem seesShape_of_mem {p : Expr → Bool} (h : p ∈ shapes) : SeesShape p := by
  simp only [shapes, List.mem_cons, List.not_mem_nil, or_false] at h
  rcases h with rfl | rfl | rfl | rfl | rfl | rfl | rfl | rfl | rfl | rfl | rfl
  · exact isIdentity_expr
  · exact isSquare_expr
  · exact isNegatedTruthiness_expr
  · exact isBoolComparison_expr
  · exact isNegatedComparison_expr
  · exact isRightNested_expr
  · exact isLeftNested_expr
  · exact isCommutative_expr
  · exact isConditional_expr
  · exact isJoin_expr
  · exact isListComprehension_expr

/-! ## Idioms that see the name of a function -/

/-- The functions that idioms ask for by name. -/
def callees : List String := ["int", "len", "list", "print", "range", "tuple"] ++ consumers

/-- Where no scope binds the functions that idioms ask for, they are the same names as before, and no other
name becomes one of them. -/
theorem rename_callee (hR : Within [] callees R k) {d : String} (hd : d ∈ callees) (n : String) :
    R.rename n = d ↔ n = d := by
  have hkept : R.rename d = d := hR.spares d hd
  have hplain : isReserved d = false := by
    have hall : ∀ d ∈ callees, isReserved d = false := by decide
    exact hall d hd
  constructor
  · intro h
    rcases rename_cases hR.sound n with ⟨-, hreserved⟩ | hstays
    · rw [h, hplain] at hreserved
      cases hreserved
    · exact hstays.symm.trans h
  · rintro rfl
    exact hkept

theorem isName_callee (hR : Within [] callees R k) {d : String} (hd : d ∈ callees) (e : Expr) (j : Nat) :
    (expr R e j).1.isName d = e.isName d := by
  cases e with
  | name n =>
    show (R.rename n == d) = (n == d)
    rw [Bool.eq_iff_iff, beq_iff_eq, beq_iff_eq]
    exact rename_callee hR hd n
  | comp kind e v cs => cases cs <;> rfl
  | _ => rfl

theorem positional?_exprArgs (R : Scopes) (args : List Arg) (j : Nat) :
    Expr.positional? (exprArgs R args j).1 =
      (Expr.positional? args).map fun es => (exprList R es j).1 := by
  induction args generalizing j with
  | nil => rfl
  | cons a as ih =>
    cases a with
    | positional e =>
      show Expr.positional? (.positional (expr R e j).1 :: (exprArgs R as (expr R e j).2).1) = _
      rw [Expr.positional?, Expr.positional?, ih, Option.map_map, Option.map_map]
      rfl
    | _ => rfl

/-- The normal form of a call of a named function. -/
theorem asSimpleCall?_expr (R : Scopes) (e : Expr) (j : Nat) :
    (expr R e j).1.asSimpleCall? =
      e.asSimpleCall?.map fun (f, es) => (R.rename f, (exprList R es j).1) := by
  cases e with
  | call f args =>
    cases f with
    | name n =>
      show Expr.asSimpleCall? (.call (.name (R.rename n)) (exprArgs R args j).1) = _
      rw [Expr.asSimpleCall?, Expr.asSimpleCall?, positional?_exprArgs, Option.map_map, Option.map_map]
      rfl
    | comp kind e v cs => cases cs <;> rfl
    | _ => rfl
  | comp kind e v cs => cases cs <;> rfl
  | _ => rfl

/-- An idiom that depends on names of functions only. -/
def SeesCallee (p : Expr → Bool) : Prop :=
  ∀ {R : Scopes} {k : Nat}, Within [] callees R k → ∀ e, p (expr R e k).1 = p e

theorem isTruncatingDivision_expr : SeesCallee isTruncatingDivision := by
  intro R k hR e
  unfold isTruncatingDivision
  rw [asSimpleCall?_expr]
  rcases e.asSimpleCall? with _ | ⟨f, _ | ⟨a, _ | ⟨b, es⟩⟩⟩
  · rfl
  · rfl
  · have hname : (R.rename f == "int") = (f == "int") := by
      rw [Bool.eq_iff_iff, beq_iff_eq, beq_iff_eq]
      exact rename_callee hR (by decide) f
    cases a with
    | bin op l r =>
      cases op with
      | div => exact hname
      | _ => rfl
    | comp kind e v cs => cases cs <;> rfl
    | _ => rfl
  · cases a with
    | bin op l r => cases op <;> rfl
    | comp kind e v cs => cases cs <;> rfl
    | _ => rfl

/-- The comparison of a length asks for the same as before. -/
theorem lengthCheck?_expr (hR : Within [] callees R k) (e : Expr) :
    (lengthCheck? (expr R e k).1).map (·.2) = (lengthCheck? e).map (·.2) := by
  cases e with
  | compare left links =>
    match links with
    | [] => rfl
    | [(op, r)] =>
      show (lengthCheck? (.compare (expr R left k).1 [(op, (expr R r (expr R left k).2).1)])).map (·.2) = _
      cases r with
      | int c =>
        show (lengthCheck? (.compare (expr R left k).1 [(op, .int c)])).map (·.2) = _
        unfold lengthCheck?
        dsimp only
        rw [asSimpleCall?_expr]
        rcases left.asSimpleCall? with _ | ⟨f, _ | ⟨a, _ | ⟨b, es⟩⟩⟩
        · rfl
        · rfl
        · show (if R.rename f = "len" then (asksEmpty? op c).map ((expr R a k).1, ·) else none).map (·.2) =
            (if f = "len" then (asksEmpty? op c).map (a, ·) else none).map (·.2)
          have hname := rename_callee hR (d := "len") (by decide) f
          by_cases hf : f = "len"
          · rw [if_pos hf, if_pos (hname.mpr hf), Option.map_map, Option.map_map]
            rfl
          · rw [if_neg hf, if_neg (mt hname.mp hf)]
        · rfl
      | comp kind e v cs => cases cs <;> rfl
      | _ => rfl
    | (op, r) :: _ :: _ =>
      cases r with
      | comp kind e v cs => cases cs <;> rfl
      | _ => rfl
  | comp kind e v cs => cases cs <;> rfl
  | _ => rfl

theorem isLengthCheck_expr : SeesCallee isLengthCheck := by
  intro R k hR e
  unfold isLengthCheck
  rw [← Option.isSome_map (f := (·.2)), lengthCheck?_expr hR, Option.isSome_map]

theorem isEmptyCheck_expr : SeesCallee isEmptyCheck := by
  intro R k hR e
  have h := congrArg (Option.any id) (lengthCheck?_expr hR e)
  rwa [Option.any_map, Option.any_map] at h

theorem isNonemptyCheck_expr : SeesCallee isNonemptyCheck := by
  intro R k hR e
  have h := congrArg (Option.any not) (lengthCheck?_expr hR e)
  rwa [Option.any_map, Option.any_map] at h

theorem isMaterializing_expr : SeesCallee isMaterializing := by
  intro R k hR e
  cases e with
  | call f args =>
    match args with
    | [] => rfl
    | [.positional a] =>
      show isMaterializing (.call (expr R f k).1 [.positional (expr R a (expr R f k).2).1]) = _
      simp only [isMaterializing, isName_callee hR (by decide : "list" ∈ callees),
        isName_callee hR (by decide : "tuple" ∈ callees), isStarred_expr]
    | [.keyword _ _] | [.star _] | [.doubleStar _] => rfl
    | a :: b :: _ => cases a <;> cases b <;> rfl
  | comp kind e v cs => cases cs <;> rfl
  | _ => rfl

/-- The idioms of expressions that depend on names of functions. -/
def calls : List (Expr → Bool) :=
  [isTruncatingDivision, isLengthCheck, isEmptyCheck, isNonemptyCheck, isMaterializing]

theorem seesCallee_of_mem {p : Expr → Bool} (h : p ∈ calls) : SeesCallee p := by
  simp only [calls, List.mem_cons, List.not_mem_nil, or_false] at h
  rcases h with rfl | rfl | rfl | rfl | rfl
  · exact isTruncatingDivision_expr
  · exact isLengthCheck_expr
  · exact isEmptyCheck_expr
  · exact isNonemptyCheck_expr
  · exact isMaterializing_expr

end Idiom

/-! ## Expressions without scopes of their own -/

/-- Whether an expression opens a scope. -/
def Expr.opensScope : Expr → Bool
  | .lambda _ _ | .comp _ _ _ _ => true
  | _ => false

theorem Idiom.introducesScope_eq (e : Expr) : introducesScope e = e.subterms.any Expr.opensScope :=
  rfl

namespace Normal

/-- No expression of a list opens a scope. -/
def Level (es : List Expr) : Prop := ∀ e ∈ es, e.opensScope = false

theorem level_cons {e : Expr} {es : List Expr} : Level (e :: es) ↔ e.opensScope = false ∧ Level es :=
  List.forall_mem_cons

theorem level_append {es es' : List Expr} : Level (es ++ es') ↔ Level es ∧ Level es' :=
  List.forall_mem_append

mutual

/-- Without scopes of their own expressions just get other names. -/
theorem expr_level : (e : Expr) → Level e.subterms → (R : Scopes) → (k : Nat) →
    expr R e k = (e.mapNames R.rename, k)
  | .bin _ l r, h, R, k | .logic _ l r, h, R, k | .subscript l r, h, R, k => by
    rw [Expr.subterms, level_cons, level_append] at h
    simp only [expr, bind_apply, pure_apply, Expr.mapNames, expr_level l h.2.1, expr_level r h.2.2]
  | .unary _ a, h, R, k | .attribute a _, h, R, k | .starred a, h, R, k => by
    rw [Expr.subterms, level_cons] at h
    simp only [expr, bind_apply, pure_apply, Expr.mapNames, expr_level a h.2]
  | .compare l links, h, R, k => by
    rw [Expr.subterms, level_cons, level_append] at h
    simp only [expr, bind_apply, pure_apply, Expr.mapNames, expr_level l h.2.1,
      exprLinks_level links h.2.2]
  | .call f args, h, R, k => by
    rw [Expr.subterms, level_cons, level_append] at h
    simp only [expr, bind_apply, pure_apply, Expr.mapNames, expr_level f h.2.1, exprArgs_level args h.2.2]
  | .slice a b c, h, R, k => by
    rw [Expr.subterms, level_cons, level_append, level_append] at h
    simp only [expr, bind_apply, pure_apply, Expr.mapNames, exprOption_level a h.2.1,
      exprOption_level b h.2.2.1, exprOption_level c h.2.2.2]
  | .list items, h, R, k | .tuple items, h, R, k | .set items, h, R, k => by
    rw [Expr.subterms, level_cons] at h
    simp only [expr, bind_apply, pure_apply, Expr.mapNames, exprList_level items h.2]
  | .dict entries, h, R, k => by
    rw [Expr.subterms, level_cons] at h
    simp only [expr, bind_apply, pure_apply, Expr.mapNames, exprEntries_level entries h.2]
  | .ifExp t a b, h, R, k => by
    rw [Expr.subterms, level_cons, level_append, level_append] at h
    simp only [expr, bind_apply, pure_apply, Expr.mapNames, expr_level t h.2.1, expr_level a h.2.2.1,
      expr_level b h.2.2.2]
  | .lambda _ _, h, _, _ | .comp _ _ _ _, h, _, _ => by
    rw [Expr.subterms, level_cons] at h
    cases h.1
  | .name _, _, _, _ | .int _, _, _, _ | .float _, _, _, _ | .str _, _, _, _ | .bool _, _, _, _
  | .none, _, _, _ | .verbatim _, _, _, _ => rfl

theorem exprOption_level : (o : Option Expr) → Level (Expr.subtermsOption o) → (R : Scopes) →
    (k : Nat) → exprOption R o k = (Expr.mapNamesOption R.rename o, k)
  | Option.none, _, _, _ => rfl
  | some e, h, R, k => by
    simp only [exprOption, bind_apply, pure_apply, Expr.mapNamesOption, expr_level e h]

theorem exprList_level : (es : List Expr) → Level (Expr.subtermsList es) → (R : Scopes) → (k : Nat) →
    exprList R es k = (Expr.mapNamesList R.rename es, k)
  | [], _, _, _ => rfl
  | e :: es, h, R, k => by
    rw [Expr.subtermsList, level_append] at h
    simp only [exprList, bind_apply, pure_apply, Expr.mapNamesList, expr_level e h.1, exprList_level es h.2]

theorem exprLinks_level : (ls : List (CmpOp × Expr)) → Level (Expr.subtermsLinks ls) → (R : Scopes) →
    (k : Nat) → exprLinks R ls k = (Expr.mapNamesLinks R.rename ls, k)
  | [], _, _, _ => rfl
  | (_, e) :: ls, h, R, k => by
    rw [Expr.subtermsLinks, level_append] at h
    simp only [exprLinks, bind_apply, pure_apply, Expr.mapNamesLinks, expr_level e h.1,
      exprLinks_level ls h.2]

theorem exprArgs_level : (as : List Arg) → Level (Expr.subtermsArgs as) → (R : Scopes) → (k : Nat) →
    exprArgs R as k = (Expr.mapNamesArgs R.rename as, k)
  | [], _, _, _ => rfl
  | .positional e :: as, h, R, k | .keyword _ e :: as, h, R, k | .star e :: as, h, R, k
  | .doubleStar e :: as, h, R, k => by
    rw [Expr.subtermsArgs, level_append] at h
    simp only [exprArgs, bind_apply, pure_apply, Expr.mapNamesArgs, expr_level e h.1, exprArgs_level as h.2]

theorem exprEntries_level : (es : List (Expr × Expr)) → Level (Expr.subtermsEntries es) →
    (R : Scopes) → (k : Nat) → exprEntries R es k = (Expr.mapNamesEntries R.rename es, k)
  | [], _, _, _ => rfl
  | (x, v) :: es, h, R, k => by
    rw [Expr.subtermsEntries, level_append, level_append] at h
    simp only [exprEntries, bind_apply, pure_apply, Expr.mapNamesEntries, expr_level x h.1,
      expr_level v h.2.1, exprEntries_level es h.2.2]

end

end Normal

namespace Idiom

/-! ## Products of an operand with itself -/

variable {R : Scopes} {k : Nat}

/-- No name that an expression mentions is spelled like a placeholder. -/
def Unreserved (e : Expr) : Prop :=
  ∀ x ∈ e.subterms, ∀ n ∈ (Node.expr x).mentioned, isReserved n = false

/-- Scopes give different expressions different names. -/
theorem mapNames_inj (hR : Placeholders.Between 0 k R.flatten) {e e' : Expr} (he : Unreserved e)
    (he' : Unreserved e') (h : e.mapNames R.rename = e'.mapNames R.rename) : e = e' := by
  -- Names that are not spelled like placeholders can be recovered.
  have hback : ∀ v, ∃ n, ∀ m, isReserved m = false → R.rename m = v → m = n := by
    intro v
    by_cases hv : ∃ n, isReserved n = false ∧ R.rename n = v
    · obtain ⟨n, hn, rfl⟩ := hv
      exact ⟨n, fun m hm hmn => (rename_inj hR hm hn).mp hmn⟩
    · exact ⟨v, fun m hm hmv => absurd ⟨m, hm, hmv⟩ hv⟩
  choose back hback using hback
  have hrecover {e : Expr} (he : Unreserved e) : (e.mapNames R.rename).mapNames back = e := by
    rw [Expr.mapNames_mapNames,
      Expr.mapNames_congr e fun x hx n hn => (hback _ n (he x hx n hn) rfl).symm, Expr.mapNames_id]
  rw [← hrecover he, h, hrecover he']

theorem introducesScope_expr : SeesShape introducesScope := by
  intro R k hR e
  rw [introducesScope_eq, introducesScope_eq, any_eq_of_forall₂ (subterms_plain hR e)]
  rintro x _ ⟨T, j, -, rfl⟩
  cases x with
  | comp kind e v cs => cases cs <;> rfl
  | _ => rfl

/-- A product of an operand with itself, unless scopes are opened in it. -/
theorem isSelfProduct_expr (hR : Placeholders.Between 0 k R.flatten) {e : Expr} (he : Unreserved e)
    (hlevel : ∀ l r, e = .bin .mul l r → l.isPure = true → introducesScope l = false) :
    isSelfProduct (expr R e k).1 = isSelfProduct e := by
  cases e with
  | bin op l r =>
    cases op with
    | mul =>
      show (decide ((expr R l k).1 = (expr R r (expr R l k).2).1) && (expr R l k).1.isPure) =
        (decide (l = r) && l.isPure)
      rw [isPure_expr hR]
      cases hpure : l.isPure with
      | false => rw [Bool.and_false, Bool.and_false]
      | true =>
        have hl := hlevel l r rfl hpure
        have hlevelled {x : Expr} (hx : introducesScope x = false) : Level x.subterms := by
          rw [introducesScope_eq] at hx
          exact fun y hy => Bool.eq_false_iff.mpr (List.any_eq_false.mp hx y hy)
        congr 1
        rw [decide_eq_decide, expr_level l (hlevelled hl)]
        constructor
        · intro h
          have hr : introducesScope r = false := by
            rw [← introducesScope_expr hR r, ← h, ← congrArg Prod.fst (expr_level l (hlevelled hl) R k),
              introducesScope_expr hR, hl]
          rw [expr_level r (hlevelled hr)] at h
          refine mapNames_inj hR (fun x hx => he x ?_) (fun x hx => he x ?_) h
          · exact List.mem_cons_of_mem _ (List.mem_append_left _ hx)
          · exact List.mem_cons_of_mem _ (List.mem_append_right _ hx)
        · rintro rfl
          rw [expr_level l (hlevelled hl)]
    | _ => rfl
  | comp kind e v cs => cases cs <;> rfl
  | _ => rfl

end Idiom

end Concord
