import Concord.Tree.Basic

/-!
# Equality of trees

Structural equality of expressions and statements as a Boolean function. Main statements:
`Expr.same_iff` and `Stmt.same_iff`, from which equality of trees is decidable.
-/

namespace Concord

namespace Expr

mutual

/-- Whether two expressions are the same tree. -/
def same : Expr → Expr → Bool
  | .name a, e => match e with | .name b => a == b | _ => false
  | .int a, e => match e with | .int b => a == b | _ => false
  | .float a, e => match e with | .float b => decide (a = b) | _ => false
  | .str a, e => match e with | .str b => a == b | _ => false
  | .bool a, e => match e with | .bool b => a == b | _ => false
  | .none, e => match e with | .none => true | _ => false
  | .bin o a b, e =>
    match e with | .bin p c d => o == p && (same a c && same b d) | _ => false
  | .unary o a, e => match e with | .unary p b => o == p && same a b | _ => false
  | .logic o a b, e =>
    match e with | .logic p c d => o == p && (same a c && same b d) | _ => false
  | .compare a l, e => match e with | .compare b m => same a b && sameLinks l m | _ => false
  | .call f a, e => match e with | .call g b => same f g && sameArgs a b | _ => false
  | .attribute a n, e => match e with | .attribute b m => same a b && n == m | _ => false
  | .subscript a b, e => match e with | .subscript c d => same a c && same b d | _ => false
  | .slice a b c, e =>
    match e with
    | .slice d f g => sameOption a d && (sameOption b f && sameOption c g)
    | _ => false
  | .list a, e => match e with | .list b => sameList a b | _ => false
  | .tuple a, e => match e with | .tuple b => sameList a b | _ => false
  | .set a, e => match e with | .set b => sameList a b | _ => false
  | .dict a, e => match e with | .dict b => sameEntries a b | _ => false
  | .comp k x v c, e =>
    match e with
    | .comp l y w d => k == l && (same x y && (sameOption v w && sameClauses c d))
    | _ => false
  | .ifExp a b c, e =>
    match e with | .ifExp d f g => same a d && (same b f && same c g) | _ => false
  | .lambda p b, e => match e with | .lambda q c => sameParams p q && same b c | _ => false
  | .starred a, e => match e with | .starred b => same a b | _ => false
  | .verbatim a, e => match e with | .verbatim b => a == b | _ => false

/-- Pointwise `same` on optional expressions. -/
def sameOption : Option Expr → Option Expr → Bool
  | Option.none, Option.none => true
  | some a, some b => same a b
  | _, _ => false

/-- Pointwise `same` on lists. -/
def sameList : List Expr → List Expr → Bool
  | [], [] => true
  | a :: as, b :: bs => same a b && sameList as bs
  | _, _ => false

/-- Pointwise `same` on comparison links. -/
def sameLinks : List (CmpOp × Expr) → List (CmpOp × Expr) → Bool
  | [], [] => true
  | (o, a) :: as, (p, b) :: bs => (o == p && same a b) && sameLinks as bs
  | _, _ => false

/-- Pointwise `same` on arguments. -/
def sameArgs : List (ArgOf Expr) → List (ArgOf Expr) → Bool
  | [], [] => true
  | .positional a :: as, .positional b :: bs => same a b && sameArgs as bs
  | .keyword n a :: as, .keyword m b :: bs => (n == m && same a b) && sameArgs as bs
  | .star a :: as, .star b :: bs => same a b && sameArgs as bs
  | .doubleStar a :: as, .doubleStar b :: bs => same a b && sameArgs as bs
  | _, _ => false

/-- Pointwise `same` on dictionary entries. -/
def sameEntries : List (Expr × Expr) → List (Expr × Expr) → Bool
  | [], [] => true
  | (k, v) :: as, (l, w) :: bs => (same k l && same v w) && sameEntries as bs
  | _, _ => false

/-- Pointwise `same` on comprehension clauses. -/
def sameClauses : List (ClauseOf Expr) → List (ClauseOf Expr) → Bool
  | [], [] => true
  | ⟨t, i, c⟩ :: as, ⟨u, j, d⟩ :: bs =>
    (same t u && (same i j && sameList c d)) && sameClauses as bs
  | _, _ => false

/-- Pointwise `same` on parameters. -/
def sameParams : List (ParamOf Expr) → List (ParamOf Expr) → Bool
  | [], [] => true
  | ⟨n, k, d, a⟩ :: as, ⟨m, l, e, b⟩ :: bs =>
    (n == m && (k == l && (sameOption d e && a == b))) && sameParams as bs
  | _, _ => false

end

mutual

theorem same_iff : ∀ a b : Expr, same a b = true ↔ a = b
  | .name _, b => by cases b <;> simp [same]
  | .int _, b => by cases b <;> simp [same]
  | .float _, b => by cases b <;> simp [same]
  | .str _, b => by cases b <;> simp [same]
  | .bool _, b => by cases b <;> simp [same]
  | .none, b => by cases b <;> simp [same]
  | .bin _ x y, b => by cases b <;> simp [same, same_iff x, same_iff y]
  | .unary _ x, b => by cases b <;> simp [same, same_iff x]
  | .logic _ x y, b => by cases b <;> simp [same, same_iff x, same_iff y]
  | .compare x l, b => by cases b <;> simp [same, same_iff x, sameLinks_iff l]
  | .call x l, b => by cases b <;> simp [same, same_iff x, sameArgs_iff l]
  | .attribute x _, b => by cases b <;> simp [same, same_iff x]
  | .subscript x y, b => by cases b <;> simp [same, same_iff x, same_iff y]
  | .slice x y z, b => by
    cases b <;> simp [same, sameOption_iff x, sameOption_iff y, sameOption_iff z]
  | .list l, b => by cases b <;> simp [same, sameList_iff l]
  | .tuple l, b => by cases b <;> simp [same, sameList_iff l]
  | .set l, b => by cases b <;> simp [same, sameList_iff l]
  | .dict l, b => by cases b <;> simp [same, sameEntries_iff l]
  | .comp _ x v l, b => by
    cases b <;> simp [same, same_iff x, sameOption_iff v, sameClauses_iff l]
  | .ifExp x y z, b => by cases b <;> simp [same, same_iff x, same_iff y, same_iff z]
  | .lambda l x, b => by cases b <;> simp [same, same_iff x, sameParams_iff l]
  | .starred x, b => by cases b <;> simp [same, same_iff x]
  | .verbatim _, b => by cases b <;> simp [same]
termination_by structural a => a

theorem sameOption_iff : ∀ a b : Option Expr, sameOption a b = true ↔ a = b
  | Option.none, b => by cases b <;> simp [sameOption]
  | some x, b => by cases b <;> simp [sameOption, same_iff x]
termination_by structural a => a

theorem sameList_iff : ∀ a b : List Expr, sameList a b = true ↔ a = b
  | [], b => by cases b <;> simp [sameList]
  | x :: l, b => by cases b <;> simp [sameList, same_iff x, sameList_iff l]
termination_by structural a => a

theorem sameLinks_iff : ∀ a b : List (CmpOp × Expr), sameLinks a b = true ↔ a = b
  | [], b => by cases b <;> simp [sameLinks]
  | (_, x) :: l, b => by
    rcases b with _ | ⟨⟨_, _⟩, _⟩ <;> simp [sameLinks, same_iff x, sameLinks_iff l]
termination_by structural a => a

theorem sameArgs_iff : ∀ a b : List (ArgOf Expr), sameArgs a b = true ↔ a = b
  | [], b => by cases b <;> simp [sameArgs]
  | .positional x :: l, b => by
    rcases b with _ | ⟨y, _⟩
    · simp [sameArgs]
    · cases y <;> simp [sameArgs, same_iff x, sameArgs_iff l]
  | .keyword _ x :: l, b => by
    rcases b with _ | ⟨y, _⟩
    · simp [sameArgs]
    · cases y <;> simp [sameArgs, same_iff x, sameArgs_iff l]
  | .star x :: l, b => by
    rcases b with _ | ⟨y, _⟩
    · simp [sameArgs]
    · cases y <;> simp [sameArgs, same_iff x, sameArgs_iff l]
  | .doubleStar x :: l, b => by
    rcases b with _ | ⟨y, _⟩
    · simp [sameArgs]
    · cases y <;> simp [sameArgs, same_iff x, sameArgs_iff l]
termination_by structural a => a

theorem sameEntries_iff : ∀ a b : List (Expr × Expr), sameEntries a b = true ↔ a = b
  | [], b => by cases b <;> simp [sameEntries]
  | (x, y) :: l, b => by
    rcases b with _ | ⟨⟨_, _⟩, _⟩ <;> simp [sameEntries, same_iff x, same_iff y, sameEntries_iff l]
termination_by structural a => a

theorem sameClauses_iff : ∀ a b : List (ClauseOf Expr), sameClauses a b = true ↔ a = b
  | [], b => by cases b <;> simp [sameClauses]
  | ⟨x, y, c⟩ :: l, b => by
    rcases b with _ | ⟨⟨_, _, _⟩, _⟩ <;>
      simp [sameClauses, same_iff x, same_iff y, sameList_iff c, sameClauses_iff l]
termination_by structural a => a

theorem sameParams_iff : ∀ a b : List (ParamOf Expr), sameParams a b = true ↔ a = b
  | [], b => by cases b <;> simp [sameParams]
  | ⟨_, _, d, _⟩ :: l, b => by
    rcases b with _ | ⟨⟨_, _, _, _⟩, _⟩ <;> simp [sameParams, sameOption_iff d, sameParams_iff l]
termination_by structural a => a

end

instance : DecidableEq Expr := fun a b => decidable_of_iff _ (same_iff a b)

end Expr

deriving instance DecidableEq for ParamOf
deriving instance DecidableEq for ArgOf
deriving instance DecidableEq for ClauseOf

namespace Stmt

mutual

/-- Whether two statements are the same tree. -/
def same : Stmt → Stmt → Bool
  | .define ⟨n, p, b, d, r, a⟩, s =>
    match s with
    | .define ⟨m, q, c, e, t, z⟩ =>
      n == m && (p == q && (sameBlock b c && (d == e && (r == t && a == z))))
    | _ => false
  | .ret v, s => match s with | .ret w => v == w | _ => false
  | .assign l v a, s =>
    match s with | .assign m w b => l == m && (v == w && a == b) | _ => false
  | .augAssign t o v, s =>
    match s with | .augAssign u p w => t == u && (o == p && v == w) | _ => false
  | .expr e, s => match s with | .expr f => e == f | _ => false
  | .cond t b o, s =>
    match s with | .cond u c p => t == u && (sameBlock b c && sameBlock o p) | _ => false
  | .forLoop t i b o, s =>
    match s with
    | .forLoop u j c p => t == u && (i == j && (sameBlock b c && sameBlock o p))
    | _ => false
  | .whileLoop t b o, s =>
    match s with | .whileLoop u c p => t == u && (sameBlock b c && sameBlock o p) | _ => false
  | .tryBlock b h o f, s =>
    match s with
    | .tryBlock c i p g =>
      sameBlock b c && (sameHandlers h i && (sameBlock o p && sameBlock f g))
    | _ => false
  | .raise a b, s => match s with | .raise c d => a == c && b == d | _ => false
  | .assert a b, s => match s with | .assert c d => a == c && b == d | _ => false
  | .importNames a, s => match s with | .importNames b => a == b | _ => false
  | .importFrom a b, s => match s with | .importFrom c d => a == c && b == d | _ => false
  | .globals a, s => match s with | .globals b => a == b | _ => false
  | .nonlocals a, s => match s with | .nonlocals b => a == b | _ => false
  | .pass, s => match s with | .pass => true | _ => false
  | .break, s => match s with | .break => true | _ => false
  | .continue, s => match s with | .continue => true | _ => false
  | .verbatim a b c, s =>
    match s with | .verbatim d e f => a == d && (b == e && c == f) | _ => false

/-- Pointwise `same` on blocks. -/
def sameBlock : List Stmt → List Stmt → Bool
  | [], [] => true
  | a :: as, b :: bs => same a b && sameBlock as bs
  | _, _ => false

/-- Pointwise `same` on handlers. -/
def sameHandlers : List (HandlerOf Stmt) → List (HandlerOf Stmt) → Bool
  | [], [] => true
  | ⟨t, n, b⟩ :: as, ⟨u, m, c⟩ :: bs =>
    (t == u && (n == m && sameBlock b c)) && sameHandlers as bs
  | _, _ => false

end

mutual

theorem same_iff : ∀ a b : Stmt, same a b = true ↔ a = b
  | .define ⟨_, _, l, _, _, _⟩, b => by
    cases b with
    | define g => cases g; simp [same, sameBlock_iff l]
    | _ => simp [same]
  | .ret _, b => by cases b <;> simp [same]
  | .assign _ _ _, b => by cases b <;> simp [same]
  | .augAssign _ _ _, b => by cases b <;> simp [same]
  | .expr _, b => by cases b <;> simp [same]
  | .cond _ l m, b => by cases b <;> simp [same, sameBlock_iff l, sameBlock_iff m]
  | .forLoop _ _ l m, b => by cases b <;> simp [same, sameBlock_iff l, sameBlock_iff m]
  | .whileLoop _ l m, b => by cases b <;> simp [same, sameBlock_iff l, sameBlock_iff m]
  | .tryBlock l h m f, b => by
    cases b <;>
      simp [same, sameBlock_iff l, sameHandlers_iff h, sameBlock_iff m, sameBlock_iff f]
  | .raise _ _, b => by cases b <;> simp [same]
  | .assert _ _, b => by cases b <;> simp [same]
  | .importNames _, b => by cases b <;> simp [same]
  | .importFrom _ _, b => by cases b <;> simp [same]
  | .globals _, b => by cases b <;> simp [same]
  | .nonlocals _, b => by cases b <;> simp [same]
  | .pass, b => by cases b <;> simp [same]
  | .break, b => by cases b <;> simp [same]
  | .continue, b => by cases b <;> simp [same]
  | .verbatim _ _ _, b => by cases b <;> simp [same]

theorem sameBlock_iff : ∀ a b : List Stmt, sameBlock a b = true ↔ a = b
  | [], b => by cases b <;> simp [sameBlock]
  | x :: l, b => by cases b <;> simp [sameBlock, same_iff x, sameBlock_iff l]

theorem sameHandlers_iff : ∀ a b : List (HandlerOf Stmt), sameHandlers a b = true ↔ a = b
  | [], b => by cases b <;> simp [sameHandlers]
  | ⟨_, _, c⟩ :: l, b => by
    rcases b with _ | ⟨⟨_, _, _⟩, _⟩ <;> simp [sameHandlers, sameBlock_iff c, sameHandlers_iff l]

end

instance : DecidableEq Stmt := fun a b => decidable_of_iff _ (same_iff a b)

end Stmt

deriving instance DecidableEq for FunctionOf
deriving instance DecidableEq for HandlerOf
deriving instance DecidableEq for Module

end Concord
