import Concord.Proofs.Machine.Exactness
import Concord.Proofs.Machine.Redoing
import Concord.Strategy.Arithmetic

/-!
# Arithmetic in another form

What the rewritings of arithmetic do to integers. They drop, exchange, double and regroup operands. So an
operand may come to be evaluated after others, in a state that has grown, and it has the same value there
if it calls nothing and has no comprehension (`Computes`). What is left are the laws of integers. The
intermediate results of the two forms need not be the same, and where one does not fit in 64 bits that
form stops the run; so the results are those of forms that do not halt.

Main statement: `eval_arithmetic`.
-/

namespace Concord.Machine

open Strategy

variable {call : Call} {env : Env} {s t u : State} {a b c l r e e' : Expr} {op : BinOp} {i j k : Int}

/-! ## Operators on integers -/

/-- The operator makes `k` of two integers, if that fits; otherwise it stops the run. -/
def Makes (op : BinOp) (i j k : Int) : Prop :=
  intOp op i j = .ok (.int k) ∨ intOp op i j = .error .overflow

theorem makes_of_checked (h : intOp op i j = checked k) : Makes op i j k := by
  unfold Makes
  rw [h, checked]
  split
  · exact .inl rfl
  · exact .inr rfl

theorem makes_sub_zero (i : Int) : Makes .sub i 0 i :=
  makes_of_checked (congrArg checked (Int.sub_zero i))

theorem makes_pow_one (i : Int) : Makes .pow i 1 i :=
  makes_of_checked ((intPow_eq i 1).trans (congrArg checked (pow_one i)))

theorem makes_pow_two (i : Int) : Makes .pow i 2 (i * i) :=
  makes_of_checked ((intPow_eq i 2).trans (congrArg checked (pow_two i)))

/-- What a commutative operator makes of two integers. -/
def combined (op : BinOp) (i j : Int) : Int :=
  match op with
  | .add => i + j
  | .mul => i * j
  | .bitOr => (BitVec.ofInt 64 i ||| BitVec.ofInt 64 j).toInt
  | .bitXor => (BitVec.ofInt 64 i ^^^ BitVec.ofInt 64 j).toInt
  | .bitAnd => (BitVec.ofInt 64 i &&& BitVec.ofInt 64 j).toInt
  | _ => 0

theorem makes_combined (hop : op.isCommutative = true) (i j : Int) :
    Makes op i j (combined op i j) := by
  cases op with
  | add | mul => exact makes_of_checked rfl
  | bitOr | bitXor | bitAnd => exact .inl rfl
  | _ => cases hop

theorem combined_comm (op : BinOp) (i j : Int) : combined op i j = combined op j i := by
  cases op with
  | add => exact Int.add_comm i j
  | mul => exact Int.mul_comm i j
  | bitOr => exact congrArg BitVec.toInt (BitVec.or_comm _ _)
  | bitXor => exact congrArg BitVec.toInt (BitVec.xor_comm _ _)
  | bitAnd => exact congrArg BitVec.toInt (BitVec.and_comm _ _)
  | _ => rfl

theorem combined_assoc (op : BinOp) (i j k : Int) :
    combined op (combined op i j) k = combined op i (combined op j k) := by
  cases op with
  | add => exact Int.add_assoc i j k
  | mul => exact Int.mul_assoc i j k
  | bitOr => simp only [combined, BitVec.ofInt_toInt, BitVec.or_assoc]
  | bitXor => simp only [combined, BitVec.ofInt_toInt, BitVec.xor_assoc]
  | bitAnd => simp only [combined, BitVec.ofInt_toInt, BitVec.and_assoc]
  | _ => rfl

/-! ## Values that stay -/

/-- Wherever the state has grown, the step comes to `a` there, unless it halts. -/
def Reliably {α : Type} (s : State) (x : Exec α) (a : α) : Prop :=
  ∀ t, s.Grown t → Halts x t ∨ ∃ u, x t = .ok a u ∧ s.Grown u

namespace Reliably

variable {α β : Type} {x : Exec α} {f : α → Exec β} {v : α} {w : β}

theorem ret (v : α) : Reliably s (pure v) v := fun t ht => .inr ⟨t, rfl, ht⟩

theorem bind (hx : Reliably s x v) (hf : Reliably s (f v) w) : Reliably s (x >>= f) w := by
  intro t ht
  unfold Halts
  rw [Exec.bind_apply]
  obtain ⟨i, u, hrun⟩ | ⟨u, hrun, hu⟩ := hx t ht
  · rw [hrun]
    exact .inl ⟨i, u, rfl⟩
  · rw [hrun]
    exact hf u hu

theorem charge (n : Nat) : Reliably s (Exec.charge n) () := by
  intro t ht
  unfold Halts
  rw [Exec.charge_apply]
  split
  · exact .inl ⟨_, _, rfl⟩
  · exact .inr ⟨_, rfl, ht.spend n⟩

/-- An operand is as reliable as nothing in the state refers to what is not there. -/
theorem direct (hs : s.Grounded) (ha : Expr.Direct a.subterms)
    (hrun : eval call env a s = .ok (.int i) t) : Reliably s (eval call env a) (.int i) := by
  intro u hu
  obtain hhalt | ⟨u', hrun', hbeside⟩ :=
    Redoes.eval call env hs hu a ha u s (.begin hs hu) (.int i) t hrun
  · exact .inl hhalt
  · exact .inr ⟨u', hrun', hu.trans hbeside.second⟩

theorem constant (i : Int) : Reliably s (eval call env (.int i)) (.int i) := by
  rw [eval]
  exact (charge 1).bind (ret _)

theorem bin (hl : Reliably s (eval call env l) (.int i)) (hr : Reliably s (eval call env r) (.int j))
    (hop : Makes op i j k) : Reliably s (eval call env (.bin op l r)) (.int k) := by
  rw [eval]
  refine (charge 1).bind (hl.bind (hr.bind fun t ht => ?_))
  unfold Halts
  rw [show binary op (.int i) (.int j) = Exec.ofExcept (intOp op i j) from rfl]
  obtain h | h := hop
  · rw [h]
    exact .inr ⟨t, rfl, ht⟩
  · rw [h]
    exact .inl ⟨_, t, rfl⟩

end Reliably

/-! ## The rewritings -/

/-- If neither halts, the two expressions evaluate to the same integer. -/
def SameInt (call : Call) (env : Env) (s : State) (e e' : Expr) : Prop :=
  ¬Halts (eval call env e) s → ¬Halts (eval call env e') s →
    ∃ i t t', eval call env e s = .ok (.int i) t ∧ eval call env e' s = .ok (.int i) t'

theorem Reliably.sameInt (h : Reliably s (eval call env e) (.int i))
    (h' : Reliably s (eval call env e') (.int i)) : SameInt call env s e e' := by
  intro hrun hrun'
  obtain ⟨t, ht, -⟩ := (h s (.refl s)).resolve_left hrun
  obtain ⟨t', ht', -⟩ := (h' s (.refl s)).resolve_left hrun'
  exact ⟨i, t, t', ht, ht'⟩

/-- The rewriting of the expression keeps its value. -/
def KeepsInt (call : Call) (env : Env) (s : State) (rewrite? : Expr → Option Expr) (e : Expr) : Prop :=
  ∃ e', rewrite? e = some e' ∧ SameInt call env s e e'

/-- An expression without calls and comprehensions that evaluates to an integer. -/
def IsIntOperand (call : Call) (env : Env) (s : State) (e : Expr) : Prop :=
  e.isCallFree = true ∧ e.isCompFree = true ∧ ∃ i t, eval call env e s = .ok (.int i) t

theorem IsIntOperand.reliably (hs : s.Grounded) (h : IsIntOperand call env s e) :
    ∃ i, Reliably s (eval call env e) (.int i) := by
  obtain ⟨hcall, hcomp, i, t, hrun⟩ := h
  exact ⟨i, .direct hs (Expr.direct_subterms hcall hcomp) hrun⟩

theorem eq_int_of_isInt (h : e.isInt k = true) : e = .int k := by
  cases e with
  | int v => exact congrArg Expr.int (beq_iff_eq.mp h)
  | _ => cases h

theorem sameInt_dropRight (hl : Reliably s (eval call env l) (.int i)) (hr : r.isInt j = true)
    (hop : Makes op i j i) : SameInt call env s (.bin op l r) l := by
  rw [eq_int_of_isInt hr]
  exact (hl.bin (.constant j) hop).sameInt hl

theorem sameInt_dropLeft (hr : Reliably s (eval call env r) (.int j)) (hl : l.isInt i = true)
    (hop : Makes op i j j) : SameInt call env s (.bin op l r) r := by
  rw [eq_int_of_isInt hl]
  exact (Reliably.bin (.constant i) hr hop).sameInt hr

theorem keepsInt_withoutIdentity (hl : Reliably s (eval call env l) (.int i))
    (hr : Reliably s (eval call env r) (.int j)) (he : Idiom.isIdentity (.bin op l r) = true) :
    KeepsInt call env s withoutIdentity? (.bin op l r) := by
  have hright {n : Int} (hn : r.isInt n = true) (hop : Makes op i n i)
      (hdrop : withoutIdentity? (.bin op l r) = some l) :
      KeepsInt call env s withoutIdentity? (.bin op l r) := ⟨l, hdrop, sameInt_dropRight hl hn hop⟩
  have hleft {n : Int} (hn : l.isInt n = true) (hop : Makes op n j j)
      (hdrop : withoutIdentity? (.bin op l r) = some r) :
      KeepsInt call env s withoutIdentity? (.bin op l r) := ⟨r, hdrop, sameInt_dropLeft hr hn hop⟩
  cases op with
  | add =>
    by_cases hzero : r.isInt 0 = true
    · exact hright hzero (makes_of_checked (congrArg checked (Int.add_zero i))) (if_pos hzero)
    · have hzero' : l.isInt 0 = true := (Bool.or_eq_true_iff.mp he).resolve_left hzero
      exact hleft hzero' (makes_of_checked (congrArg checked (Int.zero_add j)))
        ((if_neg hzero).trans (if_pos hzero'))
  | mul =>
    by_cases hone : r.isInt 1 = true
    · exact hright hone (makes_of_checked (congrArg checked (Int.mul_one i))) (if_pos hone)
    · have hone' : l.isInt 1 = true := (Bool.or_eq_true_iff.mp he).resolve_left hone
      exact hleft hone' (makes_of_checked (congrArg checked (Int.one_mul j)))
        ((if_neg hone).trans (if_pos hone'))
  | sub => exact hright he (makes_sub_zero i) (if_pos he)
  | pow => exact hright he (makes_pow_one i) (if_pos he)
  | _ => cases he

theorem keepsInt_powerToProduct (hl : Reliably s (eval call env l) (.int i))
    (he : Idiom.isSquare (.bin op l r) = true) : KeepsInt call env s powerToProduct? (.bin op l r) := by
  cases op with
  | pow =>
    rw [eq_int_of_isInt (Bool.and_eq_true_iff.mp he).1]
    exact ⟨_, rfl, (hl.bin (.constant 2) (makes_pow_two i)).sameInt (hl.bin hl (makes_of_checked rfl))⟩
  | _ => cases he

theorem keepsInt_productToPower (hl : Reliably s (eval call env l) (.int i))
    (he : Idiom.isSelfProduct (.bin op l r) = true) :
    KeepsInt call env s productToPower? (.bin op l r) := by
  cases op with
  | mul =>
    obtain rfl : l = r := of_decide_eq_true (Bool.and_eq_true_iff.mp he).1
    exact ⟨_, rfl, (hl.bin hl (makes_of_checked rfl)).sameInt (hl.bin (.constant 2) (makes_pow_two i))⟩
  | _ => cases he

theorem keepsInt_swapped (hl : Reliably s (eval call env l) (.int i))
    (hr : Reliably s (eval call env r) (.int j)) (hop : op.isCommutative = true) :
    KeepsInt call env s swapped? (.bin op l r) := by
  have hswapped := makes_combined hop j i
  rw [← combined_comm] at hswapped
  exact ⟨_, if_pos hop, (hl.bin hr (makes_combined hop i j)).sameInt (hr.bin hl hswapped)⟩

/-- Both groupings of a chain come to the same integer. -/
theorem reliably_regrouped (ha : Reliably s (eval call env a) (.int i))
    (hb : Reliably s (eval call env b) (.int j)) (hc : Reliably s (eval call env c) (.int k))
    (hop : op.isCommutative = true) :
    Reliably s (eval call env (.bin op (.bin op a b) c)) (.int (combined op (combined op i j) k)) ∧
      Reliably s (eval call env (.bin op a (.bin op b c))) (.int (combined op (combined op i j) k)) := by
  refine ⟨(ha.bin hb (makes_combined hop i j)).bin hc (makes_combined hop _ _), ?_⟩
  rw [combined_assoc]
  exact ha.bin (hb.bin hc (makes_combined hop j k)) (makes_combined hop _ _)

/-- What the rewritings of arithmetic make of operations on integers has the same value. The operands
call nothing and have no comprehensions, and each of them evaluates to an integer where the operation is
to be evaluated; nothing there refers to what does not exist. -/
theorem eval_arithmetic (call : Call) (env : Env) {s : State} (hs : s.Grounded) :
    (∀ (op : BinOp) (l r : Expr), IsIntOperand call env s l → IsIntOperand call env s r →
      (Idiom.isIdentity (.bin op l r) = true → KeepsInt call env s withoutIdentity? (.bin op l r)) ∧
      (Idiom.isSquare (.bin op l r) = true → KeepsInt call env s powerToProduct? (.bin op l r)) ∧
      (Idiom.isSelfProduct (.bin op l r) = true → KeepsInt call env s productToPower? (.bin op l r)) ∧
      (Idiom.isCommutative (.bin op l r) = true → KeepsInt call env s swapped? (.bin op l r))) ∧
    ∀ (op inner : BinOp) (a b c : Expr), IsIntOperand call env s a → IsIntOperand call env s b →
      IsIntOperand call env s c →
      (Idiom.isRightNested (.bin op a (.bin inner b c)) = true →
        KeepsInt call env s regroupLeft? (.bin op a (.bin inner b c))) ∧
      (Idiom.isLeftNested (.bin op (.bin inner a b) c) = true →
        KeepsInt call env s regroupRight? (.bin op (.bin inner a b) c)) := by
  constructor
  · intro op l r hl hr
    obtain ⟨i, hl⟩ := hl.reliably hs
    obtain ⟨j, hr⟩ := hr.reliably hs
    exact ⟨keepsInt_withoutIdentity hl hr, keepsInt_powerToProduct hl, keepsInt_productToPower hl,
      keepsInt_swapped hl hr⟩
  · intro op inner a b c ha hb hc
    obtain ⟨i, ha⟩ := ha.reliably hs
    obtain ⟨j, hb⟩ := hb.reliably hs
    obtain ⟨k, hc⟩ := hc.reliably hs
    constructor
    · intro he
      obtain ⟨hop, heq⟩ := Bool.and_eq_true_iff.mp he
      obtain rfl : inner = op := beq_iff_eq.mp heq
      obtain ⟨hleft, hright⟩ := reliably_regrouped ha hb hc hop
      exact ⟨_, if_pos rfl, hright.sameInt hleft⟩
    · intro he
      obtain ⟨hop, heq⟩ := Bool.and_eq_true_iff.mp he
      obtain rfl : inner = op := beq_iff_eq.mp heq
      obtain ⟨hleft, hright⟩ := reliably_regrouped ha hb hc hop
      exact ⟨_, if_pos rfl, hleft.sameInt hright⟩

/-- With a list in `xs` and 7 in `n`, `[n, xs][0] * [2, 3][0]` and `[2, 3][0] * [n, xs][0]` are the same
integer. The two new lists have traded places. -/
theorem eval_arithmetic_items :
    let s : State := { State.initial ⟨100, 1⟩ with
      globals := [("n", .int 7), ("xs", .list 0)], heap.lists := #[[.int 1]] }
    let l : Expr := .subscript (.list [.name "n", .name "xs"]) (.int 0)
    let r : Expr := .subscript (.list [.int 2, .int 3]) (.int 0)
    s.Grounded ∧ IsIntOperand (callAt 0) none s l ∧ IsIntOperand (callAt 0) none s r ∧
      ∃ i t t', eval (callAt 0) none (.bin .mul l r) s = .ok (.int i) t ∧
        eval (callAt 0) none (.bin .mul r l) s = .ok (.int i) t' := by
  intro s l r
  have hs : s.Grounded := by
    constructor <;> simp [s, State.initial, Heap.Has]
  have hl : IsIntOperand (callAt 0) none s l := ⟨rfl, rfl, 7, _, rfl⟩
  have hr : IsIntOperand (callAt 0) none s r := ⟨rfl, rfl, 2, _, rfl⟩
  obtain ⟨e', he', hsame⟩ := ((eval_arithmetic (callAt 0) none hs).1 .mul l r hl hr).2.2.2 rfl
  cases he'
  refine ⟨hs, hl, hr, hsame ?_ ?_⟩
  · rintro ⟨h, t, hrun⟩
    cases hrun
  · rintro ⟨h, t, hrun⟩
    cases hrun

end Concord.Machine
