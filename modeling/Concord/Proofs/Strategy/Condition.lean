import Concord.Proofs.Machine.Ranking
import Concord.Proofs.Strategy.Branch
import Concord.Strategy.Condition

/-!
# Conditions in another form

What the rewritings of conditions do to their values. A test for emptiness by length and one by truth
evaluate the same operand and then look at the same container. A comparison with the opposite operator
fails where the negated one does, and gives the opposite truth value elsewhere. A comparison of a truth
value with a constant is that value or its negation.

The forms differ in what they pay, and some pay before the operand and others behind it. So the results
are those of runs that do not run out of fuel; they leave the same state but for the fuel.

Main statement: `eval_conditions`.
-/

namespace Concord.Machine

open Strategy (toTruthiness? toLength? withoutBool? inverted?)

variable {α β : Type} {x : Exec α} {s t u : State} {v : α} {env : Env} {levels : Nat}

/-! ## Runs that differ in what they pay -/

/-- The same state with no more fuel. -/
def State.Spent (s u : State) : Prop := u.drained = s.drained ∧ u.fuel ≤ s.fuel

theorem State.Spent.refl (s : State) : s.Spent s := ⟨rfl, Nat.le_refl _⟩

theorem State.Spent.trans (h : s.Spent t) (h' : t.Spent u) : s.Spent u :=
  ⟨h'.1.trans h.1, Nat.le_trans h'.2 h.2⟩

theorem State.eq_of_drained (h : u.drained = s.drained) : u = { s with fuel := u.fuel } := by
  cases u
  cases s
  cases h
  rfl

/-- Unless it runs dry, the step gives a value and leaves a state but for its fuel. -/
def Affords (x : Exec α) (s : State) (v : α) (t : State) : Prop :=
  RunsDry x s ∨ ∃ u, x s = .ok v u ∧ u.drained = t.drained

namespace Affords

theorem bind {f : α → Exec β} {w : β} {t' : State} (hx : Affords x s v t)
    (hf : ∀ u, u.drained = t.drained → Affords (f v) u w t') : Affords (x >>= f) s w t' := by
  obtain ⟨u, hx⟩ | ⟨u, hx, hu⟩ := hx
  · exact .inl ⟨u, by rw [Exec.bind_apply, hx]⟩
  · unfold Affords RunsDry
    rw [Exec.bind_apply, hx]
    exact hf u hu

/-- After a payment the same state is left with no more fuel. -/
theorem pay {n : Nat} (h : ∀ u, s.Spent u → Affords x u v t) :
    Affords (Exec.charge n >>= fun _ => x) s v t := by
  by_cases hfuel : s.fuel < n
  · refine .inl ⟨{ s with fuel := 0 }, ?_⟩
    rw [Exec.bind_apply, Exec.charge_apply, if_pos hfuel]
  · unfold Affords RunsDry
    rw [Exec.charge_bind (Nat.le_of_not_lt hfuel)]
    exact h _ ⟨rfl, Nat.sub_le _ _⟩

/-- A step that leaves the state as it is. -/
theorem read {f : α → Exec β} {w : β} {t : State} (h : x s = .ok v s) (hf : Affords (f v) s w t) :
    Affords (x >>= f) s w t := by
  unfold Affords RunsDry
  rw [Exec.bind_apply, h]
  exact hf

theorem of_eq (h : x s = .ok v s) (hs : s.drained = t.drained) : Affords x s v t := .inr ⟨s, h, hs⟩

theorem ok (h : Affords x s v t) (hdry : ¬RunsDry x s) : ∃ u, x s = .ok v u ∧ u.drained = t.drained :=
  h.resolve_left hdry

end Affords

theorem lookup_spent {n : String} {w : Value} (hspent : s.Spent u)
    (h : Exec.lookup env n s = .ok w s) : Exec.lookup env n u = .ok w u := by
  rw [State.eq_of_drained hspent.1]
  unfold Exec.lookup at h ⊢
  dsimp only at h ⊢
  split at h
  · cases h
    rfl
  · cases h

/-- What a step gives, it gives with less fuel too unless it runs dry. -/
theorem Thrifty.affords (hx : Thrifty x) (hrun : x s = .ok v t) (hspent : s.Spent u) : Affords x u v t := by
  obtain ⟨hdrained, hfuel⟩ := hspent
  have hgrow : (Allowance.ofFuel (s.fuel - u.fuel)).grow u = s := by
    rw [State.eq_of_drained hdrained.symm]
    show { u with fuel := u.fuel + (s.fuel - u.fuel) } = { u with fuel := s.fuel }
    rw [Nat.add_sub_cancel' hfuel]
  have hless := (hx (s.fuel - u.fuel) u nofun).elim
  rw [hgrow, hrun] at hless
  obtain ⟨a, t', hu, hs, -⟩ | ⟨e, t', -, hs, -⟩ | ⟨_, t', hu, rfl, -⟩ := hless
  · cases hs
    exact .inr ⟨t', hu, rfl⟩
  · cases hs
  · exact .inl ⟨t', hu⟩

/-- Without its payment a step ends alike. -/
theorem Thrifty.endsAlike_charge (hx : Thrifty x) {n : Nat}
    (hdry : ¬RunsDry (Exec.charge n >>= fun _ => x) s) :
    EndsAlike (Exec.charge n >>= fun _ => x) x s := by
  by_cases hfuel : s.fuel < n
  · refine absurd ⟨{ s with fuel := 0 }, ?_⟩ hdry
    rw [Exec.bind_apply, Exec.charge_apply, if_pos hfuel]
  · have hfuel := Nat.le_of_not_lt hfuel
    unfold RunsDry at hdry
    unfold EndsAlike
    rw [Exec.charge_bind hfuel] at hdry ⊢
    have hgrow : (Allowance.ofFuel n).grow { s with fuel := s.fuel - n } = s := by
      show { s with fuel := s.fuel - n + n } = s
      rw [Nat.sub_add_cancel hfuel]
    have hmore := (hx n { s with fuel := s.fuel - n } nofun).elim
    rw [hgrow] at hmore
    obtain ⟨a, t', hless, hs, -⟩ | ⟨e, t', hless, hs, -⟩ | ⟨_, t', hless, rfl, -⟩ := hmore
    · rw [hless, hs]
      rfl
    · rw [hless, hs]
      rfl
    · exact absurd ⟨t', hless⟩ hdry

theorem thrifty_eval (levels : Nat) (env : Env) (e : Expr) : Thrifty (eval (callAt levels) env e) :=
  fun _ => (Allowance.follows_callAt levels).eval env e

/-! ## Comparisons -/

section

variable {call : Call} {left right : Expr} {op : CmpOp}

theorem eval_compare (call : Call) (env : Env) (left right : Expr) (op : CmpOp) :
    eval call env (.compare left [(op, right)]) = (do
      Exec.charge 1
      let a ← eval call env left
      let b ← eval call env right
      return .bool (← compareValues op a b)) := by
  rw [eval]
  refine congrArg (Exec.charge 1 >>= ·) (funext fun _ => ?_)
  refine congrArg (eval call env left >>= ·) (funext fun a => ?_)
  rw [evalLinks]
  refine congrArg (eval call env right >>= ·) (funext fun b => ?_)
  refine congrArg (compareValues op a b >>= ·) (funext fun holds => ?_)
  cases holds
  · rfl
  · rw [if_pos rfl, evalLinks]

theorem eval_not (call : Call) (env : Env) (e : Expr) :
    eval call env (.unary .not e) = (do
      Exec.charge 1
      let v ← eval call env e
      return .bool !(← Exec.truthy v)) := by
  rw [eval]
  rfl

theorem compareValues_negated (op : CmpOp) (a b : Value) :
    compareValues op.negated a b = (do return !(← compareValues op a b)) := by
  have hnot (y : Exec Bool) : (do return !(← (do return !(← y))) : Exec Bool) = y := by
    simp only [bind_assoc, pure_bind, Bool.not_not, bind_pure]
  have hordered (p q : Ordering → Bool) (hpq : ∀ o, q o = !p o) :
      (do return q (← Exec.raising (← Exec.ofHeap (·.order a b))) : Exec Bool) =
        (do return !(← (do return p (← Exec.raising (← Exec.ofHeap (·.order a b))) : Exec Bool))) := by
    simp only [bind_assoc, pure_bind, hpq]
  cases op with
  | eq | same | member => rfl
  | notEq => exact (hnot (compareValues .eq a b)).symm
  | notSame => exact (hnot (compareValues .same a b)).symm
  | notMember => exact (hnot (compareValues .member a b)).symm
  | lt => exact hordered (·.isLT) (·.isGE) fun o => by cases o <;> rfl
  | ltEq => exact hordered (·.isLE) (·.isGT) fun o => by cases o <;> rfl
  | gt => exact hordered (·.isGT) (·.isLE) fun o => by cases o <;> rfl
  | gtEq => exact hordered (·.isGE) (·.isLT) fun o => by cases o <;> rfl

/-- The opposite operator after the negation, with one payment less. -/
theorem eval_negated (call : Call) (env : Env) (left right : Expr) (op : CmpOp) :
    eval call env (.unary .not (.compare left [(op, right)])) =
      (Exec.charge 1 >>= fun _ => eval call env (.compare left [(op.negated, right)])) := by
  rw [eval_not, eval_compare, eval_compare]
  simp only [bind_assoc, pure_bind, compareValues_negated]
  rfl

/-- A comparison comes to a truth value or to none at all. -/
theorem bool_of_eval_compare {t : State} {v : Value}
    (hrun : eval call env (.compare left [(op, right)]) s = .ok v t) : ∃ b, v = .bool b := by
  have hlast (y : Exec Bool) {u : State} (hy : (do return .bool (← y) : Exec Value) u = .ok v t) :
      ∃ b, v = .bool b := by
    rw [Exec.bind_apply] at hy
    split at hy
    · next b _ _ => exact ⟨b, by cases hy; rfl⟩
    · cases hy
  rw [eval_compare] at hrun
  obtain ⟨_, hrun⟩ := Exec.of_charge hrun
  rw [Exec.bind_apply] at hrun
  split at hrun
  · rw [Exec.bind_apply] at hrun
    split at hrun
    · exact hlast _ hrun
    · cases hrun
  · cases hrun

end

/-! ## Lengths -/

/-- The length of a text, a container or a range, as `len` gives it. -/
def Heap.length? (h : Heap) : Value → Option Nat
  | .str s => some s.length
  | .list r => some (h.list r).length
  | .set r => some (h.set r).length
  | .tuple r => some (h.tuple r).length
  | .dict r => some (h.dict r).length
  | .range start stop step => some (min (Range.length start stop step : Int) maxInt).toNat
  | _ => none

/-- What has a length is true unless its length is zero. -/
theorem Heap.truthy_of_length? {h : Heap} {v : Value} {n : Nat} (hn : h.length? v = some n) :
    h.truthy v = !(n == 0) := by
  have hlist {γ : Type} (l : List γ) : (!l.isEmpty) = !(l.length == 0) := by cases l <;> rfl
  cases v with
  | str text =>
    cases hn
    rw [truthy, Bool.eq_iff_iff]
    simp [String.length_eq_zero_iff]
  | list | set | tuple | dict =>
    cases hn
    exact hlist _
  | range start stop step =>
    cases hn
    rw [truthy, Bool.eq_iff_iff]
    simp [maxInt]
    omega
  | _ => cases hn

theorem lengthOf_of_length? {v : Value} {n : Nat} (hn : u.heap.length? v = some n) :
    lengthOf v u = .ok (.int n) u := by
  cases v with
  | str | list | set | tuple | dict =>
    cases hn
    rfl
  | range start stop step =>
    cases hn
    have hcast : (((min (Range.length start stop step : Int) maxInt).toNat : Nat) : Int) =
        min (Range.length start stop step : Int) maxInt := Int.toNat_of_nonneg (by simp [maxInt])
    rw [hcast]
    rfl
  | _ => cases hn

theorem compareValues_number {op : CmpOp} {k : Int} {empty : Bool}
    (hasks : Idiom.asksEmpty? op k = some empty) (n : Nat) (u : State) :
    compareValues op (.int n) (.int k) u = .ok ((n == 0) == empty) u := by
  have hequal : u.heap.equal (.int n) (.int k) = ((n : Int) == k) := by
    have hn : u.heap.Sortable (.int n) := .number rfl
    rw [hn.founded.equal_eq, Bool.eq_iff_iff, Heap.equalWithin_number rfl rfl, beq_iff_eq]
  have horder : u.heap.order (.int n) (.int k) = .ok (compare (n : Int) k) := by
    have hn : u.heap.Sortable (.int n) := .number rfl
    rw [hn.founded.order_eq, Heap.orderWithin_number rfl rfl]
  have hordered (p : Ordering → Bool) :
      (do return p (← Exec.raising (← Exec.ofHeap (·.order (.int n) (.int k)))) : Exec Bool) u =
        .ok (p (compare (n : Int) k)) u := by
    show (Exec.raising (u.heap.order (.int n) (.int k)) >>= fun o => pure (p o)) u = _
    rw [horder]
    rfl
  have hsame {b : Bool} (hb : b = true ↔ (n = 0 ↔ empty = true)) :
      (.ok b u : Ending Bool) = .ok ((n == 0) == empty) u := by
    refine congrArg (EStateM.Result.ok · u) (Bool.eq_iff_iff.mpr (hb.trans ?_))
    cases empty <;> simp
  unfold Idiom.asksEmpty? at hasks
  split at hasks <;> cases hasks
  · refine (congrArg (EStateM.Result.ok · u) hequal).trans (hsame ?_)
    simp
  · refine (hordered (·.isLT)).trans (hsame ?_)
    rw [Ordering.isLT_iff_eq_lt, Int.compare_eq_lt]
    simp only [iff_true]
    omega
  · refine (hordered (·.isLE)).trans (hsame ?_)
    rw [Int.isLE_compare]
    simp
  · refine (congrArg (EStateM.Result.ok · u) (congrArg not hequal)).trans (hsame ?_)
    simp
  · refine (hordered (·.isGT)).trans (hsame ?_)
    rw [Ordering.isGT_iff_eq_gt, Int.compare_eq_gt]
    simp only [Bool.false_eq_true, iff_false]
    omega
  · refine (hordered (·.isGE)).trans (hsame ?_)
    rw [Int.isGE_compare]
    simp only [Bool.false_eq_true, iff_false]
    omega

theorem eval_len (call : Call) (env : Env) (operand : Expr) :
    eval call env (.callOf "len" [operand]) = (do
      Exec.charge 1
      Exec.charge 1
      let callee ← Exec.lookup env "len"
      let v ← eval call env operand
      call callee [v] []) := by
  rw [Expr.callOf, List.map_cons, List.map_nil, eval, eval, evalArgs, evalArgs]
  simp only [bind_assoc, pure_bind]

theorem callAt_len (levels : Nat) (v : Value) :
    callAt levels (.builtin .len) [v] [] = (Exec.charge 1 >>= fun _ => lengthOf v) := by
  cases levels <;> rfl

/-- The value of a test of a length, where the operand has one. -/
theorem affords_lengthCheck {operand : Expr} {op : CmpOp} {k : Int} {empty : Bool} {v : Value} {n : Nat}
    (hlen : Exec.lookup env "len" s = .ok (.builtin .len) s)
    (hrun : eval (callAt levels) env operand s = .ok v t) (hn : t.heap.length? v = some n)
    (hasks : Idiom.asksEmpty? op k = some empty) :
    Affords (eval (callAt levels) env (.compare (.callOf "len" [operand]) [(op, .int k)])) s
      (.bool ((n == 0) == empty)) t := by
  have hlength {u : State} (hu : u.drained = t.drained) : lengthOf v u = .ok (.int n) u :=
    lengthOf_of_length? (by rw [State.eq_of_drained hu]; exact hn)
  rw [eval_compare, eval_len]
  simp only [bind_assoc]
  refine .pay fun s₁ h₁ => .pay fun s₂ h₂ => .pay fun s₃ h₃ => ?_
  have hspent := (h₁.trans h₂).trans h₃
  refine .read (lookup_spent hspent hlen) ?_
  refine ((thrifty_eval levels env operand).affords hrun hspent).bind fun u hu => ?_
  rw [callAt_len, eval]
  simp only [bind_assoc, pure_bind]
  refine .pay fun u₁ hu₁ => .read (hlength (hu₁.1.trans hu)) (.pay fun u₂ hu₂ => ?_)
  refine .read (compareValues_number hasks n u₂) (.of_eq rfl ?_)
  exact (hu₁.trans hu₂).1.trans hu

/-! ## Forms of conditions -/

/-- The value of a test by truth. -/
theorem affords_not {operand : Expr} {v : Value} (hrun : eval (callAt levels) env operand s = .ok v t) :
    Affords (eval (callAt levels) env (.unary .not operand)) s (.bool !t.heap.truthy v) t := by
  rw [eval_not]
  refine .pay fun s₁ h₁ => ((thrifty_eval levels env operand).affords hrun h₁).bind fun u hu => ?_
  have htruthy : Exec.truthy v u = .ok (t.heap.truthy v) u := by
    rw [State.eq_of_drained hu]
    rfl
  exact .read htruthy (.of_eq rfl hu)

theorem eval_boolLiteral (call : Call) (env : Env) (b : Bool) :
    eval call env (.bool b) = (do
      Exec.charge 1
      return .bool b) := by
  rw [eval]

/-- The operators for equality and identity on truth values. -/
theorem compareValues_bool {op : CmpOp} (hop : Idiom.isEquality op = true) (b k : Bool) (u : State) :
    compareValues op (.bool b) (.bool k) u =
      .ok ((b == k) == (op == .eq || op == .same)) u := by
  have hequal : u.heap.equal (.bool b) (.bool k) = (b == k) := by
    have hb : u.heap.Sortable (.bool b) := .number rfl
    rw [hb.founded.equal_eq, Bool.eq_iff_iff, Heap.equalWithin_number rfl rfl]
    cases b <;> cases k <;> decide
  cases op with
  | eq => exact congrArg (EStateM.Result.ok · u) (hequal.trans (by simp))
  | notEq => exact congrArg (EStateM.Result.ok · u) ((congrArg not hequal).trans (beq_false _).symm)
  | same => exact congrArg (EStateM.Result.ok · u) (beq_true _).symm
  | notSame => exact congrArg (EStateM.Result.ok · u) (beq_false _).symm
  | _ => cases hop

/-- The value of a comparison of a truth value with a constant on its left or on its right. -/
theorem affords_boolComparison {left right subject : Expr} {op : CmpOp} {k b : Bool}
    (hop : Idiom.isEquality op = true)
    (hsides : left = .bool k ∧ right = subject ∨ left = subject ∧ right = .bool k)
    (hrun : eval (callAt levels) env subject s = .ok (.bool b) t) :
    Affords (eval (callAt levels) env (.compare left [(op, right)])) s
      (.bool ((b == k) == (op == .eq || op == .same))) t := by
  rw [eval_compare]
  refine .pay fun s₁ h₁ => ?_
  obtain ⟨rfl, rfl⟩ | ⟨rfl, rfl⟩ := hsides
  · rw [eval_boolLiteral, Bool.beq_comm (a := b)]
    simp only [bind_assoc, pure_bind]
    refine .pay fun s₂ h₂ => ?_
    refine ((thrifty_eval levels env right).affords hrun (h₁.trans h₂)).bind fun u hu => ?_
    exact .read (compareValues_bool hop k b u) (.of_eq rfl hu)
  · refine ((thrifty_eval levels env left).affords hrun h₁).bind fun u hu => ?_
    rw [eval_boolLiteral]
    simp only [bind_assoc, pure_bind]
    refine .pay fun u₁ hu₁ => ?_
    exact .read (compareValues_bool hop b k u₁) (.of_eq rfl (hu₁.1.trans hu))

/-- Both steps give a truth value, and the same one, in states alike but for the fuel. -/
def GiveOneBool (x y : Exec Value) (s : State) : Prop :=
  ∃ b t u, x s = .ok (.bool b) t ∧ y s = .ok (.bool b) u ∧ t.drained = u.drained

/-- Both steps give values, and as conditions the same, in states alike but for the fuel. -/
def GiveOneTruth (x y : Exec Value) (s : State) : Prop :=
  ∃ v w t u, x s = .ok v t ∧ y s = .ok w u ∧ t.drained = u.drained ∧
    t.heap.truthy v = u.heap.truthy w

/-- Both steps end in the same signal, in states alike but for the fuel. -/
def FailAsOne (x y : Exec Value) (s : State) : Prop :=
  ∃ e t u, x s = .error e t ∧ y s = .error e u ∧ t.drained = u.drained

theorem Affords.oneBool {x y : Exec Value} {b : Bool} (hx : Affords x s (.bool b) t)
    (hy : Affords y s (.bool b) t) (hdry : ¬RunsDry x s) (hdry' : ¬RunsDry y s) : GiveOneBool x y s := by
  obtain ⟨u, hx, hu⟩ := hx.ok hdry
  obtain ⟨u', hy, hu'⟩ := hy.ok hdry'
  exact ⟨b, u, u', hx, hy, hu.trans hu'.symm⟩

theorem Affords.oneTruth {x y : Exec Value} {v w : Value} (hx : Affords x s v t) (hy : Affords y s w t)
    (htruthy : t.heap.truthy v = t.heap.truthy w) (hdry : ¬RunsDry x s) (hdry' : ¬RunsDry y s) :
    GiveOneTruth x y s := by
  obtain ⟨u, hx, hu⟩ := hx.ok hdry
  obtain ⟨u', hy, hu'⟩ := hy.ok hdry'
  refine ⟨v, w, u, u', hx, hy, hu.trans hu'.symm, ?_⟩
  rw [State.eq_of_drained hu, State.eq_of_drained hu']
  exact htruthy

theorem eq_of_positional? {args : List Arg} {es : List Expr} (h : Expr.positional? args = some es) :
    args = es.map .positional := by
  induction args generalizing es with
  | nil =>
    cases h
    rfl
  | cons a args ih =>
    cases a with
    | positional e =>
      obtain ⟨rest, hrest, rfl⟩ := Option.map_eq_some_iff.mp h
      rw [ih hrest, List.map_cons]
    | _ => cases h

theorem eq_of_lengthCheck? {e operand : Expr} {empty : Bool}
    (h : Idiom.lengthCheck? e = some (operand, empty)) :
    ∃ op k, e = .compare (.callOf "len" [operand]) [(op, .int k)] ∧
      Idiom.asksEmpty? op k = some empty := by
  unfold Idiom.lengthCheck? at h
  split at h
  · next left op k =>
    split at h
    · next callee arg hcall =>
      split at h
      · next hcallee =>
        obtain ⟨_, hasks, harg⟩ := Option.map_eq_some_iff.mp h
        obtain ⟨rfl, rfl⟩ := Prod.mk.inj harg
        refine ⟨op, k, ?_, hasks⟩
        unfold Expr.asSimpleCall? at hcall
        split at hcall
        · obtain ⟨es, hes, hpair⟩ := Option.map_eq_some_iff.mp hcall
          obtain ⟨rfl, rfl⟩ := Prod.mk.inj hpair
          rw [eq_of_positional? hes, hcallee]
          rfl
        · cases hcall
      · cases h
    · cases h
  · cases h

/-- A test of a length by truth. -/
theorem eval_toTruthiness {e operand : Expr} {empty : Bool} {v : Value} {n : Nat}
    (hlen : Exec.lookup env "len" s = .ok (.builtin .len) s)
    (hcheck : Idiom.lengthCheck? e = some (operand, empty))
    (hrun : eval (callAt levels) env operand s = .ok v t) (hn : t.heap.length? v = some n) :
    ∃ e', toTruthiness? e = some e' ∧ (¬RunsDry (eval (callAt levels) env e) s →
      ¬RunsDry (eval (callAt levels) env e') s →
      GiveOneTruth (eval (callAt levels) env e) (eval (callAt levels) env e') s) := by
  obtain ⟨op, k, rfl, hasks⟩ := eq_of_lengthCheck? hcheck
  refine ⟨if empty then .unary .not operand else operand, by rw [toTruthiness?, hcheck]; rfl, ?_⟩
  have horiginal := affords_lengthCheck hlen hrun hn hasks
  have htruthy := t.heap.truthy_of_length? hn
  cases empty with
  | true =>
    refine horiginal.oneTruth (affords_not hrun) ?_
    rw [beq_true, htruthy, Bool.not_not]
  | false =>
    refine horiginal.oneTruth ((thrifty_eval levels env operand).affords hrun (.refl s)) ?_
    rw [beq_false, htruthy]
    rfl

/-- A negation as a test of a length. -/
theorem eval_toLength {operand : Expr} {v : Value} {n : Nat}
    (hlen : Exec.lookup env "len" s = .ok (.builtin .len) s)
    (hrun : eval (callAt levels) env operand s = .ok v t) (hn : t.heap.length? v = some n) :
    ∃ e', toLength? (.unary .not operand) = some e' ∧
      (¬RunsDry (eval (callAt levels) env (.unary .not operand)) s →
        ¬RunsDry (eval (callAt levels) env e') s →
        GiveOneBool (eval (callAt levels) env (.unary .not operand)) (eval (callAt levels) env e') s) := by
  refine ⟨_, rfl, fun hdry hdry' => ?_⟩
  have hnot := affords_not hrun
  rw [t.heap.truthy_of_length? hn, Bool.not_not] at hnot
  have hasks : Idiom.asksEmpty? .eq 0 = some true := rfl
  have hlength := affords_lengthCheck hlen hrun hn hasks
  rw [beq_true] at hlength
  exact hnot.oneBool hlength hdry hdry'

/-- A comparison with the opposite operator. -/
theorem eval_inverted {e : Expr} (he : Idiom.isNegatedComparison e = true) :
    ∃ e', inverted? e = some e' ∧ ∀ (levels : Nat) (env : Env) (s : State),
      ¬RunsDry (eval (callAt levels) env e) s →
      GiveOneBool (eval (callAt levels) env e) (eval (callAt levels) env e') s ∨
        FailAsOne (eval (callAt levels) env e) (eval (callAt levels) env e') s := by
  unfold Idiom.isNegatedComparison at he
  split at he
  · next left link =>
    obtain ⟨op, right⟩ := link
    refine ⟨_, rfl, fun levels env s hdry => ?_⟩
    rw [eval_negated] at hdry ⊢
    have halike := (thrifty_eval levels env _).endsAlike_charge hdry
    unfold EndsAlike at halike
    unfold GiveOneBool FailAsOne
    cases hinverted : eval (callAt levels) env (.compare left [(op.negated, right)]) s with
    | ok v t =>
      obtain ⟨b, rfl⟩ := bool_of_eval_compare hinverted
      rw [hinverted] at halike
      cases hnegated : (Exec.charge 1 >>= fun _ =>
        eval (callAt levels) env (.compare left [(op.negated, right)])) s with
      | ok v u =>
        rw [hnegated] at halike
        obtain ⟨rfl, hstate⟩ := EStateM.Result.ok.inj halike
        exact .inl ⟨b, u, t, rfl, rfl, hstate⟩
      | error e u =>
        rw [hnegated] at halike
        cases halike
    | error e t =>
      rw [hinverted] at halike
      cases hnegated : (Exec.charge 1 >>= fun _ =>
        eval (callAt levels) env (.compare left [(op.negated, right)])) s with
      | ok v u =>
        rw [hnegated] at halike
        cases halike
      | error e u =>
        rw [hnegated] at halike
        obtain ⟨rfl, hstate⟩ := EStateM.Result.error.inj halike
        exact .inr ⟨_, u, t, rfl, rfl, hstate⟩
  · cases he

/-- A comparison of a truth value with a constant. -/
theorem eval_withoutBool {left right subject : Expr} {op : CmpOp} {k b : Bool}
    (he : Idiom.isBoolComparison (.compare left [(op, right)]) = true)
    (hsides : left = .bool k ∧ right = subject ∨ left = subject ∧ right = .bool k)
    (hrun : eval (callAt levels) env subject s = .ok (.bool b) t) :
    ∃ e', withoutBool? (.compare left [(op, right)]) = some e' ∧
      (¬RunsDry (eval (callAt levels) env (.compare left [(op, right)])) s →
        ¬RunsDry (eval (callAt levels) env e') s →
        GiveOneBool (eval (callAt levels) env (.compare left [(op, right)]))
          (eval (callAt levels) env e') s) := by
  obtain ⟨hop, hone⟩ := Bool.and_eq_true_iff.mp he
  have horiginal := affords_boolComparison hop hsides hrun
  refine ⟨if (op == .eq || op == .same) == k then subject else .unary .not subject, ?_, ?_⟩
  · obtain ⟨rfl, rfl⟩ | ⟨rfl, rfl⟩ := hsides
    · rfl
    · cases left with
      | bool _ => cases hone
      | _ => rfl
  · have hvalue (positive : Bool) : ((b == k) == positive) = if positive == k then b else !b := by
      cases b <;> cases k <;> cases positive <;> rfl
    rw [hvalue] at horiginal
    split
    · next hpositive =>
      rw [if_pos hpositive] at horiginal
      exact horiginal.oneBool ((thrifty_eval levels env subject).affords hrun (.refl s))
    · next hnegative =>
      rw [if_neg hnegative] at horiginal
      exact horiginal.oneBool (affords_not hrun)

/-- Conditions in another form, in every state of a run from which neither form runs out of fuel. Where
`len` is the predefined function and the operand has a length: a test of the length and the test by truth
that replaces it hold alike, and a negation and the test of the length that replaces it give the same
truth value. A negated comparison and the one with the opposite operator give the same truth value, or
fail with the same exception. A comparison of a truth value with a constant gives the truth value that
its shorter form does. -/
theorem eval_conditions (levels : Nat) (env : Env) (s : State) :
    let run (e : Expr) : Exec Value := eval (callAt levels) env e
    (Exec.lookup env "len" s = .ok (.builtin .len) s → ∀ (operand : Expr) (v : Value) (n : Nat) (t : State),
      run operand s = .ok v t → t.heap.length? v = some n →
      (∀ e empty, Idiom.lengthCheck? e = some (operand, empty) →
        ∃ e', toTruthiness? e = some e' ∧
          (¬RunsDry (run e) s → ¬RunsDry (run e') s → GiveOneTruth (run e) (run e') s)) ∧
      ∃ e', toLength? (.unary .not operand) = some e' ∧
        (¬RunsDry (run (.unary .not operand)) s → ¬RunsDry (run e') s →
          GiveOneBool (run (.unary .not operand)) (run e') s)) ∧
    (∀ e, Idiom.isNegatedComparison e = true →
      ∃ e', inverted? e = some e' ∧
        (¬RunsDry (run e) s → GiveOneBool (run e) (run e') s ∨ FailAsOne (run e) (run e') s)) ∧
    ∀ (left right subject : Expr) (op : CmpOp) (k b : Bool) (t : State),
      Idiom.isBoolComparison (.compare left [(op, right)]) = true →
      left = .bool k ∧ right = subject ∨ left = subject ∧ right = .bool k →
      run subject s = .ok (.bool b) t →
      ∃ e', withoutBool? (.compare left [(op, right)]) = some e' ∧
        (¬RunsDry (run (.compare left [(op, right)])) s → ¬RunsDry (run e') s →
          GiveOneBool (run (.compare left [(op, right)])) (run e') s) := by
  refine ⟨fun hlen operand v n t hrun hn => ⟨fun e empty hcheck => ?_, ?_⟩, fun e he => ?_, ?_⟩
  · exact eval_toTruthiness hlen hcheck hrun hn
  · exact eval_toLength hlen hrun hn
  · obtain ⟨e', he', hinverted⟩ := eval_inverted he
    exact ⟨e', he', hinverted levels env s⟩
  · intro left right subject op k b t he hsides hrun
    exact eval_withoutBool he hsides hrun

/-- With a list of one item in `xs` and `True` in `flag`: `len(xs) > 0` and `xs`, `not xs` and
`len(xs) == 0`, `not xs < flag` and `xs >= flag`, which cannot be ordered, and `False == flag` and
`not flag`. -/
theorem eval_conditions_items :
    let s : State := { State.initial ⟨100, 1⟩ with
      globals := [("xs", .list 0), ("flag", .bool true)], heap.lists := #[[.int 1]] }
    let run (e : Expr) : Exec Value := eval (callAt 0) none e
    let xs : Expr := .name "xs"
    let flag : Expr := .name "flag"
    GiveOneTruth (run (.compare (.callOf "len" [xs]) [(.gt, .int 0)])) (run xs) s ∧
      GiveOneBool (run (.unary .not xs)) (run (.compare (.callOf "len" [xs]) [(.eq, .int 0)])) s ∧
      (GiveOneBool (run (.unary .not (.compare xs [(.lt, flag)]))) (run (.compare xs [(.gtEq, flag)])) s ∨
        FailAsOne (run (.unary .not (.compare xs [(.lt, flag)]))) (run (.compare xs [(.gtEq, flag)])) s) ∧
      GiveOneBool (run (.compare (.bool false) [(.eq, flag)])) (run (.unary .not flag)) s := by
  intro s run xs flag
  have hdry {e : Expr} (h : (match run e s with
      | .error (.halt .fuelExhausted) _ => true
      | _ => false) = false) : ¬RunsDry (run e) s := by
    rintro ⟨t, ht⟩
    rw [ht] at h
    cases h
  have hxs : run xs s = .ok (.list 0) { s with fuel := 99 } := rfl
  have hflag : run flag s = .ok (.bool true) { s with fuel := 99 } := rfl
  obtain ⟨hlength, hnegated, hbool⟩ := eval_conditions 0 none s
  obtain ⟨htruth, hnot⟩ := hlength rfl xs (.list 0) 1 _ hxs rfl
  obtain ⟨e₁, he₁, h₁⟩ := htruth (.compare (.callOf "len" [xs]) [(.gt, .int 0)]) false rfl
  obtain ⟨e₂, he₂, h₂⟩ := hnot
  obtain ⟨e₃, he₃, h₃⟩ := hnegated (.unary .not (.compare xs [(.lt, flag)])) rfl
  obtain ⟨e₄, he₄, h₄⟩ := hbool (.bool false) flag flag .eq false true _ rfl (.inl ⟨rfl, rfl⟩) hflag
  cases he₁
  cases he₂
  cases he₃
  cases he₄
  refine ⟨h₁ (hdry ?_) (hdry ?_), h₂ (hdry ?_) (hdry ?_), h₃ (hdry ?_), h₄ (hdry ?_) (hdry ?_)⟩ <;>
    decide +kernel

end Concord.Machine
