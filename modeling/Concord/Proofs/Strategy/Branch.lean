import Concord.Proofs.Machine.Budget
import Concord.Proofs.Machine.Filled
import Concord.Strategy.Flow

/-!
# Branches that return

What two rewritings of branches do to the execution of a block. A branch that always leaves its block
never goes on to the next statement, so what stood under its `else` may as well stand behind it: the
blocks are the same step of a run. Two returns under a condition and the return of a conditional
expression do the same in another order of payments: the block pays for the return after the test,
the expression pays before it. So they end alike unless fuel runs out, in states that differ in the
fuel at most.

Main statements:

* `execBlock_hoistElse`: a block with its `else` put behind the branch is the same step.
* `execBlock_collapseReturns`: a conditional expression that has enough fuel ends as the branches do.
-/

namespace Concord.Machine

open Strategy (hoistElse collapseReturns)

variable {α : Type} {call : Call} {env : Env}

/-! ## Blocks in parts -/

theorem andThen_apply (x next : Exec Flow) (s : State) :
    andThen x next s = match x s with
      | .ok .next t => next t
      | r => r := by
  unfold andThen
  rw [Exec.bind_apply]
  rcases x s with ⟨_ | _ | _ | _, t⟩ | ⟨e, t⟩ <;> rfl

theorem andThen_bind (x : Exec α) (f : α → Exec Flow) (next : Exec Flow) :
    andThen (x >>= f) next = x >>= fun a => andThen (f a) next := by
  unfold andThen
  exact bind_assoc x f _

theorem execBlock_nil : execBlock call env [] = pure .next := by rw [execBlock]

/-- A block after another one runs if that one comes to its end. -/
theorem execBlock_append (front back : Block) : execBlock call env (front ++ back) =
    andThen (execBlock call env front) (execBlock call env back) := by
  induction front with
  | nil =>
    rw [List.nil_append, execBlock_nil]
    rfl
  | cons s rest ih =>
    rw [List.cons_append, execBlock_cons, execBlock_cons, ih]
    funext t
    simp only [andThen_apply]
    rcases exec call env s t with ⟨_ | _ | _ | _, u⟩ | ⟨e, u⟩ <;> rfl

/-- A branch on what a step finds. -/
theorem exec_cond (test : Expr) (body orelse : Block) :
    exec call env (.cond test body orelse) = (do
      Exec.charge 1
      let holds ← Exec.truthy (← eval call env test)
      if holds then execBlock call env body else execBlock call env orelse) := by
  rw [exec]

/-- A block around the statement at a position. -/
theorem eq_around {block : Block} {i : Nat} {s : Stmt} (h : block[i]? = some s) :
    block = block.take i ++ s :: block.drop (i + 1) := by
  obtain ⟨hlt, hget⟩ := List.getElem?_eq_some_iff.mp h
  rw [← hget, List.getElem_cons_drop, List.take_append_drop]

/-! ## Steps that leave a block -/

/-- The step never goes on to the next statement. -/
def Leaves (x : Exec Flow) : Prop := ∀ s t, x s ≠ .ok .next t

theorem Leaves.bind (x : Exec α) {f : α → Exec Flow} (hf : ∀ a, Leaves (f a)) :
    Leaves (x >>= f) := by
  intro s t hnext
  rw [Exec.bind_apply] at hnext
  cases hx : x s with
  | ok a u =>
    rw [hx] at hnext
    exact hf a u t hnext
  | error e u =>
    rw [hx] at hnext
    cases hnext

theorem Leaves.throw (e : Signal) : Leaves (throw e) := nofun

theorem Leaves.ret {flow : Flow} (h : flow ≠ .next) : Leaves (pure flow) := by
  intro s t hs
  cases hs
  exact h rfl

/-- What comes after a step that leaves the block is never reached. -/
theorem Leaves.andThen {x : Exec Flow} (h : Leaves x) (next : Exec Flow) : andThen x next = x := by
  funext s
  rw [andThen_apply]
  split
  · next hnext => exact absurd hnext (h s _)
  · rfl

/-- A step leaves the block if the one that comes after it does. -/
theorem Leaves.after (x : Exec Flow) {next : Exec Flow} (h : Leaves next) :
    Leaves (Machine.andThen x next) :=
  .bind x fun
    | .next => h
    | .ret _ | .break | .continue => nofun

theorem leaves_exec {s : Stmt} (h : s.isTerminal = true) : Leaves (exec call env s) := by
  cases s with
  | ret value =>
    rw [exec]
    exact .bind _ fun _ => .bind _ fun v => .ret Flow.noConfusion
  | raise exc cause =>
    cases exc with
    | none =>
      rw [exec]
      refine .bind _ fun _ => .bind _ fun s => ?_
      split <;> exact .throw _
    | some e =>
      rw [exec]
      exact .bind _ fun _ => .bind _ fun v => .bind _ fun exception => .throw _
  | «break» | «continue» =>
    rw [exec]
    exact .bind _ fun _ => .ret Flow.noConfusion
  | _ => cases h

/-- A block that ends in a statement which leaves it never comes to its end. -/
theorem leaves_execBlock {block : Block} (h : block.getLast?.any Stmt.isTerminal = true) :
    Leaves (execBlock call env block) := by
  cases hlast : block.getLast? with
  | none =>
    rw [hlast] at h
    cases h
  | some s =>
    rw [hlast] at h
    obtain ⟨front, rfl⟩ := List.getLast?_eq_some_iff.mp hlast
    have hs : Leaves (exec call env s) := leaves_exec h
    rw [execBlock_append, execBlock_cons, hs.andThen]
    exact hs.after _

/-! ## What stands behind a branch -/

/-- Behind a branch that leaves the block, the other branch does what it does under `else`. -/
theorem execBlock_cond_of_leaves {body : Block} (hbody : Leaves (execBlock call env body))
    (test : Expr) (orelse rest : Block) :
    execBlock call env (.cond test body [] :: (orelse ++ rest)) =
      execBlock call env (.cond test body orelse :: rest) := by
  rw [execBlock_cons, execBlock_cons, execBlock_append, exec_cond, exec_cond]
  simp only [andThen_bind]
  refine congrArg (Exec.charge 1 >>= ·) (funext fun _ => ?_)
  refine congrArg (eval call env test >>= ·) (funext fun v => ?_)
  refine congrArg (Exec.truthy v >>= ·) (funext fun holds => ?_)
  cases holds with
  | true => exact (hbody.andThen _).trans (hbody.andThen _).symm
  | false =>
    rw [if_neg Bool.false_ne_true, if_neg Bool.false_ne_true, execBlock_nil]
    rfl

/-- Where a branch always leaves the block, its `else` can be put behind it, and the block stays the
same step: in every state it ends in the same way, with the same fuel left. -/
theorem execBlock_hoistElse {block : Block} {i : Nat} (h : Idiom.isElseAfterReturn block i = true) :
    ∃ hoisted, hoistElse block i = some hoisted ∧ ∀ (call : Call) (env : Env) (s : State),
      execBlock call env hoisted s = execBlock call env block s := by
  unfold Idiom.isElseAfterReturn at h
  split at h
  · next test body orelse hi =>
    rw [Bool.and_eq_true] at h
    refine ⟨block.take i ++ .cond test body [] :: (orelse ++ block.drop (i + 1)), ?_, ?_⟩
    · unfold hoistElse
      rw [hi]
    · intro call env s
      rw [congrArg (execBlock call env) (eq_around hi), execBlock_append, execBlock_append,
        execBlock_cond_of_leaves (leaves_execBlock h.2)]
  · cases h

/-- `while`-loops use the other ways to leave a branch, too: here one goes on with the next turn. -/
theorem execBlock_hoistElse_continue :
    let block : Block := [.expr (.name "x"), .cond (.name "done") [.pass, .continue]
      [.raise (some (.name "ValueError")) none], .break]
    Idiom.isElseAfterReturn block 1 = true ∧
      ∃ hoisted, hoistElse block 1 = some hoisted ∧ ∀ (call : Call) (env : Env) (s : State),
        execBlock call env hoisted s = execBlock call env block s :=
  ⟨by decide, execBlock_hoistElse (by decide)⟩

/-! ## Paying sooner -/

/-- The step runs out of fuel. -/
def RunsDry (x : Exec α) (s : State) : Prop := ∃ t, x s = .error (.halt .fuelExhausted) t

/-- The state but for its fuel. -/
def State.drained (s : State) : State := { s with fuel := 0 }

/-- Two steps end alike in a state, with the same state left but for its fuel. -/
def EndsAlike (x y : Exec α) (s : State) : Prop :=
  Ending.map State.drained (x s) = Ending.map State.drained (y s)

/-- With more fuel the step comes to the same end, unless it runs dry. -/
def Thrifty (x : Exec α) : Prop := ∀ extra, (Allowance.ofFuel extra).Follows x x

/-- It makes no difference whether a unit is paid before a step or after it, as long as there is
enough fuel. -/
theorem endsAlike_charge {x : Exec α} (hx : Thrifty x) {f : α → Exec Flow} {s : State}
    (henough : ¬ RunsDry (Exec.charge 1 >>= fun _ => x >>= f) s) :
    EndsAlike (Exec.charge 1 >>= fun _ => x >>= f)
      (x >>= fun a => Exec.charge 1 >>= fun _ => f a) s := by
  by_cases hfuel : s.fuel < 1
  · refine absurd ⟨{ s with fuel := 0 }, ?_⟩ henough
    rw [Exec.bind_apply, Exec.charge_apply, if_pos hfuel]
  · let t : State := { s with fuel := s.fuel - 1 }
    have hs : (Allowance.ofFuel 1).grow t = s := by
      have hback : s.fuel - 1 + 1 = s.fuel := by omega
      show { s with fuel := s.fuel - 1 + 1 } = s
      rw [hback]
    have hearly : (Exec.charge 1 >>= fun _ => x >>= f) s = (x >>= f) t := by
      rw [Exec.bind_apply, Exec.charge_apply, if_neg hfuel]
    have hrun := (hx 1 t nofun).elim
    rw [hs] at hrun
    unfold RunsDry at henough
    unfold EndsAlike
    rw [hearly] at henough ⊢
    rw [Exec.bind_apply] at henough ⊢
    rw [Exec.bind_apply]
    obtain ⟨a, u, hsooner, hlater, -⟩ | ⟨e, u, hsooner, hlater, -⟩ | ⟨_, u, hsooner, rfl, -⟩ := hrun
    · -- The unit that the later payment needs is the one that the state has more.
      have hmore : ¬ ((Allowance.ofFuel 1).grow u).fuel < 1 :=
        Nat.not_lt.mpr (Nat.le_add_left 1 u.fuel)
      have hpaid : Exec.charge 1 ((Allowance.ofFuel 1).grow u) = .ok () u := by
        rw [Exec.charge_apply, if_neg hmore]
        rfl
      rw [hsooner, hlater]
      show _ = Ending.map State.drained ((Exec.charge 1 >>= fun _ => f a) _)
      rw [Exec.bind_apply, hpaid]
    · rw [hsooner, hlater]
      rfl
    · rw [hsooner] at henough
      exact absurd ⟨u, rfl⟩ henough

/-- Steps that end alike after a common part end alike as a whole. -/
theorem EndsAlike.after {x y z : Exec Flow} {s : State}
    (h : ∀ t, x s = .ok .next t → EndsAlike y z t) : EndsAlike (andThen x y) (andThen x z) s := by
  unfold EndsAlike
  rw [andThen_apply, andThen_apply]
  split
  · next t hx => exact h t hx
  · rfl

theorem RunsDry.after {x y : Exec Flow} {s t : State} (hx : x s = .ok .next t) (h : RunsDry y t) :
    RunsDry (andThen x y) s := by
  obtain ⟨u, hu⟩ := h
  refine ⟨u, ?_⟩
  rw [andThen_apply, hx]
  exact hu

/-- The same for a unit that both steps pay first. -/
theorem EndsAlike.paid {x y : Exec α} {s : State} (hdry : ¬ RunsDry (Exec.charge 1 >>= fun _ => x) s)
    (h : ∀ t, ¬ RunsDry x t → EndsAlike x y t) :
    EndsAlike (Exec.charge 1 >>= fun _ => x) (Exec.charge 1 >>= fun _ => y) s := by
  unfold RunsDry at hdry
  unfold EndsAlike
  rw [Exec.bind_apply] at hdry ⊢
  rw [Exec.bind_apply]
  cases hpaid : Exec.charge 1 s with
  | ok _ t =>
    rw [hpaid] at hdry
    exact h t hdry
  | error e t => rfl

/-! ## Returns under a condition -/

/-- Return the value of an expression. -/
def giveBack (call : Call) (env : Env) (e : Expr) : Exec Flow := do
  return .ret (← eval call env e)

/-- Whether a test holds. -/
def testing (call : Call) (env : Env) (test : Expr) : Exec Bool := do
  Exec.truthy (← eval call env test)

theorem thrifty_testing (levels : Nat) (env : Env) (test : Expr) :
    Thrifty (testing (callAt levels) env test) := fun _ =>
  Allowance.follows_bind ((Allowance.follows_callAt levels).eval env test) fun v =>
    Allowance.follows_quiet (Plain.truthy v).quiet

/-- Nothing behind a return is reached. -/
theorem execBlock_ret (e : Expr) (rest : Block) :
    execBlock call env (.ret (some e) :: rest) = (do
      Exec.charge 1
      giveBack call env e) := by
  rw [execBlock_cons, (leaves_exec rfl).andThen, exec, evalOption]
  simp only [bind_assoc, pure_bind]
  rfl

/-- Two branches that return pay for the return after the test. -/
theorem execBlock_branches (test a b : Expr) (rest : Block) :
    execBlock call env (.cond test [.ret (some a)] [.ret (some b)] :: rest) = (do
      Exec.charge 1
      let holds ← testing call env test
      Exec.charge 1
      giveBack call env (if holds then a else b)) := by
  have hbranch (e : Expr) : andThen (execBlock call env [.ret (some e)]) (execBlock call env rest) =
      (Exec.charge 1 >>= fun _ => giveBack call env e) := by
    rw [(leaves_execBlock rfl).andThen, execBlock_ret]
  rw [execBlock_cons, exec_cond]
  simp only [testing, andThen_bind, bind_assoc]
  refine congrArg (Exec.charge 1 >>= ·) (funext fun _ => ?_)
  refine congrArg (eval call env test >>= ·) (funext fun v => ?_)
  refine congrArg (Exec.truthy v >>= ·) (funext fun holds => ?_)
  cases holds with
  | true => exact hbranch a
  | false => exact hbranch b

/-- A conditional expression that is returned has paid for the return before the test. -/
theorem giveBack_ifExp (test a b : Expr) : giveBack call env (.ifExp test a b) = (do
    Exec.charge 1
    let holds ← testing call env test
    giveBack call env (if holds then a else b)) := by
  unfold giveBack testing
  rw [eval]
  simp only [bind_assoc]
  refine congrArg (Exec.charge 1 >>= ·) (funext fun _ => ?_)
  refine congrArg (eval call env test >>= ·) (funext fun v => ?_)
  refine congrArg (Exec.truthy v >>= ·) (funext fun holds => ?_)
  cases holds <;> rfl

/-- The block that returns a conditional expression ends as the one with the two branches. -/
theorem endsAlike_ifExp (levels : Nat) (env : Env) (test a b : Expr) (rest rest' : Block) {s : State}
    (hdry : ¬ RunsDry (execBlock (callAt levels) env (.ret (some (.ifExp test a b)) :: rest)) s) :
    EndsAlike (execBlock (callAt levels) env (.ret (some (.ifExp test a b)) :: rest))
      (execBlock (callAt levels) env (.cond test [.ret (some a)] [.ret (some b)] :: rest')) s := by
  rw [execBlock_ret, giveBack_ifExp] at hdry ⊢
  rw [execBlock_branches]
  exact .paid hdry fun t ht => endsAlike_charge (thrifty_testing levels env test) ht

theorem eq_of_returnsValue {block : Block} (h : Idiom.returnsValue block = true) :
    ∃ e, block = [.ret (some e)] := by
  unfold Idiom.returnsValue at h
  split at h
  · exact ⟨_, rfl⟩
  · cases h

/-- The two forms of a conditional whose branches both return, and what becomes of them. -/
theorem collapseReturns_cases {block : Block} {i : Nat} (h : Idiom.isIfElseReturn block i = true) :
    ∃ test a b rest,
      collapseReturns block i = some (block.take i ++ .ret (some (.ifExp test a b)) :: rest) ∧
      (block = block.take i ++ .cond test [.ret (some a)] [.ret (some b)] :: rest ∨
        block = block.take i ++ .cond test [.ret (some a)] [] :: .ret (some b) :: rest) := by
  unfold Idiom.isIfElseReturn at h
  split at h
  · next test body orelse hi =>
    rw [Bool.and_eq_true] at h
    obtain ⟨a, rfl⟩ := eq_of_returnsValue h.1
    have hat := eq_around hi
    unfold collapseReturns
    rw [hi]
    by_cases hempty : orelse.isEmpty = true
    · obtain rfl := List.isEmpty_iff.mp hempty
      rw [if_pos hempty] at h
      split at h
      · next b hb =>
        refine ⟨test, a, b, block.drop (i + 2), ?_, .inr ?_⟩
        · rw [hb]
          rfl
        · obtain ⟨hlt, hget⟩ := List.getElem?_eq_some_iff.mp hb
          rwa [← List.getElem_cons_drop hlt, hget] at hat
      · exact absurd h.2 Bool.false_ne_true
    · rw [if_neg hempty] at h
      obtain ⟨b, rfl⟩ := eq_of_returnsValue h.2
      exact ⟨test, a, b, block.drop (i + 1), rfl, .inl hat⟩
  · cases h

/-- Where both branches of a condition return, the second perhaps as the next statement, the block
that returns a conditional expression in their place ends as the block does, unless it runs out of
fuel: with the same flow, exception or halt, and in the same state but for its fuel. -/
theorem execBlock_collapseReturns {block : Block} {i : Nat}
    (h : Idiom.isIfElseReturn block i = true) :
    ∃ collapsed, collapseReturns block i = some collapsed ∧
      ∀ (levels : Nat) (env : Env) (s : State),
        ¬ RunsDry (execBlock (callAt levels) env collapsed) s →
        EndsAlike (execBlock (callAt levels) env collapsed)
          (execBlock (callAt levels) env block) s := by
  obtain ⟨test, a, b, rest, hcollapsed, hblock⟩ := collapseReturns_cases h
  refine ⟨_, hcollapsed, fun levels env s hdry => ?_⟩
  have hsame : execBlock (callAt levels) env block =
      andThen (execBlock (callAt levels) env (block.take i))
        (execBlock (callAt levels) env (.cond test [.ret (some a)] [.ret (some b)] :: rest)) := by
    obtain hblock | hblock := hblock
    · rw [congrArg (execBlock (callAt levels) env) hblock, execBlock_append]
    · have hleaves : Leaves (execBlock (callAt levels) env [.ret (some a)]) := leaves_execBlock rfl
      rw [congrArg (execBlock (callAt levels) env) hblock, execBlock_append,
        ← execBlock_cond_of_leaves hleaves test [.ret (some b)] rest]
      rfl
  rw [hsame, execBlock_append] at *
  exact .after fun t ht => endsAlike_ifExp levels env test a b rest rest fun hrest =>
    hdry (hrest.after ht)

/-- The second return may follow the branch: `if x: return 1` and `return xs` where `x` is false and
`xs` is not defined, so that both blocks raise the same exception, with some fuel left. -/
theorem execBlock_collapseReturns_following :
    let block : Block := [.cond (.name "x") [.ret (some (.int 1))] [], .ret (some (.name "xs"))]
    let collapsed : Block := [.ret (some (.ifExp (.name "x") (.int 1) (.name "xs")))]
    let s : State := { State.initial ⟨10, 1⟩ with globals := [("x", .int 0)] }
    collapseReturns block 0 = some collapsed ∧
      ¬ RunsDry (execBlock (callAt 1) none collapsed) s ∧
      EndsAlike (execBlock (callAt 1) none collapsed) (execBlock (callAt 1) none block) s := by
  intro block collapsed s
  have hsite : Idiom.isIfElseReturn block 0 = true := by decide
  obtain ⟨result, hresult, halike⟩ := execBlock_collapseReturns hsite
  obtain rfl : collapsed = result := Option.some.inj hresult
  have hraised : (match execBlock (callAt 1) none collapsed s with
      | .error (.raise e) _ => some e.kind
      | _ => none) = some ExceptionClass.name := by
    decide +kernel
  have hdry : ¬ RunsDry (execBlock (callAt 1) none collapsed) s := by
    rintro ⟨t, ht⟩
    rw [ht] at hraised
    cases hraised
  exact ⟨hresult, hdry, halike 1 none s hdry⟩

end Concord.Machine
