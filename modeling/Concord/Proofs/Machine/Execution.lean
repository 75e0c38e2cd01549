import Concord.Proofs.Machine.Conduct

/-!
# One program in two runs

What a simulation relates besides the predefined functions: expressions, statements and calls. Each
result goes by induction over the program, so that two runs whose calls are related (`Calls`) are
related in all they do; `callAt` closes the circle by induction on the levels of calls that are left.
-/

namespace Concord.Machine

/-- What a function gives back when its body has ended. -/
def Flow.result : Flow → Exec Value
  | .ret v => pure v
  | _ => pure .none

/-- Enter a function of the program, where `run` runs a body in a scope. -/
def enterBy (run : Nat → Block → Exec Flow) (call : Call) (c : Closure) (args : List Value)
    (keywords : Keywords) : Exec Value :=
  limited do
    let vars ← bindArguments c args keywords
    let scope ← Exec.newScope { vars, parent := c.env }
    deeper do
      match c.code with
      | .block body => (← run scope body).result
      | .expr e => eval call (some scope) e

theorem enter_eq_enterBy (call : Call) :
    enter call = enterBy (fun scope body => execBlock call (some scope) body) call := rfl

namespace Simulation

variable {S : Simulation} {call call' : Call}

/-! ## Expressions -/

variable (S) in
/-- The two runs call values alike. -/
def Calls (call call' : Call) : Prop :=
  ∀ v args keywords, S.Rel (call v args keywords) (call' v args keywords)

variable (S) in
/-- Both runs pay before they do anything else, and go on alike. -/
def Pays {α : Type} (x y : Exec α) : Prop :=
  ∃ x' y' : Exec α, x = (Exec.charge 1 >>= fun _ => x') ∧ y = (Exec.charge 1 >>= fun _ => y') ∧
    S.Rel x' y'

theorem Pays.intro {α : Type} {x y : Exec α} (h : S.Rel x y) :
    S.Pays (Exec.charge 1 >>= fun _ => x) (Exec.charge 1 >>= fun _ => y) := ⟨x, y, rfl, rfl, h⟩

theorem Pays.rel {α : Type} {x y : Exec α} (h : S.Pays x y) : S.Rel x y := by
  obtain ⟨x', y', rfl, rfl, hrest⟩ := h
  exact S.bind (S.charge 1) fun _ => hrest

theorem Pays.bind {α β : Type} {x y : Exec α} {f g : α → Exec β} (h : S.Pays x y)
    (hfg : ∀ a, S.Rel (f a) (g a)) : S.Pays (x >>= f) (y >>= g) := by
  obtain ⟨x', y', rfl, rfl, hrest⟩ := h
  rw [bind_assoc, bind_assoc]
  exact .intro (S.bind hrest hfg)

theorem eval_subscript (call : Call) (env : Env) {value index : Expr}
    (h : ∀ lower upper step, index ≠ .slice lower upper step) :
    Machine.eval call env (.subscript value index) = (do
      Exec.charge 1
      let container ← Machine.eval call env value
      getItem container (← Machine.eval call env index)) := by
  rw [Machine.eval]
  exact h

mutual

theorem Calls.pays (h : S.Calls call call') (env : Env) : (e : Expr) →
    S.Pays (eval call env e) (eval call' env e)
  | .name n => by
    rw [Machine.eval, Machine.eval]
    exact .intro <| S.quiet (.lookup env n)
  | .int i | .float x | .bool b | .none => by
    rw [Machine.eval, Machine.eval]
    exact .intro <| S.ret _
  | .str lit => by
    rw [Machine.eval, Machine.eval]
    refine .intro ?_
    split
    · exact S.throw _
    · exact S.ret _
  | .bin op left right => by
    rw [Machine.eval, Machine.eval]
    exact .intro <| S.bind (h.pays env left).rel fun l =>
      S.bind (h.pays env right).rel fun r => S.plain (.binary op l r)
  | .unary op operand => by
    rw [Machine.eval, Machine.eval]
    exact .intro <| S.bind (h.pays env operand).rel fun a => S.plain (.unary op a)
  | .logic op left right => by
    rw [Machine.eval, Machine.eval]
    refine .intro <| S.bind (h.pays env left).rel fun l =>
      S.bind (S.plain (.truthy l)) fun b => ?_
    split
    · exact S.ret l
    · exact (h.pays env right).rel
  | .compare left links => by
    rw [Machine.eval, Machine.eval]
    exact .intro <| S.bind (h.pays env left).rel fun l => h.evalLinks env l links
  | .call func args => by
    rw [Machine.eval, Machine.eval]
    refine .intro <| S.bind (h.pays env func).rel fun callee =>
      S.bind (h.evalArgs env args) ?_
    rintro ⟨positional, keywords⟩
    exact h callee positional keywords
  | .attribute value attr => by
    rw [Machine.eval, Machine.eval]
    exact .intro <| S.bind (h.pays env value).rel fun v => S.ret _
  | .subscript value index => by
    have hvalue := (h.pays env value).rel
    have hindex := (h.pays env index).rel
    cases index with
    | slice lower upper step =>
      rw [Machine.eval, Machine.eval]
      have hl := h.evalOption env lower
      have hu := h.evalOption env upper
      have hs := h.evalOption env step
      exact .intro <| S.bind hvalue fun c =>
        S.bind hl fun l => S.bind (S.plain (.lift _)) fun l =>
        S.bind hu fun u => S.bind (S.plain (.lift _)) fun u =>
        S.bind hs fun s => S.bind (S.plain (.lift _)) fun s => S.plain (.getSlice c l u s)
    | _ =>
      -- The equation of `eval` for this case asks for an index that is no slice.
      rw [eval_subscript call, eval_subscript call']
      · exact .intro <| S.bind hvalue fun c => S.bind hindex fun i =>
          S.plain (.getItem c i)
      all_goals simp
  | .slice _ _ _ | .starred _ | .verbatim _ => by
    rw [Machine.eval, Machine.eval]
    exact .intro <| S.quiet (.throw _)
  | .list items => by
    rw [Machine.eval, Machine.eval]
    exact .intro <| S.bind (h.evalItems env items) fun vs => S.plain (.newList vs)
  | .tuple items => by
    rw [Machine.eval, Machine.eval]
    exact .intro <| S.bind (h.evalItems env items) fun vs => S.plain (.newTuple vs)
  | .set items => by
    rw [Machine.eval, Machine.eval]
    exact .intro <| S.bind (h.evalItems env items) fun vs => S.plain (.makeSet vs)
  | .dict entries => by
    rw [Machine.eval, Machine.eval]
    exact .intro <| S.bind (h.evalEntries env [] entries) fun es => S.plain (.newDict es)
  | .comp kind element value clauses => by
    rw [Machine.eval, Machine.eval]
    refine .intro <| S.bind (S.quiet (.newScope _)) fun scope => ?_
    have hleaf := S.bind (h.pays (some scope) element).rel fun key =>
      S.bind (h.evalOption (some scope) value) fun v => S.ret (key, v)
    exact S.bind (h.evalClauses (some scope) hleaf clauses) fun produced =>
      S.plain (.comprehended kind produced)
  | .ifExp test body orelse => by
    rw [Machine.eval, Machine.eval]
    refine .intro <| S.bind (h.pays env test).rel fun t =>
      S.bind (S.plain (.truthy t)) fun b => ?_
    split
    · exact (h.pays env body).rel
    · exact (h.pays env orelse).rel
  | .lambda params body => by
    rw [Machine.eval, Machine.eval]
    exact .intro <| S.bind (h.evalParams env params) fun ps =>
      S.newClosure _ fun _ => rfl

theorem Calls.evalOption (h : S.Calls call call') (env : Env) :
    (o : Option Expr) → S.Rel (evalOption call env o) (evalOption call' env o)
  | none => by
    rw [Machine.evalOption, Machine.evalOption]
    exact S.ret none
  | some e => by
    rw [Machine.evalOption, Machine.evalOption]
    exact S.bind (h.pays env e).rel fun v => S.ret (some v)

theorem Calls.evalItems (h : S.Calls call call') (env : Env) :
    (es : List Expr) → S.Rel (evalItems call env es) (evalItems call' env es)
  | [] => by
    rw [Machine.evalItems, Machine.evalItems]
    exact S.ret []
  | e :: rest => by
    have hitem := (h.pays env e).rel
    have hrest := h.evalItems env rest
    cases e with
    | starred inner =>
      have hinner := (h.pays env inner).rel
      rw [Machine.evalItems, Machine.evalItems]
      exact S.bind hinner fun v => S.bind (S.conduct.iterate v) fun vs => S.bind hrest fun ws =>
        S.ret (vs ++ ws)
    | _ =>
      rw [Machine.evalItems, Machine.evalItems]
      · exact S.bind hitem fun v => S.bind hrest fun vs => S.ret (v :: vs)
      all_goals simp

theorem Calls.evalLinks (h : S.Calls call call') (env : Env) (left : Value) :
    (ls : List (CmpOp × Expr)) → S.Rel (evalLinks call env left ls) (evalLinks call' env left ls)
  | [] => by
    rw [Machine.evalLinks, Machine.evalLinks]
    exact S.ret _
  | (op, right) :: rest => by
    rw [Machine.evalLinks, Machine.evalLinks]
    refine S.bind (h.pays env right).rel fun r =>
      S.bind (S.plain (.compareValues op left r)) fun b => ?_
    split
    · exact h.evalLinks env r rest
    · exact S.ret _

theorem Calls.evalArgs (h : S.Calls call call') (env : Env) :
    (as : List Arg) → S.Rel (evalArgs call env as) (evalArgs call' env as)
  | [] => by
    rw [Machine.evalArgs, Machine.evalArgs]
    exact S.ret _
  | .positional e :: rest | .keyword _ e :: rest => by
    rw [Machine.evalArgs, Machine.evalArgs]
    exact S.bind (h.pays env e).rel fun v => S.bind (h.evalArgs env rest) fun _ => S.ret _
  | .star e :: rest => by
    rw [Machine.evalArgs, Machine.evalArgs]
    exact S.bind (h.pays env e).rel fun v => S.bind (S.conduct.iterate v) fun vs =>
      S.bind (h.evalArgs env rest) fun _ => S.ret _
  | .doubleStar _ :: _ => by
    rw [Machine.evalArgs, Machine.evalArgs]
    exact S.quiet (.throw _)

theorem Calls.evalEntries (h : S.Calls call call') (env : Env) (done : Entries) :
    (es : List (Expr × Expr)) →
    S.Rel (evalEntries call env done es) (evalEntries call' env done es)
  | [] => by
    rw [Machine.evalEntries, Machine.evalEntries]
    exact S.ret _
  | (key, value) :: rest => by
    rw [Machine.evalEntries, Machine.evalEntries]
    exact S.bind (h.pays env key).rel fun k => S.bind (h.pays env value).rel fun v =>
      S.bind (S.plain (.insertEntry done k v)) fun done => h.evalEntries env done rest

theorem Calls.evalParams (h : S.Calls call call') (env : Env) : (ps : List Param) →
    S.Rel (evalParams call env ps) (evalParams call' env ps)
  | [] => by
    rw [Machine.evalParams, Machine.evalParams]
    exact S.ret _
  | ⟨_, _, default, _⟩ :: rest => by
    rw [Machine.evalParams, Machine.evalParams]
    exact S.bind (h.evalOption env default) fun v => S.bind (h.evalParams env rest) fun _ => S.ret _

theorem Calls.evalConditions (h : S.Calls call call') (env : Env) : (es : List Expr) →
    S.Rel (evalConditions call env es) (evalConditions call' env es)
  | [] => by
    rw [Machine.evalConditions, Machine.evalConditions]
    exact S.ret _
  | e :: rest => by
    rw [Machine.evalConditions, Machine.evalConditions]
    refine S.bind (h.pays env e).rel fun v => S.bind (S.plain (.truthy v)) fun b => ?_
    split
    · exact h.evalConditions env rest
    · exact S.ret _

theorem Calls.evalClauses (h : S.Calls call call') (env : Env) {leaf leaf' : Exec (Value × Option Value)}
    (hleaf : S.Rel leaf leaf') : (cs : List Clause) →
    S.Rel (evalClauses call env leaf cs) (evalClauses call' env leaf' cs)
  | [] => by
    rw [Machine.evalClauses, Machine.evalClauses]
    exact S.bind hleaf fun p => S.ret [p]
  | ⟨target, iter, ifs⟩ :: rest => by
    rw [Machine.evalClauses, Machine.evalClauses]
    have hrest := h.evalClauses env hleaf rest
    refine S.bind (h.pays env iter).rel fun v => S.bind (S.conduct.iterate v) fun items =>
      S.bind (S.conduct.mapM (fun item => ?_) items) fun produced => S.ret _
    refine S.bind (h.assign env target item) fun _ => S.bind (h.evalConditions env ifs) fun b => ?_
    split
    · exact hrest
    · exact S.ret []

theorem Calls.assign (h : S.Calls call call') (env : Env) : (target : Expr) → (value : Value) →
    S.Rel (assign call env target value) (assign call' env target value)
  | .name n, value => by
    rw [Machine.assign, Machine.assign]
    exact S.quiet (.bindName env n value)
  | .tuple targets, value | .list targets, value => by
    rw [Machine.assign, Machine.assign]
    exact S.bind (S.conduct.unpack targets value) fun vs => h.assignAll env targets vs
  | .subscript container index, value => by
    have hcontainer := (h.pays env container).rel
    have hindex := (h.pays env index).rel
    cases index with
    | slice _ _ _ =>
      rw [Machine.assign, Machine.assign]
      exact S.bind hcontainer fun _ => S.quiet (.throw _)
    | _ =>
      rw [Machine.assign, Machine.assign]
      · exact S.bind hcontainer fun c => S.bind hindex fun i => S.plain (.setItem c i value)
      all_goals simp
  | .int _, _ | .float _, _ | .str _, _ | .bool _, _ | .none, _ | .bin _ _ _, _ | .unary _ _, _
  | .logic _ _ _, _ | .compare _ _, _ | .call _ _, _ | .attribute _ _, _ | .slice _ _ _, _
  | .set _, _ | .dict _, _ | .comp _ _ _ _, _ | .ifExp _ _ _, _ | .lambda _ _, _ | .starred _, _
  | .verbatim _, _ => by
    rw [Machine.assign, Machine.assign]
    · exact S.quiet (.throw _)
    all_goals simp

theorem Calls.assignAll (h : S.Calls call call') (env : Env) :
    (targets : List Expr) → (values : List Value) →
    S.Rel (assignAll call env targets values) (assignAll call' env targets values)
  | target :: targets, value :: values => by
    rw [Machine.assignAll, Machine.assignAll]
    exact S.bind (h.assign env target value) fun _ => h.assignAll env targets values
  | [], _ | _ :: _, [] => by
    rw [Machine.assignAll, Machine.assignAll]
    · exact S.ret ()
    all_goals simp

end

theorem Calls.eval (h : S.Calls call call') (env : Env) (e : Expr) :
    S.Rel (eval call env e) (eval call' env e) := (h.pays env e).rel

/-! ## Statements -/

variable (S) in
theorem forItems {body body' : Value → Exec Flow} (h : ∀ v, S.Rel (body v) (body' v))
    (items : List Value) : S.Rel (forItems body items) (forItems body' items) := by
  induction items with
  | nil => exact S.ret none
  | cons x xs ih =>
    rw [Machine.forItems, Machine.forItems]
    refine S.bind (h x) fun flow => ?_
    split
    · exact S.ret _
    · exact ih

theorem paid_exec (call : Call) (env : Env) (s : Stmt) : Paid (Machine.exec call env s) := by
  cases s with
  | raise exc _ =>
    cases exc <;> rw [Machine.exec] <;> exact ⟨_, rfl⟩
  | define f =>
    obtain ⟨name, params, body, decorators, returns, isAsync⟩ := f
    rw [Machine.exec]
    exact ⟨_, rfl⟩
  | _ =>
    rw [Machine.exec]
    exact ⟨_, rfl⟩

/-- A block that is not empty pays for its first statement. -/
theorem paid_execBlock (call : Call) (env : Env) {block : Block} (h : block ≠ []) :
    Paid (execBlock call env block) := by
  obtain ⟨s, rest, rfl⟩ := List.exists_cons_of_ne_nil h
  obtain ⟨y, hy⟩ := paid_exec call env s
  rw [Machine.execBlock, hy, bind_assoc]
  exact ⟨_, rfl⟩

mutual

theorem Calls.exec (h : S.Calls call call') (env : Env) : (s : Stmt) →
    (S.strict → s.isSealed = true) → S.Rel (exec call env s) (exec call' env s)
  | .define ⟨name, params, body, decorators, _, isAsync⟩, hs => by
    rw [Machine.exec, Machine.exec]
    refine S.bind (S.charge 1) fun _ => ?_
    have hbody : S.strict → Stmt.areSealed body = true := by simpa [Stmt.isSealed] using hs
    split
    · exact S.bind (S.throw _) fun _ => S.bind (h.evalParams env params) fun ps =>
        S.bind (S.newClosure _ hbody) fun f => S.bind (S.quiet (.bindName env name f)) fun _ =>
          S.ret _
    · exact S.bind (h.evalParams env params) fun ps =>
        S.bind (S.newClosure _ hbody) fun f => S.bind (S.quiet (.bindName env name f)) fun _ =>
          S.ret _
  | .ret value, _ => by
    rw [Machine.exec, Machine.exec]
    exact S.bind (S.charge 1) fun _ => S.bind (h.evalOption env value) fun v => S.ret _
  | .assign targets value _, _ => by
    rw [Machine.exec, Machine.exec]
    exact S.bind (S.charge 1) fun _ => S.bind (h.eval env value) fun v =>
      S.bind (S.conduct.forM (fun target => h.assign env target v) targets) fun _ => S.ret _
  | .augAssign target op value, _ => by
    rw [Machine.exec, Machine.exec]
    exact S.bind (S.charge 1) fun _ => S.bind (h.eval env value) fun operand =>
      S.bind (h.eval env target) fun current => S.bind (S.conduct.augmented op current operand) fun v =>
        S.bind (h.assign env target v) fun _ => S.ret _
  | .expr e, _ => by
    rw [Machine.exec, Machine.exec]
    exact S.bind (S.charge 1) fun _ => S.bind (h.eval env e) fun _ => S.ret _
  | .cond test body orelse, hs => by
    simp only [Stmt.isSealed, Bool.and_eq_true] at hs
    rw [Machine.exec, Machine.exec]
    refine S.bind (S.charge 1) fun _ => S.bind (h.eval env test) fun t =>
      S.bind (S.plain (.truthy t)) fun b => ?_
    split
    · exact h.execBlock env body fun hstrict => (hs hstrict).1
    · exact h.execBlock env orelse fun hstrict => (hs hstrict).2
  | .forLoop target iter body orelse, hs => by
    simp only [Stmt.isSealed, Bool.and_eq_true] at hs
    have hbody := h.execBlock env body fun hstrict => (hs hstrict).1
    rw [Machine.exec, Machine.exec]
    refine S.bind (S.charge 1) fun _ => S.bind (h.eval env iter) fun v =>
      S.bind (S.conduct.iterate v) fun items =>
        S.bind (S.forItems (fun item => S.bind (h.assign env target item) fun _ => hbody) items)
          fun left => ?_
    split
    · exact S.ret _
    · exact h.execBlock env orelse fun hstrict => (hs hstrict).2
  | .whileLoop test body orelse, hs => by
    simp only [Stmt.isSealed, Bool.and_eq_true] at hs
    obtain ⟨_, _, hx, hy, htest⟩ := (h.pays env test).bind fun v => S.plain (.truthy v)
    have hbody := h.execBlock env body fun hstrict => (hs hstrict).1
    have horelse := h.execBlock env orelse fun hstrict => (hs hstrict).2
    rw [Machine.exec, Machine.exec]
    refine S.bind (S.charge 1) fun _ => ?_
    -- The fuel is read before the loop starts: both together are `repeating`.
    rw [← bind_assoc, ← bind_assoc, hx, hy]
    refine S.bind (S.repeats htest hbody) fun left => ?_
    split
    · exact S.ret _
    · exact horelse
  | .tryBlock body handlers orelse final, hs => by
    simp only [Stmt.isSealed, Bool.and_eq_true] at hs
    have hbody := h.execBlock env body fun hstrict => (hs hstrict).1.1.1.2
    have horelse := h.execBlock env orelse fun hstrict => (hs hstrict).1.2
    have hfinal := h.execBlock env final fun hstrict => (hs hstrict).2
    have hhandlers (e : Exception) :=
      h.execHandlers env e handlers fun hstrict => (hs hstrict).1.1.2
    rw [Machine.exec, Machine.exec]
    refine S.bind (S.charge 1) fun _ => ?_
    split
    · exact S.guarding hbody horelse hhandlers
    · rename_i hne
      refine S.finishing hbody horelse hhandlers hfinal
        (paid_execBlock call env (by simpa using hne)) fun hstrict => ?_
      -- A sealed `try` with a `finally` block has nothing else.
      obtain ⟨rfl, rfl⟩ : handlers = [] ∧ orelse = [] := by
        have := (hs hstrict).1.1.1.1
        simpa [hne] using this
      exact ⟨by rw [Machine.execBlock], fun e => by rw [Machine.execHandlers]⟩
  | .raise none _, _ => by
    rw [Machine.exec, Machine.exec]
    refine S.bind (S.charge 1) fun _ => S.quiet (Quiet.read (f := State.handling)
      (g := fun | e :: _ => MonadExcept.throw (.raise e) | [] => MonadExcept.throw _) (fun _ _ => rfl)
      fun handling => ?_)
    cases handling <;> exact .throw _
  | .raise (some exc) _, _ => by
    rw [Machine.exec, Machine.exec]
    exact S.bind (S.charge 1) fun _ => S.bind (h.eval env exc) fun v =>
      S.bind (S.quiet (.ofHeap _)) fun _ => S.throw _
  | .assert test msg, _ => by
    have hmsg := h.evalOption env msg
    rw [Machine.exec, Machine.exec]
    refine S.bind (S.charge 1) fun _ => S.bind (h.eval env test) fun t =>
      S.bind (S.plain (.truthy t)) fun b => ?_
    split
    · exact S.ret _
    · refine S.bind hmsg fun v => ?_
      split
      · exact S.bind (S.quiet (.ofHeap _)) fun _ => S.throw _
      · exact S.throw _
  | .globals names, _ => by
    rw [Machine.exec, Machine.exec]
    exact S.bind (S.charge 1) fun _ => S.bind (S.quiet (.declareGlobals env names)) fun _ => S.ret _
  | .nonlocals names, _ => by
    rw [Machine.exec, Machine.exec]
    exact S.bind (S.charge 1) fun _ => S.bind (S.quiet (.declareNonlocals env names)) fun _ =>
      S.ret _
  | .pass, _ | .break, _ | .continue, _ => by
    rw [Machine.exec, Machine.exec]
    exact S.bind (S.charge 1) fun _ => S.ret _
  | .importNames _, _ | .importFrom _ _, _ | .verbatim _ _ _, _ => by
    rw [Machine.exec, Machine.exec]
    exact S.bind (S.charge 1) fun _ => S.throw _

theorem Calls.execBlock (h : S.Calls call call') (env : Env) : (block : List Stmt) →
    (S.strict → Stmt.areSealed block = true) →
    S.Rel (execBlock call env block) (execBlock call' env block)
  | [], _ => by
    rw [Machine.execBlock, Machine.execBlock]
    exact S.ret _
  | s :: rest, hs => by
    simp only [Stmt.areSealed, Bool.and_eq_true] at hs
    have hrest := h.execBlock env rest fun hstrict => (hs hstrict).2
    rw [Machine.execBlock, Machine.execBlock]
    refine S.bind (h.exec env s fun hstrict => (hs hstrict).1) fun flow => ?_
    split
    · exact hrest
    · exact S.ret _

theorem Calls.execHandlers (h : S.Calls call call') (env : Env) (e : Exception) :
    (handlers : List (HandlerOf Stmt)) → (S.strict → Stmt.handlersSealed handlers = true) →
    S.Rel (execHandlers call env e handlers) (execHandlers call' env e handlers)
  | [], _ => by
    rw [Machine.execHandlers, Machine.execHandlers]
    exact S.throw _
  | ⟨type, name, body⟩ :: rest, hs => by
    simp only [Stmt.handlersSealed, Bool.and_eq_true] at hs
    have hbody := h.execBlock env body fun hstrict => (hs hstrict).1
    have hrest := h.execHandlers env e rest fun hstrict => (hs hstrict).2
    have hhandled := S.handling e hbody
    rw [Machine.execHandlers, Machine.execHandlers]
    refine S.bind (h.evalOption env type) fun handler => ?_
    -- Handlers with and without a type go on in the same way once it is known whether they catch.
    have hcaught (caught : Bool) : S.Rel
        (if caught then
          match name with
          | some name =>
            Exec.newException e >>= fun v => Exec.bind env name v >>= fun _ =>
              whileHandling e (Machine.execBlock call env body)
          | none => whileHandling e (Machine.execBlock call env body)
        else Machine.execHandlers call env e rest)
        (if caught then
          match name with
          | some name =>
            Exec.newException e >>= fun v => Exec.bind env name v >>= fun _ =>
              whileHandling e (Machine.execBlock call' env body)
          | none => whileHandling e (Machine.execBlock call' env body)
        else Machine.execHandlers call' env e rest) := by
      cases caught <;> cases name <;> grind
    cases handler with
    | none => exact S.bind (S.ret true) hcaught
    | some handler =>
      exact S.bind (S.quiet (.ofHeap _)) fun r => S.bind (S.plain (.ofExcept r)) hcaught

end

/-! ## Calls -/

theorem callBy {onClosure onClosure' : Closure → List Value → Keywords → Exec Value}
    (h : ∀ c, (S.strict → c.code.isSealed = true) → ∀ args keywords,
      S.Rel (onClosure c args keywords) (onClosure' c args keywords)) (nesting : Nat) :
    S.Calls (callBy onClosure nesting) (callBy onClosure' nesting) := by
  induction nesting with
  | zero => exact fun _ _ _ => S.exhaust
  | succ nesting ih =>
    intro callee args keywords
    have happly : S.conduct.Applies (fun f xs => Machine.callBy onClosure nesting f xs [])
        (fun f xs => Machine.callBy onClosure' nesting f xs []) := fun f xs => ih f xs []
    cases callee with
    | function r => exact S.onClosure r (fun c hc => h c hc args keywords) (.ret _)
    | builtin b => exact happly.native b args keywords
    | method receiver name => exact happly.callMethod receiver name args keywords
    | exceptionType c =>
      cases args with
      | nil => exact S.bind (S.ret "") fun message => S.plain (.newException ⟨c, message⟩)
      | cons v _ =>
        exact S.bind (S.quiet (.ofHeap _)) fun message => S.plain (.newException ⟨c, message⟩)
    | _ => exact S.throw _

/-- Functions of the program are entered alike, if their blocks are run alike. -/
theorem Calls.enterBy (h : S.Calls call call') {run run' : Nat → Block → Exec Flow}
    (hrun : ∀ i body, (S.strict → Stmt.areSealed body = true) → S.Rel (run i body) (run' i body))
    (c : Closure) (hc : S.strict → c.code.isSealed = true) (args : List Value) (keywords : Keywords) :
    S.Rel (enterBy run call c args keywords) (enterBy run' call' c args keywords) := by
  unfold Machine.enterBy
  refine S.limiting (S.bind (S.plain (.bindArguments c args keywords)) fun vars =>
    S.bind (S.quiet (.newScope _)) fun scope => S.deepening ?_)
  cases hcode : c.code with
  | block body =>
    rw [hcode] at hc
    refine S.bind (hrun scope body hc) fun flow => ?_
    cases flow <;> exact S.ret _
  | expr e => exact h.eval (some scope) e

theorem Calls.enter (h : S.Calls call call') (c : Closure) (hc : S.strict → c.code.isSealed = true)
    (args : List Value) (keywords : Keywords) :
    S.Rel (enter call c args keywords) (enter call' c args keywords) :=
  h.enterBy (fun scope body hbody => h.execBlock (some scope) body hbody) c hc args keywords

variable (S) in
/-- Calls with some levels left are related to calls with `more` levels left, if the step that finds
no level left is related to whatever the other run does there: to itself where `more` is zero. -/
theorem callAt {more : Nat} (hlimit : ∀ y : Exec Value, (more = 0 → y = tooDeep) → S.Rel tooDeep y)
    (levels : Nat) : S.Calls (callAt levels) (callAt (levels + more)) := by
  induction levels with
  | zero =>
    intro callee args keywords
    rw [Nat.zero_add]
    cases more with
    | zero => exact callBy (fun _ _ _ _ => hlimit _ fun _ => rfl) _ callee args keywords
    | succ more => exact callBy (fun _ _ _ _ => hlimit _ nofun) _ callee args keywords
  | succ levels ih =>
    intro callee args keywords
    rw [Nat.succ_add]
    exact callBy (fun c hc => ih.enter c hc) _ callee args keywords

end Simulation

end Concord.Machine
