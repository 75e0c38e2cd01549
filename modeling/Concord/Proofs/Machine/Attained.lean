import Concord.Proofs.Machine.Execution
import Concord.Proofs.Machine.Parting
import Concord.Proofs.Tree.Numbered

/-!
# Programs with exchanged bodies

One program runs in two ways: functions whose bodies are exchanged (`swaps`) run the one body or the
other. If the bodies of each pair part at the end of a call at the most (`Exchanges`), then the second
run attains the first in all that it does. Where code runs decides which hidden variables it may
mention: inside of a call any, if what it makes is sheltered from them; after it none (`Fits`).
-/

namespace Concord.Machine

/-! ## Code that fits a stage -/

/-- The expressions may be evaluated in a scope of this stage. -/
def Fits (hidden : List String) (g : Stage) (es : List Expr) : Prop :=
  ∀ e ∈ es, g.suits hidden (.expr e) = true

/-- The parts of a program may run in a scope of this stage. -/
def FitsIn (hidden : List String) (g : Stage) (xs : List Node) : Prop :=
  ∀ x ∈ xs, g.suits hidden x = true

variable {hidden : List String} {swaps : Block → Block → Prop} {g : Stage}

@[simp] theorem fits_cons {e : Expr} {es : List Expr} :
    Fits hidden g (e :: es) ↔ g.suits hidden (.expr e) = true ∧ Fits hidden g es :=
  List.forall_mem_cons

@[simp] theorem fits_append {es ds : List Expr} :
    Fits hidden g (es ++ ds) ↔ Fits hidden g es ∧ Fits hidden g ds :=
  List.forall_mem_append

@[simp] theorem fitsIn_cons {x : Node} {xs : List Node} :
    FitsIn hidden g (x :: xs) ↔ g.suits hidden x = true ∧ FitsIn hidden g xs :=
  List.forall_mem_cons

@[simp] theorem fitsIn_append {xs ys : List Node} :
    FitsIn hidden g (xs ++ ys) ↔ FitsIn hidden g xs ∧ FitsIn hidden g ys :=
  List.forall_mem_append

@[simp] theorem fitsIn_exprNodes {es : List Expr} :
    FitsIn hidden g (Stmt.exprNodes es) ↔ Fits hidden g es :=
  List.forall_mem_map

/-- What fits a scope fits a comprehension in it. -/
theorem Fits.inner {es : List Expr} (h : Fits hidden g es) : Fits hidden g.inner es :=
  fun e he => Stage.suits_inner (h e he)

/-- Everything fits where there is no call that hides variables. -/
theorem fitsIn_apart (xs : List Node) : FitsIn hidden .apart xs := fun _ _ => rfl

/-- A name that fits may be bound. -/
theorem takes_of_suits {x : Node} (h : g.suits hidden x = true) {n : String} (hn : n ∈ x.mentioned) :
    g.Takes hidden n := by
  intro hg
  have havoids : x.avoids (g.reserved hidden) = true := by
    cases g with
    | apart | running => cases hg
    | ended | pinned | shaded | clear => exact h
  simp only [Node.avoids, List.all_eq_true] at havoids
  simpa using havoids n hn

/-- A name that fits stands for the same in both runs. -/
theorem knows_of_suits {x : Node} (h : g.suits hidden x = true) {n : String} (hn : n ∈ x.mentioned) :
    g.Knows hidden n :=
  (takes_of_suits h hn).knows

/-- Where nothing may mention a hidden variable, what fits does not. -/
theorem avoids_of_suits {x : Node} (h : g.suits hidden x = true) (hg : g.hides = true) :
    x.avoids hidden = true := by
  simp only [Node.avoids, List.all_eq_true]
  intro n hn
  simpa using knows_of_suits h hn hg

/-- The same code made in both runs. -/
theorem Code.akin_self {c : Code} (h : g ≠ .apart → c.Avoids hidden) :
    Code.Akin hidden swaps g c c := by
  cases g with
  | apart => exact .inl rfl
  | running | ended | pinned | shaded | clear => exact ⟨rfl, h nofun⟩

/-- The body of a lambda that fits. -/
theorem akin_lambda {ps : List Param} {body : Expr}
    (h : Fits hidden g (Expr.subterms (.lambda ps body))) :
    Code.Akin hidden swaps g (.expr body) (.expr body) := by
  rw [Expr.subterms, fits_cons, fits_append] at h
  refine Code.akin_self fun hg => ?_
  cases g with
  | apart => exact absurd rfl hg
  | running => exact List.all_eq_true.mp h.1
  | ended | pinned | shaded | clear => exact fun x hx => avoids_of_suits (h.2.2 x hx) rfl

/-- The body of a definition that fits. -/
theorem akin_define {f : Function} (h : FitsIn hidden g (Stmt.nodes (.define f))) :
    Code.Akin hidden swaps g (.block f.body) (.block f.body) := by
  obtain ⟨name, params, body, decorators, returns, isAsync⟩ := f
  rw [Stmt.nodes, fitsIn_cons, fitsIn_append, fitsIn_append] at h
  refine Code.akin_self fun hg => ?_
  cases g with
  | apart => exact absurd rfl hg
  | running => exact List.all_eq_true.mp h.1
  | ended | pinned | shaded | clear => exact fun x hx => avoids_of_suits (h.2.2.2 x hx) rfl

namespace Attains

variable {env : Env} {call call' : Call}

variable (hidden swaps) in
/-- Calls in the second run attain those in the first. -/
def Calls (call call' : Call) : Prop :=
  ∀ v args keywords, Attains hidden swaps none .apart (call v args keywords) (call' v args keywords)

/-! ## Expressions -/

mutual

theorem Calls.eval (h : Calls hidden swaps call call') (env : Env) {g : Stage} : (e : Expr) →
    Fits hidden g e.subterms → Attains hidden swaps env g (eval call env e) (eval call' env e)
  | .name n, he => by
    rw [Expr.subterms, fits_cons] at he
    rw [Machine.eval, Machine.eval]
    exact bind (charge 1) fun _ => lookup (knows_of_suits he.1 (List.mem_singleton_self n))
  | .int _, _ | .float _, _ | .bool _, _ | .none, _ => by
    rw [Machine.eval, Machine.eval]
    exact bind (charge 1) fun _ => ret _
  | .str _, _ => by
    rw [Machine.eval, Machine.eval]
    refine bind (charge 1) fun _ => plain ?_
    grind
  | .bin _ l r, he => by
    simp only [Expr.subterms, fits_cons, fits_append] at he
    rw [Machine.eval, Machine.eval]
    exact bind (charge 1) fun _ => bind (h.eval env l he.2.1) fun v =>
      bind (h.eval env r he.2.2) fun w => plain (.binary _ v w)
  | .unary _ a, he => by
    simp only [Expr.subterms, fits_cons] at he
    rw [Machine.eval, Machine.eval]
    exact bind (charge 1) fun _ => bind (h.eval env a he.2) fun v => plain (.unary _ v)
  | .logic _ l r, he => by
    simp only [Expr.subterms, fits_cons, fits_append] at he
    rw [Machine.eval, Machine.eval]
    refine bind (charge 1) fun _ => bind (h.eval env l he.2.1) fun v =>
      bind (plain (.truthy v)) fun b => ?_
    split
    · exact ret v
    · exact h.eval env r he.2.2
  | .compare l links, he => by
    simp only [Expr.subterms, fits_cons, fits_append] at he
    rw [Machine.eval, Machine.eval]
    exact bind (charge 1) fun _ => bind (h.eval env l he.2.1) fun v => h.evalLinks env v links he.2.2
  | .call f args, he => by
    simp only [Expr.subterms, fits_cons, fits_append] at he
    rw [Machine.eval, Machine.eval]
    refine bind (charge 1) fun _ => bind (h.eval env f he.2.1) fun callee =>
      bind (h.evalArgs env args he.2.2) ?_
    rintro ⟨positional, keywords⟩
    exact (h callee positional keywords).anywhere
  | .attribute a _, he => by
    simp only [Expr.subterms, fits_cons] at he
    rw [Machine.eval, Machine.eval]
    exact bind (charge 1) fun _ => bind (h.eval env a he.2) fun v => ret _
  | .subscript a i, he => by
    simp only [Expr.subterms, fits_cons, fits_append] at he
    have hvalue := h.eval env a he.2.1
    have hindex := h.eval env i he.2.2
    cases i with
    | slice l u s =>
      simp only [Expr.subterms, fits_cons, fits_append] at he
      have hl := h.evalOption env l he.2.2.2.1
      have hu := h.evalOption env u he.2.2.2.2.1
      have hs := h.evalOption env s he.2.2.2.2.2
      rw [Machine.eval, Machine.eval]
      exact bind (charge 1) fun _ => bind hvalue fun c =>
        bind hl fun l => bind (plain (.lift _)) fun l =>
        bind hu fun u => bind (plain (.lift _)) fun u =>
        bind hs fun s => bind (plain (.lift _)) fun s => plain (.getSlice c l u s)
    | _ =>
      -- The equation of `eval` for this case asks for an index that is no slice.
      rw [Simulation.eval_subscript call, Simulation.eval_subscript call']
      · exact bind (charge 1) fun _ => bind hvalue fun c => bind hindex fun i => plain (.getItem c i)
      all_goals simp
  | .slice _ _ _, _ | .starred _, _ | .verbatim _, _ => by
    rw [Machine.eval, Machine.eval]
    exact bind (charge 1) fun _ => throw _
  | .list es, he => by
    simp only [Expr.subterms, fits_cons] at he
    rw [Machine.eval, Machine.eval]
    exact bind (charge 1) fun _ => bind (h.evalItems env es he.2) fun vs => plain (.newList vs)
  | .tuple es, he => by
    simp only [Expr.subterms, fits_cons] at he
    rw [Machine.eval, Machine.eval]
    exact bind (charge 1) fun _ => bind (h.evalItems env es he.2) fun vs => plain (.newTuple vs)
  | .set es, he => by
    simp only [Expr.subterms, fits_cons] at he
    rw [Machine.eval, Machine.eval]
    exact bind (charge 1) fun _ => bind (h.evalItems env es he.2) fun vs => plain (.makeSet vs)
  | .dict es, he => by
    simp only [Expr.subterms, fits_cons] at he
    rw [Machine.eval, Machine.eval]
    exact bind (charge 1) fun _ => bind (h.evalEntries env [] es he.2) fun entries =>
      plain (.newDict entries)
  | .comp _ e v cs, he => by
    simp only [Expr.subterms, fits_cons, fits_append] at he
    rw [Machine.eval, Machine.eval]
    refine bind (charge 1) fun _ =>
      newScope (Stage.opens_inner g) [] fun scope => ?_
    have hleaf := bind (h.eval (some scope) e (Fits.inner he.2.1)) fun key =>
      bind (h.evalOption (some scope) v (Fits.inner he.2.2.1)) fun value =>
        (ret (key, value) : Attains hidden swaps (some scope) g.inner _ _)
    exact bind (h.evalClauses (some scope) hleaf cs (Fits.inner he.2.2.2)) fun produced =>
      plain (.comprehended _ produced)
  | .ifExp t a b, he => by
    simp only [Expr.subterms, fits_cons, fits_append] at he
    rw [Machine.eval, Machine.eval]
    refine bind (charge 1) fun _ => bind (h.eval env t he.2.1) fun v =>
      bind (plain (.truthy v)) fun holds => ?_
    split
    · exact h.eval env a he.2.2.1
    · exact h.eval env b he.2.2.2
  | .lambda ps b, he => by
    have hcode : Code.Akin hidden swaps g (.expr b) (.expr b) := akin_lambda he
    simp only [Expr.subterms, fits_cons, fits_append] at he
    rw [Machine.eval, Machine.eval]
    exact bind (charge 1) fun _ => bind (h.evalParams env ps he.2.1) fun ps =>
      newClosure fun W hat => ⟨rfl, rfl, rfl, g, hat, hcode⟩

theorem Calls.evalOption (h : Calls hidden swaps call call') (env : Env) {g : Stage} :
    (o : Option Expr) → Fits hidden g (Expr.subtermsOption o) →
    Attains hidden swaps env g (evalOption call env o) (evalOption call' env o)
  | none, _ => by
    rw [Machine.evalOption, Machine.evalOption]
    exact ret _
  | some e, he => by
    rw [Machine.evalOption, Machine.evalOption]
    exact bind (h.eval env e he) fun v => ret _

theorem Calls.evalItems (h : Calls hidden swaps call call') (env : Env) {g : Stage} :
    (es : List Expr) → Fits hidden g (Expr.subtermsList es) →
    Attains hidden swaps env g (evalItems call env es) (evalItems call' env es)
  | [], _ => by
    rw [Machine.evalItems, Machine.evalItems]
    exact ret _
  | e :: es, he => by
    simp only [Expr.subtermsList, fits_append] at he
    have hitem := h.eval env e he.1
    have hrest := h.evalItems env es he.2
    cases e with
    | starred inner =>
      simp only [Expr.subterms, fits_cons] at he
      have hinner := h.eval env inner he.1.2
      rw [Machine.evalItems, Machine.evalItems]
      exact bind hinner fun v => bind ((conduct hidden swaps env g).iterate v) fun vs =>
        bind hrest fun ws => ret _
    | _ =>
      rw [Machine.evalItems, Machine.evalItems]
      · exact bind hitem fun v => bind hrest fun vs => ret _
      all_goals simp

theorem Calls.evalLinks (h : Calls hidden swaps call call') (env : Env) {g : Stage} (left : Value) :
    (ls : List (CmpOp × Expr)) → Fits hidden g (Expr.subtermsLinks ls) →
    Attains hidden swaps env g (evalLinks call env left ls) (evalLinks call' env left ls)
  | [], _ => by
    rw [Machine.evalLinks, Machine.evalLinks]
    exact ret _
  | (_, e) :: ls, he => by
    simp only [Expr.subtermsLinks, fits_append] at he
    rw [Machine.evalLinks, Machine.evalLinks]
    refine bind (h.eval env e he.1) fun r => bind (plain (.compareValues _ left r)) fun b => ?_
    split
    · exact h.evalLinks env r ls he.2
    · exact ret _

theorem Calls.evalArgs (h : Calls hidden swaps call call') (env : Env) {g : Stage} :
    (as : List Arg) → Fits hidden g (Expr.subtermsArgs as) →
    Attains hidden swaps env g (evalArgs call env as) (evalArgs call' env as)
  | [], _ => by
    rw [Machine.evalArgs, Machine.evalArgs]
    exact ret _
  | .positional e :: as, he | .keyword _ e :: as, he => by
    simp only [Expr.subtermsArgs, fits_append] at he
    rw [Machine.evalArgs, Machine.evalArgs]
    exact bind (h.eval env e he.1) fun v => bind (h.evalArgs env as he.2) fun _ => ret _
  | .star e :: as, he => by
    simp only [Expr.subtermsArgs, fits_append] at he
    rw [Machine.evalArgs, Machine.evalArgs]
    exact bind (h.eval env e he.1) fun v => bind ((conduct hidden swaps env g).iterate v) fun vs =>
      bind (h.evalArgs env as he.2) fun _ => ret _
  | .doubleStar _ :: _, _ => by
    rw [Machine.evalArgs, Machine.evalArgs]
    exact throw _

theorem Calls.evalEntries (h : Calls hidden swaps call call') (env : Env) {g : Stage}
    (done : Entries) : (es : List (Expr × Expr)) → Fits hidden g (Expr.subtermsEntries es) →
    Attains hidden swaps env g (evalEntries call env done es) (evalEntries call' env done es)
  | [], _ => by
    rw [Machine.evalEntries, Machine.evalEntries]
    exact ret _
  | (k, v) :: es, he => by
    simp only [Expr.subtermsEntries, fits_append] at he
    rw [Machine.evalEntries, Machine.evalEntries]
    exact bind (h.eval env k he.1) fun key => bind (h.eval env v he.2.1) fun value =>
      bind (plain (.insertEntry done key value)) fun done => h.evalEntries env done es he.2.2

theorem Calls.evalParams (h : Calls hidden swaps call call') (env : Env) {g : Stage} :
    (ps : List Param) → Fits hidden g (Expr.subtermsParams ps) →
    Attains hidden swaps env g (evalParams call env ps) (evalParams call' env ps)
  | [], _ => by
    rw [Machine.evalParams, Machine.evalParams]
    exact ret _
  | ⟨_, _, d, _⟩ :: ps, he => by
    simp only [Expr.subtermsParams, fits_append] at he
    rw [Machine.evalParams, Machine.evalParams]
    exact bind (h.evalOption env d he.1) fun v => bind (h.evalParams env ps he.2) fun _ => ret _

theorem Calls.evalConditions (h : Calls hidden swaps call call') (env : Env) {g : Stage} :
    (es : List Expr) → Fits hidden g (Expr.subtermsList es) →
    Attains hidden swaps env g (evalConditions call env es) (evalConditions call' env es)
  | [], _ => by
    rw [Machine.evalConditions, Machine.evalConditions]
    exact ret _
  | e :: es, he => by
    simp only [Expr.subtermsList, fits_append] at he
    rw [Machine.evalConditions, Machine.evalConditions]
    refine bind (h.eval env e he.1) fun v => bind (plain (.truthy v)) fun b => ?_
    split
    · exact h.evalConditions env es he.2
    · exact ret _

theorem Calls.evalClauses (h : Calls hidden swaps call call') (env : Env) {g : Stage}
    {leaf leaf' : Exec (Value × Option Value)} (hleaf : Attains hidden swaps env g leaf leaf') :
    (cs : List Clause) → Fits hidden g (Expr.subtermsClauses cs) →
    Attains hidden swaps env g (evalClauses call env leaf cs) (evalClauses call' env leaf' cs)
  | [], _ => by
    rw [Machine.evalClauses, Machine.evalClauses]
    exact bind hleaf fun p => ret _
  | ⟨t, i, ifs⟩ :: cs, he => by
    simp only [Expr.subtermsClauses, fits_append] at he
    have hrest := h.evalClauses env hleaf cs he.2.2.2
    rw [Machine.evalClauses, Machine.evalClauses]
    refine bind (h.eval env i he.1) fun v => bind ((conduct hidden swaps env g).iterate v) fun items =>
      bind ((conduct hidden swaps env g).mapM (fun item => ?_) items) fun produced => ret _
    refine bind (h.assign env item t he.2.1) fun _ =>
      bind (h.evalConditions env ifs he.2.2.1) fun b => ?_
    split
    · exact hrest
    · exact ret _

theorem Calls.assign (h : Calls hidden swaps call call') (env : Env) {g : Stage} (value : Value) :
    (t : Expr) → Fits hidden g t.subterms →
    Attains hidden swaps env g (assign call env t value) (assign call' env t value)
  | .name n, ht => by
    rw [Expr.subterms, fits_cons] at ht
    rw [Machine.assign, Machine.assign]
    exact bindName (takes_of_suits ht.1 (List.mem_singleton_self n)) value
  | .tuple ts, ht | .list ts, ht => by
    simp only [Expr.subterms, fits_cons] at ht
    rw [Machine.assign, Machine.assign]
    exact bind ((conduct hidden swaps env g).unpack ts value) fun vs => h.assignAll env ts vs ht.2
  | .subscript a i, ht => by
    simp only [Expr.subterms, fits_cons, fits_append] at ht
    have hcontainer := h.eval env a ht.2.1
    have hindex := h.eval env i ht.2.2
    cases i with
    | slice _ _ _ =>
      rw [Machine.assign, Machine.assign]
      exact bind hcontainer fun _ => throw _
    | _ =>
      rw [Machine.assign, Machine.assign]
      · exact bind hcontainer fun c => bind hindex fun i => plain (.setItem c i value)
      all_goals simp
  | .int _, _ | .float _, _ | .str _, _ | .bool _, _ | .none, _ | .bin _ _ _, _ | .unary _ _, _
  | .logic _ _ _, _ | .compare _ _, _ | .call _ _, _ | .attribute _ _, _ | .slice _ _ _, _
  | .set _, _ | .dict _, _ | .comp _ _ _ _, _ | .ifExp _ _ _, _ | .lambda _ _, _ | .starred _, _
  | .verbatim _, _ => by
    rw [Machine.assign, Machine.assign]
    · exact throw _
    all_goals simp

theorem Calls.assignAll (h : Calls hidden swaps call call') (env : Env) {g : Stage} :
    (ts : List Expr) → (values : List Value) → Fits hidden g (Expr.subtermsList ts) →
    Attains hidden swaps env g (assignAll call env ts values) (assignAll call' env ts values)
  | t :: ts, value :: values, hts => by
    simp only [Expr.subtermsList, fits_append] at hts
    rw [Machine.assignAll, Machine.assignAll]
    exact bind (h.assign env value t hts.1) fun _ => h.assignAll env ts values hts.2
  | _ :: _, [], _ | [], _, _ => by
    rw [Machine.assignAll, Machine.assignAll]
    · exact ret _
    all_goals simp

end

/-! ## Statements -/

/-- Defining a function whose body may be exchanged. -/
theorem define {name : String} (hname : g.Takes hidden name) {ps : List Param}
    (hparams : Attains hidden swaps env g (evalParams call env ps) (evalParams call' env ps))
    {body body' : Block} (hcode : Code.Akin hidden swaps g (.block body) (.block body'))
    {ds : List Expr} {returns : Option String} {isAsync : Bool} :
    Attains hidden swaps env g
      (Machine.exec call env (.define ⟨name, ps, body, ds, returns, isAsync⟩))
      (Machine.exec call' env (.define ⟨name, ps, body', ds, returns, isAsync⟩)) := by
  rw [Machine.exec, Machine.exec]
  have hmade := bind hparams fun ps =>
    bind (newClosure (c := ⟨name, ps, .block body, env⟩) (d := ⟨name, ps, .block body', env⟩)
      fun W hat => ⟨rfl, rfl, rfl, g, hat, hcode⟩) fun f =>
      bind (bindName hname f) fun _ => ret Flow.next
  refine bind (charge 1) fun _ => ?_
  split
  · exact bind (throw _) fun _ => hmade
  · exact hmade

/-- Assigning one value to several targets. -/
theorem Calls.assignEach (h : Calls hidden swaps call call') (env : Env) (value : Value) (ts : List Expr)
    (hts : Fits hidden g (Expr.subtermsList ts)) :
    Attains hidden swaps env g (ts.forM fun t => Machine.assign call env t value)
      (ts.forM fun t => Machine.assign call' env t value) := by
  induction ts with
  | nil => exact ret _
  | cons t ts ih =>
    simp only [Expr.subtermsList, fits_append] at hts
    exact bind (h.assign env value t hts.1) fun _ => ih hts.2

/-- The names of handlers that fit. -/
theorem takes_of_handlers {body orelse final : Block} {hs : List Handler}
    (h : g.suits hidden (.stmt (.tryBlock body hs orelse final)) = true) :
    ∀ k ∈ hs, ∀ n ∈ k.name, g.Takes hidden n := by
  intro k hk n hn
  exact takes_of_suits h (List.mem_filterMap.mpr ⟨k, hk, hn⟩)

/-- Declared names that fit. -/
theorem free_of_suits {names : List String} {x : Node} (h : g.suits hidden x = true)
    (hx : x = .stmt (.globals names) ∨ x = .stmt (.nonlocals names)) :
    ∀ n ∈ names, n ∉ g.reserved hidden := by
  intro n hn
  have hall : names.all (!(g.reserved hidden).contains ·) = true := by
    cases g with
    | apart => simp [Stage.reserved]
    | running | ended | pinned | shaded | clear => obtain rfl | rfl := hx <;> exact h
  simpa using List.all_eq_true.mp hall n hn

/-- A handler goes on in the same way in both runs once it is known whether it catches. -/
theorem handled (e : Exception) {x y other other' : Exec Flow} (hx : Attains hidden swaps env g x y)
    (hother : Attains hidden swaps env g other other') (name : Option String) (caught : Bool) :
    (∀ n ∈ name, g.Takes hidden n) → Attains hidden swaps env g
      (if caught then
        match name with
        | some name => Exec.newException e >>= fun v => Exec.bind env name v >>= fun _ => x
        | none => x
      else other)
      (if caught then
        match name with
        | some name => Exec.newException e >>= fun v => Exec.bind env name v >>= fun _ => y
        | none => y
      else other') := by
  intro hname
  cases caught with
  | false => exact hother
  | true =>
    cases name with
    | none => exact hx
    | some n =>
      exact bind (plain (.newException e)) fun v => bind (bindName (hname n rfl) v) fun _ => hx

mutual

theorem Calls.exec (h : Calls hidden swaps call call') (env : Env) {g : Stage} : (s : Stmt) →
    FitsIn hidden g s.nodes → Attains hidden swaps env g (exec call env s) (exec call' env s)
  | .define ⟨name, ps, body, ds, returns, isAsync⟩, hs => by
    have hcode : Code.Akin hidden swaps g (.block body) (.block body) := akin_define hs
    simp only [Stmt.nodes, fitsIn_cons, fitsIn_append, fitsIn_exprNodes] at hs
    have hname : g.Takes hidden name := takes_of_suits hs.1 List.mem_cons_self
    exact define hname (h.evalParams env ps hs.2.2.1) hcode
  | .ret v, hs => by
    simp only [Stmt.nodes, fitsIn_cons, fitsIn_exprNodes] at hs
    rw [Machine.exec, Machine.exec]
    exact bind (charge 1) fun _ => bind (h.evalOption env v hs.2) fun v => ret _
  | .assign ts v _, hs => by
    simp only [Stmt.nodes, fitsIn_cons, fitsIn_exprNodes, fits_append] at hs
    rw [Machine.exec, Machine.exec]
    exact bind (charge 1) fun _ => bind (h.eval env v hs.2.1) fun value =>
      bind (h.assignEach env value ts hs.2.2) fun _ => ret _
  | .augAssign t op v, hs => by
    simp only [Stmt.nodes, fitsIn_cons, fitsIn_exprNodes, fits_append] at hs
    rw [Machine.exec, Machine.exec]
    exact bind (charge 1) fun _ => bind (h.eval env v hs.2.2) fun operand =>
      bind (h.eval env t hs.2.1) fun current =>
        bind ((conduct hidden swaps env g).augmented op current operand) fun value =>
          bind (h.assign env value t hs.2.1) fun _ => ret _
  | .expr e, hs => by
    simp only [Stmt.nodes, fitsIn_cons, fitsIn_exprNodes] at hs
    rw [Machine.exec, Machine.exec]
    exact bind (charge 1) fun _ => bind (h.eval env e hs.2) fun _ => ret _
  | .cond t body orelse, hs => by
    simp only [Stmt.nodes, fitsIn_cons, fitsIn_append, fitsIn_exprNodes] at hs
    rw [Machine.exec, Machine.exec]
    refine bind (charge 1) fun _ => bind (h.eval env t hs.2.1) fun v =>
      bind (plain (.truthy v)) fun b => ?_
    split
    · exact h.execBlock env body hs.2.2.1
    · exact h.execBlock env orelse hs.2.2.2
  | .forLoop t i body orelse, hs => by
    simp only [Stmt.nodes, fitsIn_cons, fitsIn_append, fitsIn_exprNodes, fits_append] at hs
    have hturn := h.execBlock env body hs.2.2.1
    rw [Machine.exec, Machine.exec]
    refine bind (charge 1) fun _ => bind (h.eval env i hs.2.1.1) fun v =>
      bind ((conduct hidden swaps env g).iterate v) fun items =>
        bind (forItems (fun item => bind (h.assign env item t hs.2.1.2) fun _ => hturn) items)
          fun left => ?_
    split
    · exact ret _
    · exact h.execBlock env orelse hs.2.2.2
  | .whileLoop t body orelse, hs => by
    simp only [Stmt.nodes, fitsIn_cons, fitsIn_append, fitsIn_exprNodes] at hs
    have htest := bind (h.eval env t hs.2.1) fun v => plain (.truthy v)
    have hturn := h.execBlock env body hs.2.2.1
    have hend := h.execBlock env orelse hs.2.2.2
    rw [Machine.exec, Machine.exec]
    refine bind (charge 1) fun _ => ?_
    -- The fuel is read before the loop starts: both together are `repeating`.
    rw [← bind_assoc, ← bind_assoc]
    refine bind (repeats htest hturn) fun left => ?_
    split
    · exact ret _
    · exact hend
  | .tryBlock body hs orelse final, hfit => by
    simp only [Stmt.nodes, fitsIn_cons, fitsIn_append] at hfit
    have hnames := takes_of_handlers hfit.1
    have hlast := h.execBlock env final hfit.2.2.2.2
    rw [Machine.exec, Machine.exec]
    refine bind (charge 1) fun _ => guarding (h.execBlock env body hfit.2.1)
      (h.execBlock env orelse hfit.2.2.2.1) (fun e => h.execHandlers env e hs hnames hfit.2.2.1) ?_ ?_
    · intro z hz
      split at hz
      · cases hz
      · obtain rfl := Option.some.inj hz
        rename_i hne
        rw [if_neg hne]
        exact ⟨Simulation.paid_execBlock call env (by simpa using hne), _, rfl, hlast⟩
    · intro hnone
      split at hnone
      · rw [if_pos ‹_›]
      · cases hnone
  | .raise none _, _ => by
    rw [Machine.exec, Machine.exec]
    exact bind (charge 1) fun _ => reraise
  | .raise (some e) c, hs => by
    simp only [Stmt.nodes, fitsIn_cons, fitsIn_exprNodes, fits_append] at hs
    rw [Machine.exec, Machine.exec]
    exact bind (charge 1) fun _ => bind (h.eval env e hs.2.1) fun v =>
      bind (plain (.ofHeap fun _ _ _ => rfl)) fun _ => throw _
  | .assert t m, hs => by
    simp only [Stmt.nodes, fitsIn_cons, fitsIn_exprNodes, fits_append] at hs
    have hmessage := h.evalOption env m hs.2.2
    rw [Machine.exec, Machine.exec]
    refine bind (charge 1) fun _ => bind (h.eval env t hs.2.1) fun v =>
      bind (plain (.truthy v)) fun b => ?_
    split
    · exact ret _
    · refine bind hmessage fun message => ?_
      cases message with
      | none => exact throw _
      | some v =>
        exact bind (plain (.ofHeap fun _ _ hcs => Heap.display_withClosures hcs v)) fun _ => throw _
  | .globals ns, hs => by
    simp only [Stmt.nodes, fitsIn_cons] at hs
    rw [Machine.exec, Machine.exec]
    exact bind (charge 1) fun _ => bind (declareGlobals (free_of_suits hs.1 (.inl rfl))) fun _ => ret _
  | .nonlocals ns, hs => by
    simp only [Stmt.nodes, fitsIn_cons] at hs
    rw [Machine.exec, Machine.exec]
    exact bind (charge 1) fun _ =>
      bind (declareNonlocals (free_of_suits hs.1 (.inr rfl))) fun _ => ret _
  | .pass, _ | .break, _ | .continue, _ => by
    rw [Machine.exec, Machine.exec]
    exact bind (charge 1) fun _ => ret _
  | .importNames _, _ | .importFrom _ _, _ | .verbatim _ _ _, _ => by
    rw [Machine.exec, Machine.exec]
    exact bind (charge 1) fun _ => throw _

theorem Calls.execBlock (h : Calls hidden swaps call call') (env : Env) {g : Stage} :
    (block : List Stmt) → FitsIn hidden g (Stmt.nodesList block) →
    Attains hidden swaps env g (execBlock call env block) (execBlock call' env block)
  | [], _ => by
    rw [Machine.execBlock, Machine.execBlock]
    exact ret _
  | s :: rest, hs => by
    simp only [Stmt.nodesList, fitsIn_append] at hs
    have hnext := h.execBlock env rest hs.2
    rw [Machine.execBlock, Machine.execBlock]
    refine bind (h.exec env s hs.1) fun flow => ?_
    split
    · exact hnext
    · exact ret _

theorem Calls.execHandlers (h : Calls hidden swaps call call') (env : Env) {g : Stage}
    (e : Exception) : (handlers : List (HandlerOf Stmt)) →
    (∀ k ∈ handlers, ∀ n ∈ k.name, g.Takes hidden n) →
    FitsIn hidden g (Stmt.nodesHandlers handlers) →
    Attains hidden swaps env g (execHandlers call env e handlers) (execHandlers call' env e handlers)
  | [], _, _ => by
    rw [Machine.execHandlers, Machine.execHandlers]
    exact throw _
  | ⟨type, name, body⟩ :: rest, hnames, hs => by
    simp only [Stmt.nodesHandlers, fitsIn_append, fitsIn_exprNodes] at hs
    obtain ⟨hname, hnames⟩ := List.forall_mem_cons.mp hnames
    have hhandled := handling e (h.execBlock env body hs.2.1)
    have hnext := h.execHandlers env e rest hnames hs.2.2
    rw [Machine.execHandlers, Machine.execHandlers]
    refine bind (h.evalOption env type hs.1) fun handler => ?_
    have hcaught (caught : Bool) := handled e hhandled hnext name caught hname
    cases handler with
    | none => exact bind (ret true) hcaught
    | some handler =>
      exact bind (plain (.ofHeap fun _ _ _ => rfl)) fun r => bind (plain (.ofExcept r)) hcaught

end

/-! ## Calls -/

theorem callBy {onClosure onClosure' : Closure → List Value → Keywords → Exec Value}
    (h : ∀ c d g, c.name = d.name → c.params = d.params → c.env = d.env →
      Code.Akin hidden swaps g c.code d.code → ∀ args keywords,
        Attains hidden swaps c.env g (onClosure c args keywords) (onClosure' d args keywords))
    (nesting : Nat) : Calls hidden swaps (callBy onClosure nesting) (callBy onClosure' nesting) := by
  induction nesting with
  | zero => exact fun _ _ _ => exhaust
  | succ nesting ih =>
    intro callee args keywords
    have happly : (conduct hidden swaps none .apart).Applies
        (fun f xs => Machine.callBy onClosure nesting f xs [])
        (fun f xs => Machine.callBy onClosure' nesting f xs []) := fun f xs => ih f xs []
    cases callee with
    | function r =>
      exact Attains.onClosure (fun c d g hname hparams henv hcode =>
        h c d g hname hparams henv hcode args keywords) (ret _)
    | builtin b => exact happly.native b args keywords
    | method receiver name => exact happly.callMethod receiver name args keywords
    | exceptionType c =>
      cases args with
      | nil => exact bind (ret "") fun message => plain (.newException ⟨c, message⟩)
      | cons v _ =>
        -- The message may show functions, but by their names only.
        exact bind (plain (.ofHeap fun _ _ hcs => Heap.display_withClosures hcs v)) fun message =>
          plain (.newException ⟨c, message⟩)
    | _ => exact throw _

variable (hidden swaps) in
/-- The bodies of each pair part at the end of a call at the most. -/
def Exchanges : Prop :=
  ∀ call call', Calls hidden swaps call call' → ∀ b b', swaps b b' → ∀ i,
    Parts hidden swaps i (fun _ => True) (execBlock call (some i) b) (execBlock call' (some i) b')

theorem result (flow : Flow) :
    Attains hidden swaps env g (Flow.result flow) (Flow.result flow) := by
  cases flow <;> exact ret _

/-- What a call gives when the body of its function has ended. -/
theorem returned {x y : Exec Flow} {i : Nat} (h : Parts hidden swaps i (fun _ => True) x y) :
    Parts hidden swaps i (fun _ => True) (x >>= Flow.result) (y >>= Flow.result) := by
  refine h.bind (fun flow _ => ?_) fun flow _ => (result flow).parts
  cases flow <;> exact ⟨_, trivial, rfl, rfl⟩

/-- A call attains another one, if the bodies that it runs (`run`) attain the same bodies, and if those
that are exchanged do so in the scope of a call. -/
theorem Calls.enterBy (h : Calls hidden swaps call call') {run : Nat → Block → Exec Flow}
    (hrun : ∀ g scope body, FitsIn hidden g (Block.nodes body) →
      Attains hidden swaps (some scope) g (run scope body)
        (Machine.execBlock call' (some scope) body))
    (hswaps : ∀ b b', swaps b b' → ∀ env vars, Attains hidden swaps env .apart
      (Exec.newScope { vars, parent := env } >>= fun scope =>
        deeper (run scope b >>= Flow.result))
      (Exec.newScope { vars, parent := env } >>= fun scope =>
        deeper (Machine.execBlock call' (some scope) b' >>= Flow.result)))
    {c d : Closure} {g : Stage} (hname : c.name = d.name) (hparams : c.params = d.params)
    (henv : c.env = d.env) (hcode : Code.Akin hidden swaps g c.code d.code) (args : List Value)
    (keywords : Keywords) :
    Attains hidden swaps c.env g (Machine.enterBy run call c args keywords)
      (Machine.enter call' d args keywords) := by
  obtain ⟨name, params, code, env⟩ := c
  obtain ⟨_, _, code', _⟩ := d
  cases hname
  cases hparams
  cases henv
  -- The same code in a scope of its own, where it may run as it may outside.
  have hsame (g' : Stage) (hopens : g'.Opens g) (c : Code) (hc : g' ≠ .apart → c.Avoids hidden)
      (hrunning : g' ≠ .running) : Attains hidden swaps env g
        (Machine.enterBy run call ⟨name, params, c, env⟩ args keywords)
        (Machine.enter call' ⟨name, params, c, env⟩ args keywords) := by
    rw [enter_eq_enterBy]
    unfold Machine.enterBy
    refine limiting (bind (plain (.bindArguments _ args keywords)) fun vars =>
      newScope hopens vars fun scope => deepening ?_)
    cases c with
    | block body =>
      refine bind (hrun g' scope body ?_) result
      cases g' with
      | apart => exact fitsIn_apart _
      | running => exact absurd rfl hrunning
      | shaded => exact hc nofun
      | ended | pinned | clear => exact absurd hopens id
    | expr e =>
      refine h.eval (some scope) e ?_
      cases g' with
      | apart => exact fun _ _ => rfl
      | running => exact absurd rfl hrunning
      | shaded => exact hc nofun
      | ended | pinned | clear => exact absurd hopens id
  cases g with
  | apart =>
    obtain rfl | ⟨b, b', hb, rfl, rfl⟩ := hcode
    · exact hsame .apart rfl code (fun h => absurd rfl h) nofun
    · rw [enter_eq_enterBy]
      unfold Machine.enterBy
      exact limiting (bind (plain (.bindArguments _ args keywords)) fun vars =>
        hswaps b b' hb env vars)
  | running | ended | pinned | shaded | clear =>
    obtain ⟨rfl, havoids⟩ := hcode
    exact hsame .shaded trivial code (fun _ => havoids) nofun

theorem Calls.enter (h : Calls hidden swaps call call') (hswaps : Exchanges hidden swaps)
    {c d : Closure} {g : Stage} (hname : c.name = d.name) (hparams : c.params = d.params)
    (henv : c.env = d.env) (hcode : Code.Akin hidden swaps g c.code d.code) (args : List Value)
    (keywords : Keywords) :
    Attains hidden swaps c.env g (enter call c args keywords) (enter call' d args keywords) := by
  rw [enter_eq_enterBy call]
  refine h.enterBy (fun g scope body hbody => h.execBlock (some scope) body hbody)
    (fun b b' hb env vars => ?_) hname hparams henv hcode args keywords
  exact Parts.newScope (show Stage.running.Within .apart from rfl) ⟨b, b', hb⟩ vars fun scope =>
    (returned (hswaps call call' h b b' hb scope)).deepening

/-! ## Changes inside a body -/

section Inside

variable {i : Nat} {t : Expr} {body body' orelse orelse' : Block}

/-- A block whose second run parts from the first at the end of the call at the most. -/
abbrev PartsIn (hidden : List String) (swaps : Block → Block → Prop) (call call' : Call) (i : Nat)
    (b b' : Block) : Prop :=
  Parts hidden swaps i Parts.Returns (Machine.execBlock call (some i) b)
    (Machine.execBlock call' (some i) b')

theorem Calls.parts_cond (h : Calls hidden swaps call call') (ht : Fits hidden .running t.subterms)
    (hbody : PartsIn hidden swaps call call' i body body')
    (horelse : PartsIn hidden swaps call call' i orelse orelse') :
    Parts hidden swaps i Parts.Returns (Machine.exec call (some i) (.cond t body orelse))
      (Machine.exec call' (some i) (.cond t body' orelse')) := by
  rw [Machine.exec, Machine.exec]
  refine .after (charge 1) fun _ => .after (h.eval (some i) t ht) fun v =>
    .after (plain (.truthy v)) fun holds => ?_
  split
  · exact hbody
  · exact horelse

theorem Calls.parts_forLoop (h : Calls hidden swaps call call') {iter : Expr}
    (ht : Fits hidden .running t.subterms) (hiter : Fits hidden .running iter.subterms)
    (hbody : PartsIn hidden swaps call call' i body body')
    (horelse : PartsIn hidden swaps call call' i orelse orelse') :
    Parts hidden swaps i Parts.Returns (Machine.exec call (some i) (.forLoop t iter body orelse))
      (Machine.exec call' (some i) (.forLoop t iter body' orelse')) := by
  rw [Machine.exec, Machine.exec]
  refine .after (charge 1) fun _ => .after (h.eval (some i) iter hiter) fun v =>
    .after ((conduct hidden swaps (some i) .running).iterate v) fun items => ?_
  exact (Parts.forItems (fun item => .after (h.assign (some i) item t ht) fun _ => hbody) items).loop
    horelse

theorem Calls.parts_whileLoop (h : Calls hidden swaps call call')
    (ht : Fits hidden .running t.subterms) (hbody : PartsIn hidden swaps call call' i body body')
    (horelse : PartsIn hidden swaps call call' i orelse orelse') :
    Parts hidden swaps i Parts.Returns (Machine.exec call (some i) (.whileLoop t body orelse))
      (Machine.exec call' (some i) (.whileLoop t body' orelse')) := by
  have htest := bind (h.eval (some i) t ht) fun v => plain (.truthy v)
  rw [Machine.exec, Machine.exec]
  refine .after (charge 1) fun _ => ?_
  rw [← bind_assoc, ← bind_assoc]
  exact (Parts.repeats htest hbody).loop horelse

/-- A change at one place of a body parts where the changed blocks part. -/
theorem Calls.inside (h : Calls hidden swaps call call') {R : Block → Block → Prop}
    (hR : ∀ b b', R b b' → FitsIn hidden .running (Block.nodes b) →
      PartsIn hidden swaps call call' i b b')
    {b b' : Block} (hb : Block.Inside R b b') (hfits : FitsIn hidden .running (Block.nodes b)) :
    PartsIn hidden swaps call call' i b b' := by
  have hblock {s s' : Stmt} {rest rest' : Block}
      (hs : Parts hidden swaps i Parts.Returns (Machine.exec call (some i) s)
        (Machine.exec call' (some i) s'))
      (hrest : PartsIn hidden swaps call call' i rest rest') :
      PartsIn hidden swaps call call' i (s :: rest) (s' :: rest') := by
    rw [PartsIn, Machine.execBlock, Machine.execBlock]
    exact hs.block hrest
  have hsame (b : Block) (hfits : FitsIn hidden .running (Stmt.nodesList b)) :
      PartsIn hidden swaps call call' i b b := (h.execBlock (some i) b hfits).parts
  induction hb with
  | here hb => exact hR _ _ hb hfits
  | later s _ ih =>
    simp only [Block.nodes, Stmt.nodesList, fitsIn_append] at hfits
    exact hblock (h.exec (some i) s hfits.1).parts (ih hfits.2)
  | condBody t orelse rest _ ih =>
    simp only [Block.nodes, Stmt.nodesList, Stmt.nodes, fitsIn_cons, fitsIn_append, fitsIn_exprNodes]
      at hfits
    obtain ⟨⟨-, ht, hbody, horelse⟩, hrest⟩ := hfits
    exact hblock (h.parts_cond ht (ih hbody) (hsame orelse horelse)) (hsame rest hrest)
  | condElse t body rest _ ih =>
    simp only [Block.nodes, Stmt.nodesList, Stmt.nodes, fitsIn_cons, fitsIn_append, fitsIn_exprNodes]
      at hfits
    obtain ⟨⟨-, ht, hbody, horelse⟩, hrest⟩ := hfits
    exact hblock (h.parts_cond ht (hsame body hbody) (ih horelse)) (hsame rest hrest)
  | forBody t iter orelse rest _ ih =>
    simp only [Block.nodes, Stmt.nodesList, Stmt.nodes, fitsIn_cons, fitsIn_append, fitsIn_exprNodes,
      fits_append] at hfits
    obtain ⟨⟨-, ⟨hiter, ht⟩, hbody, horelse⟩, hrest⟩ := hfits
    exact hblock (h.parts_forLoop ht hiter (ih hbody) (hsame orelse horelse)) (hsame rest hrest)
  | forElse t iter body rest _ ih =>
    simp only [Block.nodes, Stmt.nodesList, Stmt.nodes, fitsIn_cons, fitsIn_append, fitsIn_exprNodes,
      fits_append] at hfits
    obtain ⟨⟨-, ⟨hiter, ht⟩, hbody, horelse⟩, hrest⟩ := hfits
    exact hblock (h.parts_forLoop ht hiter (hsame body hbody) (ih horelse)) (hsame rest hrest)
  | whileBody t orelse rest _ ih =>
    simp only [Block.nodes, Stmt.nodesList, Stmt.nodes, fitsIn_cons, fitsIn_append, fitsIn_exprNodes]
      at hfits
    obtain ⟨⟨-, ht, hbody, horelse⟩, hrest⟩ := hfits
    exact hblock (h.parts_whileLoop ht (ih hbody) (hsame orelse horelse)) (hsame rest hrest)
  | whileElse t body rest _ ih =>
    simp only [Block.nodes, Stmt.nodesList, Stmt.nodes, fitsIn_cons, fitsIn_append, fitsIn_exprNodes]
      at hfits
    obtain ⟨⟨-, ht, hbody, horelse⟩, hrest⟩ := hfits
    exact hblock (h.parts_whileLoop ht (hsame body hbody) (ih horelse)) (hsame rest hrest)

end Inside

/-- With bodies that may be exchanged, calls in the second run attain those in the first. -/
theorem callAt (hswaps : Exchanges hidden swaps) (levels : Nat) :
    Calls hidden swaps (callAt levels) (callAt levels) := by
  induction levels with
  | zero =>
    intro callee args keywords
    exact callBy (fun _ _ _ _ _ _ _ _ _ => tooDeep) _ callee args keywords
  | succ levels ih =>
    intro callee args keywords
    refine callBy ?_ _ callee args keywords
    intro c d g hname hparams henv hcode args keywords
    exact ih.enter hswaps hname hparams henv hcode args keywords

end Attains

end Concord.Machine
