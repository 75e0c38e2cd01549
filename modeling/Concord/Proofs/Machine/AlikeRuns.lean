import Concord.Proofs.Machine.Binding
import Concord.Proofs.Machine.Execution

/-!
# Programs that are alike run alike

Expressions, statements and calls of two programs that are alike are twins. The proof goes through the
first program, with one case for each way in which a part of the second can be alike. The two programs
call values alike (`Calls`) with so many levels left if they do with one level less.
-/

namespace Concord.Machine.Twins

variable {locals : List String} {W : World} {ρ : Ribs} {call call' : Call} {env : Env}

/-! ## Expressions -/

variable (locals) in
/-- Arguments passed by name, none of them by the name of a local variable. -/
def Foreign (keywords : Keywords) : Prop := ∀ k ∈ keywords, k.1 ∉ locals

variable (locals) in
/-- The two programs call values alike. -/
def Calls (call call' : Call) : Prop :=
  ∀ (W : World) v args keywords, Foreign locals keywords →
    Twins locals W Eq (call v args keywords) (call' v args keywords)

/-- Unpacking looks at no more of the targets than their number and whether one is starred. -/
theorem unpack_eq {es es' : List Expr} (h : Expr.AlikeList locals ρ es es') (v : Value) :
    unpack es v = unpack es' v := by
  unfold unpack
  rw [h.length_eq]
  dsimp only
  congr 2
  exact h.starred_eq

theorem unpack {es es' : List Expr} (h : Expr.AlikeList locals ρ es es') (v : Value) :
    Twins locals W Eq (unpack es v) (unpack es' v) := by
  rw [unpack_eq h]
  exact (conduct locals W).unpack es' v

mutual

theorem Calls.eval (h : Calls locals call call') {W : World} {ρ : Ribs} {env : Env}
    (hsees : W.Sees env ρ) : (e : Expr) → {e' : Expr} → e.Alike locals ρ e' →
    Twins locals W Eq (eval call env e) (eval call' env e')
  | .name _, _, .name hnm => by
    rw [Machine.eval, Machine.eval]
    exact seq (charge 1) fun _ => lookup hsees hnm
  | .int _, _, .int _ _ | .float _, _, .float _ _ | .bool _, _, .bool _ _ | .none, _, .none _ => by
    rw [Machine.eval, Machine.eval]
    exact seq (charge 1) fun _ => ret rfl
  | .str _, _, .str _ _ => by
    rw [Machine.eval, Machine.eval]
    refine seq (charge 1) fun _ => plain ?_
    grind
  | .bin _ l r, _, .bin hl hr => by
    rw [Machine.eval, Machine.eval]
    exact seq (charge 1) fun _ => seq (h.eval hsees l hl) fun v => seq (h.eval hsees r hr) fun w =>
      plain (.binary _ v w)
  | .unary _ e, _, .unary he => by
    rw [Machine.eval, Machine.eval]
    exact seq (charge 1) fun _ => seq (h.eval hsees e he) fun v => plain (.unary _ v)
  | .logic _ l r, _, .logic hl hr => by
    rw [Machine.eval, Machine.eval]
    refine seq (charge 1) fun _ => seq (h.eval hsees l hl) fun v => seq (plain (.truthy v)) fun b => ?_
    split
    · exact ret rfl
    · exact h.eval hsees r hr
  | .compare l links, _, .compare hl hlinks => by
    rw [Machine.eval, Machine.eval]
    exact seq (charge 1) fun _ => seq (h.eval hsees l hl) fun v => h.evalLinks hsees v links hlinks
  | .call f args, _, .call hf hargs => by
    rw [Machine.eval, Machine.eval]
    refine seq (charge 1) fun _ => seq (h.eval hsees f hf) fun callee =>
      (h.evalArgs hsees args hargs).bind ?_
    rintro ⟨positional, keywords⟩ _ ⟨rfl, hkeywords⟩
    exact h W callee positional keywords hkeywords
  | .attribute e _, _, .attribute he => by
    rw [Machine.eval, Machine.eval]
    exact seq (charge 1) fun _ => seq (h.eval hsees e he) fun v => ret rfl
  | .subscript e i, _, .subscript he hi => by
    have hvalue := h.eval hsees e he
    have hindex := h.eval hsees i hi
    cases i with
    | slice l u s =>
      cases hi with
      | slice hl hu hs =>
        have hl := h.evalOption hsees l hl
        have hu := h.evalOption hsees u hu
        have hs := h.evalOption hsees s hs
        rw [Machine.eval, Machine.eval]
        exact seq (charge 1) fun _ => seq hvalue fun c =>
          seq hl fun l => seq (plain (.lift _)) fun l =>
          seq hu fun u => seq (plain (.lift _)) fun u =>
          seq hs fun s => seq (plain (.lift _)) fun s => plain (.getSlice c l u s)
    | _ =>
      -- The equation of `eval` for this case asks for indices that are no slices.
      cases hi
      rw [Simulation.eval_subscript call, Simulation.eval_subscript call']
      · exact seq (charge 1) fun _ => seq hvalue fun c => seq hindex fun i => plain (.getItem c i)
      all_goals simp
  | .slice _ _ _, _, .slice _ _ _ | .starred _, _, .starred _ | .verbatim _, _, .verbatim _ _ => by
    rw [Machine.eval, Machine.eval]
    exact seq (charge 1) fun _ => throw (.refl _)
  | .list es, _, .list hes => by
    rw [Machine.eval, Machine.eval]
    exact seq (charge 1) fun _ => seq (h.evalItems hsees es hes) fun vs => plain (.newList vs)
  | .tuple es, _, .tuple hes => by
    rw [Machine.eval, Machine.eval]
    exact seq (charge 1) fun _ => seq (h.evalItems hsees es hes) fun vs => plain (.newTuple vs)
  | .set es, _, .set hes => by
    rw [Machine.eval, Machine.eval]
    exact seq (charge 1) fun _ => seq (h.evalItems hsees es hes) fun vs => plain (.makeSet vs)
  | .dict es, _, .dict hes => by
    rw [Machine.eval, Machine.eval]
    exact seq (charge 1) fun _ => seq (h.evalEntries hsees [] es hes) fun entries => plain (.newDict entries)
  | .comp _ e v cs, _, .comp hr hcs he hv => by
    rw [Machine.eval, Machine.eval]
    -- All parts are evaluated in the new scope, the first iterable included.
    refine seq (charge 1) fun _ => newScope (.fresh hr hsees (.nil _)) fun W' i _ hsees => ?_
    have hleaf := seq (h.eval hsees e he) fun key => seq (h.evalOption hsees v hv) fun value =>
      ret (rfl : (key, value) = (key, value))
    exact seq (h.evalClauses hsees hleaf cs hcs) fun produced => plain (.comprehended _ produced)
  | .ifExp t a b, _, .ifExp ht ha hb => by
    rw [Machine.eval, Machine.eval]
    refine seq (charge 1) fun _ => seq (h.eval hsees t ht) fun v => seq (plain (.truthy v)) fun holds => ?_
    split
    · exact h.eval hsees a ha
    · exact h.eval hsees b hb
  | .lambda ps b, _, .lambda hps hr hpaired hb => by
    rw [Machine.eval, Machine.eval]
    exact seq (charge 1) fun _ => (h.evalParams hsees ps hps hpaired).bind fun _ _ hparams =>
      newClosure ⟨rfl, rfl, _, _, hsees, hr, hparams, .expr hb⟩
termination_by structural x => x

theorem Calls.evalOption (h : Calls locals call call') {W : World} {ρ : Ribs} {env : Env}
    (hsees : W.Sees env ρ) : (o : Option Expr) → {o' : Option Expr} → Expr.AlikeOption locals ρ o o' →
    Twins locals W Eq (evalOption call env o) (evalOption call' env o')
  | none, _, .none _ => by
    rw [Machine.evalOption, Machine.evalOption]
    exact ret rfl
  | some e, _, .some he => by
    rw [Machine.evalOption, Machine.evalOption]
    exact seq (h.eval hsees e he) fun v => ret rfl
termination_by structural x => x

theorem Calls.evalItems (h : Calls locals call call') {W : World} {ρ : Ribs} {env : Env}
    (hsees : W.Sees env ρ) : (es : List Expr) → {es' : List Expr} → Expr.AlikeList locals ρ es es' →
    Twins locals W Eq (evalItems call env es) (evalItems call' env es')
  | [], _, .nil _ => by
    rw [Machine.evalItems, Machine.evalItems]
    exact ret rfl
  | e :: es, _, .cons he hs => by
    have hitem := h.eval hsees e he
    have hrest := h.evalItems hsees es hs
    cases e with
    | starred inner =>
      cases he with
      | starred he =>
        have hinner := h.eval hsees inner he
        rw [Machine.evalItems, Machine.evalItems]
        exact seq hinner fun v => seq ((conduct locals W).iterate v) fun vs => seq hrest fun ws =>
          ret rfl
    | _ =>
      cases he
      rw [Machine.evalItems, Machine.evalItems]
      · exact seq hitem fun v => seq hrest fun vs => ret rfl
      all_goals simp
termination_by structural x => x

theorem Calls.evalLinks (h : Calls locals call call') {W : World} {ρ : Ribs} {env : Env}
    (hsees : W.Sees env ρ) (left : Value) :
    (ls : List (CmpOp × Expr)) → {ls' : List (CmpOp × Expr)} → Expr.AlikeLinks locals ρ ls ls' →
    Twins locals W Eq (evalLinks call env left ls) (evalLinks call' env left ls')
  | [], _, .nil _ => by
    rw [Machine.evalLinks, Machine.evalLinks]
    exact ret rfl
  | (_, e) :: ls, _, .cons he hs => by
    rw [Machine.evalLinks, Machine.evalLinks]
    refine seq (h.eval hsees e he) fun r => seq (plain (.compareValues _ left r)) fun b => ?_
    split
    · exact h.evalLinks hsees r ls hs
    · exact ret rfl
termination_by structural x => x

theorem Calls.evalArgs (h : Calls locals call call') {W : World} {ρ : Ribs} {env : Env}
    (hsees : W.Sees env ρ) : (as : List Arg) → {as' : List Arg} → Expr.AlikeArgs locals ρ as as' →
    Twins locals W (fun p q => p = q ∧ Foreign locals p.2) (evalArgs call env as)
      (evalArgs call' env as')
  | [], _, .nil _ => by
    rw [Machine.evalArgs, Machine.evalArgs]
    exact ret ⟨rfl, nofun⟩
  | .positional e :: as, _, .positional he hs => by
    rw [Machine.evalArgs, Machine.evalArgs]
    refine seq (h.eval hsees e he) fun v => (h.evalArgs hsees as hs).bind ?_
    rintro p _ ⟨rfl, hkeywords⟩
    exact ret ⟨rfl, hkeywords⟩
  | .keyword _ e :: as, _, .keyword hn he hs => by
    rw [Machine.evalArgs, Machine.evalArgs]
    refine seq (h.eval hsees e he) fun v => (h.evalArgs hsees as hs).bind ?_
    rintro p _ ⟨rfl, hkeywords⟩
    exact ret ⟨rfl, List.forall_mem_cons.mpr ⟨hn, hkeywords⟩⟩
  | .star e :: as, _, .star he hs => by
    rw [Machine.evalArgs, Machine.evalArgs]
    refine seq (h.eval hsees e he) fun v => seq ((conduct locals W).iterate v) fun vs =>
      (h.evalArgs hsees as hs).bind ?_
    rintro p _ ⟨rfl, hkeywords⟩
    exact ret ⟨rfl, hkeywords⟩
  | .doubleStar _ :: _, _, .doubleStar _ _ => by
    rw [Machine.evalArgs, Machine.evalArgs]
    exact throw (.refl _)
termination_by structural x => x

theorem Calls.evalEntries (h : Calls locals call call') {W : World} {ρ : Ribs} {env : Env}
    (hsees : W.Sees env ρ) (done : Entries) :
    (es : List (Expr × Expr)) → {es' : List (Expr × Expr)} → Expr.AlikeEntries locals ρ es es' →
    Twins locals W Eq (evalEntries call env done es) (evalEntries call' env done es')
  | [], _, .nil _ => by
    rw [Machine.evalEntries, Machine.evalEntries]
    exact ret rfl
  | (k, v) :: es, _, .cons hk hv hs => by
    rw [Machine.evalEntries, Machine.evalEntries]
    exact seq (h.eval hsees k hk) fun key => seq (h.eval hsees v hv) fun value =>
      seq (plain (.insertEntry done key value)) fun done => h.evalEntries hsees done es hs
termination_by structural x => x

theorem Calls.evalParams (h : Calls locals call call') {W : World} {ρ : Ribs} {env : Env}
    (hsees : W.Sees env ρ) {r : Rib} : (ps : List Param) →
    {ps' : List Param} → Expr.AlikeParams locals ρ ps ps' →
    List.Forall₂ (Param.Paired r) ps ps' →
    Twins locals W (List.Forall₂ (ParamTwins r)) (evalParams call env ps) (evalParams call' env ps')
  | [], _, .nil _, _ => by
    rw [Machine.evalParams, Machine.evalParams]
    exact ret .nil
  | ⟨_, _, d, _⟩ :: ps, _, .cons hd hs, .cons hp hps => by
    rw [Machine.evalParams, Machine.evalParams]
    exact seq (h.evalOption hsees d hd) fun v => (h.evalParams hsees ps hs hps).bind fun xs ys hxys =>
      ret (.cons ⟨hp, rfl⟩ hxys)
termination_by structural x => x

theorem Calls.evalConditions (h : Calls locals call call') {W : World} {ρ : Ribs} {env : Env}
    (hsees : W.Sees env ρ) : (es : List Expr) → {es' : List Expr} → Expr.AlikeList locals ρ es es' →
    Twins locals W Eq (evalConditions call env es) (evalConditions call' env es')
  | [], _, .nil _ => by
    rw [Machine.evalConditions, Machine.evalConditions]
    exact ret rfl
  | e :: es, _, .cons he hs => by
    rw [Machine.evalConditions, Machine.evalConditions]
    refine seq (h.eval hsees e he) fun v => seq (plain (.truthy v)) fun b => ?_
    split
    · exact h.evalConditions hsees es hs
    · exact ret rfl
termination_by structural x => x

theorem Calls.evalClauses (h : Calls locals call call') {W : World} {ρ : Ribs} {env : Env}
    (hsees : W.Sees env ρ) {leaf leaf' : Exec (Value × Option Value)}
    (hleaf : Twins locals W Eq leaf leaf') : (cs : List Clause) → {cs' : List Clause} →
    Expr.AlikeClauses locals ρ cs cs' →
    Twins locals W Eq (evalClauses call env leaf cs) (evalClauses call' env leaf' cs')
  | [], _, .nil _ => by
    rw [Machine.evalClauses, Machine.evalClauses]
    exact seq hleaf fun p => ret rfl
  | ⟨t, i, ifs⟩ :: cs, _, .cons hi ht hifs hs => by
    rw [Machine.evalClauses, Machine.evalClauses]
    have hrest := h.evalClauses hsees hleaf cs hs
    refine seq (h.eval hsees i hi) fun v => seq ((conduct locals W).iterate v) fun items =>
      seq ((conduct locals W).mapM (fun item => ?_) items) fun produced => ret rfl
    refine seq (h.assign hsees item t ht) fun _ => seq (h.evalConditions hsees ifs hifs) fun b => ?_
    split
    · exact hrest
    · exact ret rfl
termination_by structural x => x

theorem Calls.assign (h : Calls locals call call') {W : World} {ρ : Ribs} {env : Env}
    (hsees : W.Sees env ρ) (value : Value) : (t : Expr) → {t' : Expr} → t.Alike locals ρ t' →
    Twins locals W Eq (assign call env t value) (assign call' env t' value)
  | .name _, _, .name hnm => by
    rw [Machine.assign, Machine.assign]
    exact bindName hsees hnm value
  | .tuple ts, _, .tuple hts | .list ts, _, .list hts => by
    rw [Machine.assign, Machine.assign]
    exact seq (unpack hts value) fun vs => h.assignAll hsees ts vs hts
  | .subscript e i, _, .subscript he hi => by
    have hcontainer := h.eval hsees e he
    have hindex := h.eval hsees i hi
    cases hi with
    | slice _ _ _ =>
      rw [Machine.assign, Machine.assign]
      exact seq hcontainer fun _ => throw (.refl _)
    | _ =>
      rw [Machine.assign, Machine.assign]
      · exact seq hcontainer fun c => seq hindex fun i => plain (.setItem c i value)
      all_goals simp
  | .int _, _, .int _ _ | .float _, _, .float _ _ | .str _, _, .str _ _ | .bool _, _, .bool _ _
  | .none, _, .none _ | .bin _ _ _, _, .bin _ _ | .unary _ _, _, .unary _
  | .logic _ _ _, _, .logic _ _ | .compare _ _, _, .compare _ _ | .call _ _, _, .call _ _
  | .attribute _ _, _, .attribute _ | .slice _ _ _, _, .slice _ _ _ | .set _, _, .set _
  | .dict _, _, .dict _ | .comp _ _ _ _, _, .comp _ _ _ _ | .ifExp _ _ _, _, .ifExp _ _ _
  | .lambda _ _, _, .lambda _ _ _ _ | .starred _, _, .starred _ | .verbatim _, _, .verbatim _ _ => by
    rw [Machine.assign, Machine.assign]
    · exact throw (.refl _)
    all_goals simp
termination_by structural x => x

theorem Calls.assignAll (h : Calls locals call call') {W : World} {ρ : Ribs} {env : Env}
    (hsees : W.Sees env ρ) : (ts : List Expr) → (values : List Value) → {ts' : List Expr} →
    Expr.AlikeList locals ρ ts ts' →
    Twins locals W Eq (assignAll call env ts values) (assignAll call' env ts' values)
  | t :: ts, value :: values, _, .cons ht hts => by
    rw [Machine.assignAll, Machine.assignAll]
    exact seq (h.assign hsees value t ht) fun _ => h.assignAll hsees ts values hts
  | _ :: _, [], _, .cons _ _ | [], _, _, .nil _ => by
    rw [Machine.assignAll, Machine.assignAll]
    · exact ret rfl
    all_goals simp
termination_by structural x => x

end

/-! ## Statements -/

/-- Assigning one value to targets that are alike. -/
theorem Calls.assignEach (h : Calls locals call call') (hsees : W.Sees env ρ) (value : Value)
    {ts ts' : List Expr} (hts : Expr.AlikeList locals ρ ts ts') :
    Twins locals W Eq (ts.forM fun t => Machine.assign call env t value)
      (ts'.forM fun t => Machine.assign call' env t value) := by
  induction ts generalizing ts' with
  | nil =>
    cases hts
    exact ret rfl
  | cons t ts ih =>
    cases hts with
    | cons ht hts => exact seq (h.assign hsees value t ht) fun _ => ih hts

mutual

theorem Calls.exec (h : Calls locals call call') {W : World} {ρ : Ribs} {env : Env}
    (hsees : W.Sees env ρ) : (s : Stmt) → {s' : Stmt} → s.Alike locals ρ s' →
    Twins locals W Eq (exec call env s) (exec call' env s')
  | .define ⟨name, ps, body, ds, _, isAsync⟩, .define ⟨_, _, body', _, _, _⟩,
      .define hname hds hps hr hpaired hbody => by
    rw [Machine.exec, Machine.exec]
    have hmade := (h.evalParams hsees ps hps hpaired).bind fun xs ys hparams =>
      seq (newClosure (c := ⟨name, xs, .block body, env⟩) (d := ⟨name, ys, .block body', env⟩)
        ⟨rfl, rfl, _, _, hsees, hr, hparams, .block hbody⟩) fun f =>
        seq (bindName hsees hname f) fun _ => ret (R := Eq) (rfl : Flow.next = Flow.next)
    refine seq (charge 1) fun _ => ?_
    rw [hds]
    split
    · exact seq (throw (.refl _)) fun _ => hmade
    · exact hmade
  | .ret v, _, .ret hv => by
    rw [Machine.exec, Machine.exec]
    exact seq (charge 1) fun _ => seq (h.evalOption hsees v hv) fun _ => ret rfl
  | .assign ts v _, _, .assign hts hv => by
    rw [Machine.exec, Machine.exec]
    exact seq (charge 1) fun _ => seq (h.eval hsees v hv) fun value =>
      seq (h.assignEach hsees value hts) fun _ => ret rfl
  | .augAssign t op v, _, .augAssign ht hv => by
    rw [Machine.exec, Machine.exec]
    exact seq (charge 1) fun _ => seq (h.eval hsees v hv) fun operand =>
      seq (h.eval hsees t ht) fun current =>
        seq ((conduct locals W).augmented op current operand) fun value =>
          seq (h.assign hsees value t ht) fun _ => ret rfl
  | .expr e, _, .expr he => by
    rw [Machine.exec, Machine.exec]
    exact seq (charge 1) fun _ => seq (h.eval hsees e he) fun _ => ret rfl
  | .cond t body orelse, _, .cond ht hbody horelse => by
    rw [Machine.exec, Machine.exec]
    refine seq (charge 1) fun _ => seq (h.eval hsees t ht) fun v => seq (plain (.truthy v)) fun b => ?_
    split
    · exact h.execBlock hsees body hbody
    · exact h.execBlock hsees orelse horelse
  | .forLoop t i body orelse, _, .forLoop ht hi hbody horelse => by
    have hturn := h.execBlock hsees body hbody
    rw [Machine.exec, Machine.exec]
    refine seq (charge 1) fun _ => seq (h.eval hsees i hi) fun v =>
      seq ((conduct locals W).iterate v) fun items =>
        seq (forItems (fun item => seq (h.assign hsees item t ht) fun _ => hturn) items) fun left => ?_
    split
    · exact ret rfl
    · exact h.execBlock hsees orelse horelse
  | .whileLoop t body orelse, _, .whileLoop ht hbody horelse => by
    have htest := seq (h.eval hsees t ht) fun v => plain (.truthy v)
    have hturn := h.execBlock hsees body hbody
    have hend := h.execBlock hsees orelse horelse
    rw [Machine.exec, Machine.exec]
    refine seq (charge 1) fun _ => ?_
    -- The fuel is read before the loop starts: both together are `repeating`.
    rw [← bind_assoc, ← bind_assoc]
    refine seq (repeats htest hturn) fun left => ?_
    split
    · exact ret rfl
    · exact hend
  | .tryBlock body hs orelse final, _, .tryBlock hbody hhs horelse hfinal => by
    have hlast := h.execBlock hsees final hfinal
    rw [Machine.exec, Machine.exec]
    refine seq (charge 1) fun _ => guarding (h.execBlock hsees body hbody)
      (h.execBlock hsees orelse horelse) (fun e e' he => h.execHandlers hsees he hs hhs) ?_
    rw [hfinal.isEmpty_eq]
    split
    · exact .none
    · exact .some hlast
  | .raise none _, _, .raise (.none _) => by
    rw [Machine.exec, Machine.exec]
    exact seq (charge 1) fun _ => reraise
  | .raise (some e) _, _, .raise (.some he) => by
    rw [Machine.exec, Machine.exec]
    exact seq (charge 1) fun _ => seq (h.eval hsees e he) fun v =>
      seq (plain (.ofHeap fun _ _ _ => rfl)) fun _ => throw (.refl _)
  | .assert t m, _, .assert ht hm => by
    have hmessage := h.evalOption hsees m hm
    rw [Machine.exec, Machine.exec]
    refine seq (charge 1) fun _ => seq (h.eval hsees t ht) fun v => seq (plain (.truthy v)) fun b => ?_
    split
    · exact ret rfl
    · refine seq hmessage fun message => ?_
      cases message with
      | none => exact throw (.refl _)
      | some v =>
        exact seq (plain (.ofHeap fun _ _ hcs => Heap.display_withClosures hcs v)) fun _ =>
          throw (.refl _)
  | .globals ns, _, .globals hns => by
    rw [Machine.exec, Machine.exec]
    exact seq (charge 1) fun _ => seq (declareGlobals hsees hns) fun _ => ret rfl
  | .nonlocals ns, _, .nonlocals hns => by
    rw [Machine.exec, Machine.exec]
    exact seq (charge 1) fun _ => seq (declareNonlocals hsees hns) fun _ => ret rfl
  | .pass, _, .pass _ | .break, _, .break _ | .continue, _, .continue _ => by
    rw [Machine.exec, Machine.exec]
    exact seq (charge 1) fun _ => ret rfl
  | .importNames _, _, .importNames _ _ _ | .importFrom _ _, _, .importFrom _ _ _ _ _
  | .verbatim _ _ _, _, .verbatim _ _ _ _ => by
    rw [Machine.exec, Machine.exec]
    exact seq (charge 1) fun _ => throw (.refl _)
termination_by structural x => x

theorem Calls.execBlock (h : Calls locals call call') {W : World} {ρ : Ribs} {env : Env}
    (hsees : W.Sees env ρ) : (block : List Stmt) → {block' : List Stmt} →
    Stmt.AlikeList locals ρ block block' →
    Twins locals W Eq (execBlock call env block) (execBlock call' env block')
  | [], _, .nil _ => by
    rw [Machine.execBlock, Machine.execBlock]
    exact ret rfl
  | s :: rest, _, .cons hs hrest => by
    have hnext := h.execBlock hsees rest hrest
    rw [Machine.execBlock, Machine.execBlock]
    refine seq (h.exec hsees s hs) fun flow => ?_
    split
    · exact hnext
    · exact ret rfl
termination_by structural x => x

theorem Calls.execHandlers (h : Calls locals call call') {W : World} {ρ : Ribs} {env : Env}
    (hsees : W.Sees env ρ) {e e' : Exception} (he : e.Like e') : (handlers : List (HandlerOf Stmt)) →
    {handlers' : List (HandlerOf Stmt)} → Stmt.AlikeHandlers locals ρ handlers handlers' →
    Twins locals W Eq (execHandlers call env e handlers) (execHandlers call' env e' handlers')
  | [], _, .nil _ => by
    rw [Machine.execHandlers, Machine.execHandlers]
    exact throw (.raise he)
  | ⟨type, _, body⟩ :: rest, _, .cons htype hbody hrest => by
    have hhandled := handling he (h.execBlock hsees body hbody)
    have hnext := h.execHandlers hsees he rest hrest
    rw [Machine.execHandlers, Machine.execHandlers]
    refine seq (h.evalOption hsees type htype) fun handler => ?_
    cases handler with
    | none => exact hhandled
    | some handler =>
      simp only [he.catches_eq]
      refine seq (plain (.ofHeap fun _ _ _ => rfl)) fun r => seq (plain (.ofExcept r)) fun caught => ?_
      split
      · exact hhandled
      · exact hnext
termination_by structural x => x

end

/-! ## Arguments -/

variable (locals) in
/-- Arguments on their way to parameters that are alike. -/
structure Passed (ρ : Ribs) (p q : Passing) : Prop where
  positional : p.positional = q.positional
  keywords : p.keywords = q.keywords
  keywordOnly : p.keywordOnly = q.keywordOnly
  foreign : Foreign locals p.keywords
  vars : Bindings.Twins locals ρ p.vars q.vars

theorem takeKeyword_eq {keywords : Keywords} (h : Foreign locals keywords) {n : String}
    (hn : n ∈ locals) : takeKeyword n keywords = (none, keywords) := by
  induction keywords with
  | nil => rfl
  | cons k keywords ih =>
    obtain ⟨hk, hkeywords⟩ := List.forall_mem_cons.mp h
    have hne : (k.1 == n) = false := beq_eq_false_iff_ne.mpr fun he => hk (he ▸ hn)
    rw [takeKeyword, hne, ih hkeywords]
    rfl

/-- An ordinary parameter takes the next argument by position, or its default: none is passed by
name. -/
theorem Passed.take {p q : Passing} (h : Passed locals ρ p q) (hρ : ρ.Proper locals) {n m : String}
    (hnm : (n, m) ∈ ρ.flatten) (function : String) (default : Option Value) :
    Kept (Passed locals ρ) (p.take function n default) (q.take function m default) := by
  have hn := takeKeyword_eq h.foreign (hρ.lefts_local n (Ribs.mem_lefts hnm))
  have hm := takeKeyword_eq h.foreign (hρ.rights_local m (Ribs.mem_rights hnm))
  have hset (v : Value) := h.vars.set hρ (.inl hnm) v
  unfold Passing.take
  rw [← h.positional, ← h.keywordOnly, ← h.keywords, hn, hm]
  split
  · exact .ok ⟨rfl, rfl, rfl, h.foreign, hset _⟩
  · cases default with
    | none => exact .error (.raise rfl)
    | some v => exact .ok ⟨rfl, rfl, rfl, h.foreign, hset v⟩

theorem bindParams {r : Rib} (hr : Ribs.Proper locals (r :: ρ)) (function : String)
    {ps qs : List (Param × Option Value)} (hps : List.Forall₂ (ParamTwins r) ps qs) {p q : Passing}
    (hpq : Passed locals (r :: ρ) p q) :
    Twins locals W (Passed locals (r :: ρ)) (bindParams function ps p) (bindParams function qs q) := by
  induction hps generalizing p q with
  | nil => exact ret hpq
  | @cons a b _ _ hab _ ih =>
    obtain ⟨⟨n, kind, d, note⟩, default⟩ := a
    obtain ⟨⟨m, kind', d', note'⟩, default'⟩ := b
    obtain ⟨⟨rfl, hnames⟩, rfl⟩ := hab
    have hpair (hkind : kind.isSeparator = false) : (n, m) ∈ (r :: ρ).flatten :=
      List.mem_append_left _ (hnames hkind)
    have hset (hkind : kind.isSeparator = false) (v : Value) :=
      hpq.vars.set hr (.inl (hpair hkind)) v
    rw [Machine.bindParams, Machine.bindParams]
    dsimp only
    cases kind with
    | positionalOnly => exact bind (ret hpq) fun _ _ h => ih h
    | keywordOnly => exact bind (ret { hpq with keywordOnly := rfl }) fun _ _ h => ih h
    | varArgs =>
      rw [← hpq.positional]
      exact seq (plain (.newTuple _)) fun items => bind (ret { hpq with
        positional := rfl, keywordOnly := rfl, vars := hset rfl items }) fun _ _ h => ih h
    | kwArgs =>
      rw [← hpq.keywords]
      exact seq (plain (.newDict _)) fun entries => bind (ret { hpq with
        keywords := rfl, foreign := nofun, vars := hset rfl entries }) fun _ _ h => ih h
    | regular => exact bind (ofExcept (hpq.take hr (hpair rfl) function default)) fun _ _ h => ih h

theorem bindArguments {r : Rib} {c d : Closure} (hname : c.name = d.name)
    (hr : Ribs.Proper locals (r :: ρ)) (hps : List.Forall₂ (ParamTwins r) c.params d.params)
    (args : List Value) {keywords : Keywords} (hkeywords : Foreign locals keywords) :
    Twins locals W (Bindings.Twins locals (r :: ρ)) (bindArguments c args keywords)
      (bindArguments d args keywords) := by
  unfold Machine.bindArguments
  rw [hname]
  refine bind (bindParams hr d.name hps ⟨rfl, rfl, rfl, hkeywords, .nil _⟩) fun p q hpq => ?_
  rw [← hpq.positional, ← hpq.keywords]
  split
  · exact throw (.refl _)
  · exact throw (.refl _)
  · exact ret hpq.vars

/-! ## Calls -/

theorem callBy {onClosure onClosure' : Closure → List Value → Keywords → Exec Value}
    (h : ∀ W c d, Closure.Twins locals W c d → ∀ args keywords, Foreign locals keywords →
      Twins locals W Eq (onClosure c args keywords) (onClosure' d args keywords)) (nesting : Nat) :
    Calls locals (callBy onClosure nesting) (callBy onClosure' nesting) := by
  induction nesting with
  | zero => exact fun _ _ _ _ _ => exhaust
  | succ nesting ih =>
    intro W callee args keywords hkeywords
    have happly : (conduct locals W).Applies (fun f xs => Machine.callBy onClosure nesting f xs [])
        (fun f xs => Machine.callBy onClosure' nesting f xs []) := fun f xs => ih W f xs [] nofun
    cases callee with
    | function r =>
      exact Twins.onClosure (fun W' c d _ hcd => h W' c d hcd args keywords hkeywords) (ret rfl)
    | builtin b => exact happly.native b args keywords
    | method receiver name => exact happly.callMethod receiver name args keywords
    | exceptionType c =>
      cases args with
      | nil => exact seq (ret rfl) fun message => plain (.newException ⟨c, message⟩)
      | cons v _ =>
        -- The message may show functions, but by their names only.
        exact seq (plain (.ofHeap fun _ _ hcs => Heap.display_withClosures hcs v)) fun message =>
          plain (.newException ⟨c, message⟩)
    | _ => exact throw (.refl _)

theorem Calls.enter (h : Calls locals call call') {c d : Closure} (hcd : c.Twins locals W d)
    (args : List Value) {keywords : Keywords} (hkeywords : Foreign locals keywords) :
    Twins locals W Eq (enter call c args keywords) (enter call' d args keywords) := by
  obtain ⟨ρ, r, hsees, hr, hparams, hcode⟩ := hcd.made
  unfold Machine.enter
  rw [← hcd.env]
  refine limiting (bind (bindArguments hcd.name hr hparams args hkeywords) fun vars vars' hvars =>
    newScope (.fresh hr hsees hvars) fun W' scope _ hsees => deepening ?_)
  generalize c.code = code, d.code = code' at hcode
  cases hcode with
  | block hbody =>
    refine seq (h.execBlock hsees _ hbody) fun flow => ?_
    cases flow <;> exact ret rfl
  | expr he => exact h.eval hsees _ he

variable (locals) in
/-- Programs that are alike call values alike. -/
theorem callAt (levels : Nat) : Calls locals (callAt levels) (callAt levels) := by
  induction levels with
  | zero =>
    intro W callee args keywords hkeywords
    exact callBy (fun _ _ _ _ _ _ _ => tooDeep) _ W callee args keywords hkeywords
  | succ levels ih =>
    intro W callee args keywords hkeywords
    refine callBy ?_ _ W callee args keywords hkeywords
    intro W c d hcd args keywords hkeywords
    exact ih.enter hcd args hkeywords

end Concord.Machine.Twins
