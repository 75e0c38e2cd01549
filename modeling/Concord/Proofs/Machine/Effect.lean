import Concord.Idiom.Expression
import Concord.Proofs.Machine.Conduct

/-!
# What a pure expression does to a state

A pure expression calls nothing, and so it can only make new things and assign what the clauses of its
comprehensions bind. The scope of a comprehension is new and declares nothing, and therefore no binding
reaches a scope that was there before. A clause may also assign to an item of a container, as in
`[x for xs[0] in ys]`. That writes to a list or a dictionary that was there before, and it is the only
way to do so.
-/

namespace Concord

namespace Expr

mutual

/-- Whether an assignment to the target writes to an item of a container. -/
def storesItem : Expr → Bool
  | .subscript _ _ => true
  | .tuple targets | .list targets => storesItemIn targets
  | _ => false

/-- `storesItem` along a list of targets. -/
def storesItemIn : List Expr → Bool
  | [] => false
  | target :: targets => storesItem target || storesItemIn targets

end

/-- Whether the expression is a comprehension with a clause that writes to an item of a container. -/
def clausesStoreItem : Expr → Bool
  | .comp _ _ _ clauses => clauses.any (·.target.storesItem)
  | _ => false

/-- Whether a comprehension in the expression writes to an item of a container. -/
def writesItems (e : Expr) : Bool := e.subterms.any clausesStoreItem

end Expr

namespace Machine

variable {α β : Type}

/-! ## What was there before -/

/-- Every entry of the one store is in the other, at the same place. -/
def Persists (xs ys : Array α) : Prop := ∀ (i : Nat) (x : α), xs[i]? = some x → ys[i]? = some x

namespace Persists

variable {xs ys : Array α}

theorem refl (xs : Array α) : Persists xs xs := fun _ _ h => h

theorem push (h : Persists xs ys) (y : α) : Persists xs (ys.push y) := by
  intro i x hx
  have hi : i < ys.size := (Array.getElem?_eq_some_iff.mp (h i x hx)).1
  rw [Array.getElem?_push, if_neg (Nat.ne_of_lt hi)]
  exact h i x hx

theorem size_le (h : Persists xs ys) : xs.size ≤ ys.size := by
  refine Nat.le_of_not_lt fun hin => ?_
  have hout := h ys.size _ (Array.getElem?_eq_getElem hin)
  exact Nat.lt_irrefl _ (Array.getElem?_eq_some_iff.mp hout).1

/-- A change behind the end of the first store is no change to what it holds. -/
theorem modify (h : Persists xs ys) {k : Nat} (hk : xs.size ≤ k) (f : α → α) :
    Persists xs (ys.modify k f) := by
  intro i x hx
  have hi : i < xs.size := (Array.getElem?_eq_some_iff.mp hx).1
  rw [Array.getElem?_modify, if_neg (by omega)]
  exact h i x hx

end Persists

/-- All that there was in the first state is in the second one as it was. With `items`, lists and
dictionaries are there as well, but what they hold may be something else. -/
structure State.Kept (items : Bool) (s t : State) : Prop where
  globals : t.globals = s.globals
  handling : t.handling = s.handling
  depth : t.depth = s.depth
  maxDepth : t.maxDepth = s.maxDepth
  fuel : t.fuel ≤ s.fuel
  scopes : Persists s.scopes t.scopes
  tuples : Persists s.heap.tuples t.heap.tuples
  sets : Persists s.heap.sets t.heap.sets
  closures : Persists s.heap.closures t.heap.closures
  exceptions : Persists s.heap.exceptions t.heap.exceptions
  listCount : s.heap.lists.size ≤ t.heap.lists.size
  dictCount : s.heap.dicts.size ≤ t.heap.dicts.size
  lists : items = false → Persists s.heap.lists t.heap.lists
  dicts : items = false → Persists s.heap.dicts t.heap.dicts

/-- The second state comes from the first one by steps that keep what was there, and the scopes that are
new in it declare nothing. -/
structure State.Later (items : Bool) (s t : State) : Prop where
  kept : s.Kept items t
  undeclared : ∀ (i : Nat) (scope : Scope), s.scopes.size ≤ i → t.scopes[i]? = some scope →
    scope.globals = [] ∧ scope.nonlocals = []

theorem State.Later.refl (items : Bool) (s : State) : s.Later items s where
  kept := ⟨rfl, rfl, rfl, rfl, Nat.le_refl _, .refl _, .refl _, .refl _, .refl _, .refl _,
    Nat.le_refl _, Nat.le_refl _, fun _ => .refl _, fun _ => .refl _⟩
  undeclared i scope hi hscope := by
    have hlt := (Array.getElem?_eq_some_iff.mp hscope).1
    exact absurd hi (Nat.not_le_of_lt hlt)

/-- Whatever comes after the state `b` is still after `b` when the step ends, however it ends. -/
def Keeps (items : Bool) (b : State) (x : Exec α) : Prop :=
  ∀ s, b.Later items s → b.Later items (Ending.state (x s))

namespace Keeps

variable {items : Bool} {b : State}

@[grind ←] theorem ret (a : α) : Keeps items b (pure a) := fun _ hs => hs

@[grind ←] theorem throw (e : Signal) : Keeps items b (throw e : Exec α) := fun _ hs => hs

@[grind ←] theorem bind {x : Exec α} {f : α → Exec β} (hx : Keeps items b x)
    (hf : ∀ a, Keeps items b (f a)) : Keeps items b (x >>= f) := by
  intro s hs
  have hnext := hx s hs
  rw [Exec.bind_apply]
  cases hxs : x s with
  | ok a t =>
    rw [hxs] at hnext
    exact hf a t hnext
  | error e t =>
    rw [hxs] at hnext
    exact hnext

@[grind ←] theorem ofHeap (f : Heap → α) : Keeps items b (Exec.ofHeap f) := fun _ hs => hs

@[grind ←] theorem ofExcept (r : Except Signal α) : Keeps items b (Exec.ofExcept r) := by
  cases r with
  | ok a => exact ret a
  | error e => exact throw e

@[grind ←] theorem lift (r : Except Signal α) : Keeps items b (liftM r : Exec α) := ofExcept r

@[grind ←] theorem raising (r : Except Exception α) : Keeps items b (Exec.raising r) := by
  cases r with
  | ok a => exact ret a
  | error e => exact throw (.raise e)

@[grind ←] theorem truthy (v : Value) : Keeps items b (Exec.truthy v) := ofHeap _

theorem lookup (env : Env) (name : String) : Keeps items b (Exec.lookup env name) := by
  intro s hs
  unfold Exec.lookup
  dsimp only
  split <;> exact hs

/-! ### New things -/

@[grind ←] theorem newList (xs : List Value) : Keeps items b (Exec.newList xs) := fun s hs =>
  have hcount : s.heap.lists.size ≤ (s.heap.lists.push xs).size := by simp
  { hs with kept := { hs.kept with
    listCount := Nat.le_trans hs.kept.listCount hcount
    lists := fun h => (hs.kept.lists h).push xs } }

@[grind ←] theorem newTuple (xs : List Value) : Keeps items b (Exec.newTuple xs) := fun _ hs =>
  { hs with kept := { hs.kept with tuples := hs.kept.tuples.push xs } }

@[grind ←] theorem newSet (xs : List Value) : Keeps items b (Exec.newSet xs) := fun _ hs =>
  { hs with kept := { hs.kept with sets := hs.kept.sets.push xs } }

@[grind ←] theorem newDict (entries : Entries) : Keeps items b (Exec.newDict entries) := fun s hs =>
  have hcount : s.heap.dicts.size ≤ (s.heap.dicts.push entries).size := by simp
  { hs with kept := { hs.kept with
    dictCount := Nat.le_trans hs.kept.dictCount hcount
    dicts := fun h => (hs.kept.dicts h).push entries } }

@[grind ←] theorem newClosure (c : Closure) : Keeps items b (Exec.newClosure c) := fun _ hs =>
  { hs with kept := { hs.kept with closures := hs.kept.closures.push c } }

/-- A new scope that declares nothing, and what is done with it. -/
theorem inNewScope {env : Env} {f : Nat → Exec α}
    (hf : ∀ k, b.scopes.size ≤ k → Keeps items b (f k)) :
    Keeps items b (Exec.newScope { parent := env } >>= f) := by
  intro s hs
  apply hf s.scopes.size hs.kept.scopes.size_le
  refine ⟨{ hs.kept with scopes := hs.kept.scopes.push _ }, ?_⟩
  intro i scope hi hscope
  replace hscope : (s.scopes.push { parent := env })[i]? = some scope := hscope
  rw [Array.getElem?_push] at hscope
  split at hscope
  · cases hscope
    exact ⟨rfl, rfl⟩
  · exact hs.undeclared i scope hi hscope

/-! ### Changes -/

@[grind ←] theorem setList (r : Ref) (xs : List Value) : Keeps true b (Exec.setList r xs) :=
  fun s hs =>
  have hcount : (s.heap.lists.setIfInBounds r xs).size = s.heap.lists.size :=
    Array.size_setIfInBounds
  { hs with kept := { hs.kept with
    listCount := hcount.symm ▸ hs.kept.listCount
    lists := nofun } }

@[grind ←] theorem setDict (r : Ref) (entries : Entries) : Keeps true b (Exec.setDict r entries) :=
  fun s hs =>
  have hcount : (s.heap.dicts.setIfInBounds r entries).size = s.heap.dicts.size :=
    Array.size_setIfInBounds
  { hs with kept := { hs.kept with
    dictCount := hcount.symm ▸ hs.kept.dictCount
    dicts := nofun } }

/-- A name that is bound in a new scope. -/
theorem bindName {k : Nat} (hk : b.scopes.size ≤ k) (name : String) (v : Value) :
    Keeps items b (Exec.bind (some k) name v) := by
  intro s hs
  -- The scope declares nothing, so that the name is its own.
  have hown : (s.scopes[k]?.getD {}).globals = [] ∧ (s.scopes[k]?.getD {}).nonlocals = [] := by
    cases hscope : s.scopes[k]? with
    | none => exact ⟨rfl, rfl⟩
    | some scope => exact hs.undeclared k scope hk hscope
  have hbind : Exec.bind (some k) name v s = Exec.bindIn k name v s := by
    show (if (s.scopes[k]?.getD {}).globals.contains name then Exec.bindGlobal name v
      else if (s.scopes[k]?.getD {}).nonlocals.contains name then _ else _ : Exec Unit) s = _
    rw [hown.1, hown.2]
    rfl
  rw [hbind]
  refine ⟨{ hs.kept with scopes := hs.kept.scopes.modify hk _ }, ?_⟩
  intro i scope hi hscope
  replace hscope : (s.scopes.modify k fun scope =>
    { scope with vars := scope.vars.set name v })[i]? = some scope := hscope
  rw [Array.getElem?_modify] at hscope
  split at hscope
  · obtain ⟨before, hbefore, rfl⟩ := Option.map_eq_some_iff.mp hscope
    exact hs.undeclared i before hi hbefore
  · exact hs.undeclared i scope hi hscope

@[grind ←] theorem charge (units : Nat) : Keeps items b (Exec.charge units) := by
  intro s hs
  have hcharge : Exec.charge units s = (if s.fuel < units then Exec.exhaust
      else modify fun s => { s with fuel := s.fuel - units } : Exec Unit) s := rfl
  rw [hcharge]
  have hle := hs.kept.fuel
  split
  · exact { hs with kept := { hs.kept with fuel := Nat.zero_le _ } }
  · exact { hs with kept := { hs.kept with fuel := Nat.le_trans (Nat.sub_le _ _) hle } }

/-! ### Lists of steps -/

theorem mapM {f : α → Exec β} (hf : ∀ a, Keeps items b (f a)) (as : List α) :
    Keeps items b (as.mapM f) := by
  induction as with
  | nil => exact ret []
  | cons a as ih =>
    rw [List.mapM_cons]
    exact bind (hf a) fun y => bind ih fun ys => ret (y :: ys)

theorem foldlM {f : β → α → Exec β} (hf : ∀ y a, Keeps items b (f y a)) (y : β) (as : List α) :
    Keeps items b (as.foldlM f y) := by
  induction as generalizing y with
  | nil => exact ret y
  | cons a as ih =>
    rw [List.foldlM_cons]
    exact bind (hf y a) ih

/-! ### Operators and containers -/

theorem repeatSequence (v : Value) (times : Int) : Keeps items b (repeatSequence v times) := by
  unfold Machine.repeatSequence
  cases v <;> grind

theorem sequenceOp (op : BinOp) (left right : Value) :
    Keeps items b (sequenceOp op left right) := by
  unfold Machine.sequenceOp
  split
  all_goals grind [repeatSequence]

theorem binary (op : BinOp) (left right : Value) : Keeps items b (binary op left right) := by
  unfold Machine.binary
  split
  · exact ofExcept _
  · exact sequenceOp op left right

theorem unary (op : UnaryOp) (operand : Value) : Keeps items b (unary op operand) := by
  unfold Machine.unary
  grind

theorem contains (container item : Value) : Keeps items b (contains container item) := by
  unfold Machine.contains
  cases container <;> grind

theorem compareValues (op : CmpOp) (left right : Value) :
    Keeps items b (compareValues op left right) := by
  unfold Machine.compareValues
  cases op <;> grind [contains]

theorem getItem (container index : Value) : Keeps items b (getItem container index) := by
  unfold Machine.getItem
  cases container <;> grind

theorem getSlice (container : Value) (lower upper step : Option Int) :
    Keeps items b (getSlice container lower upper step) := by
  unfold Machine.getSlice
  cases container <;> grind

@[grind ←] theorem insertEntry (entries : Entries) (key value : Value) :
    Keeps items b (insertEntry entries key value) := by
  unfold Machine.insertEntry
  grind

theorem makeSet (xs : List Value) : Keeps items b (makeSet xs) := by
  unfold Machine.makeSet
  refine bind (foldlM (fun members item => ?_) [] xs) newSet
  grind

theorem setItem (container index value : Value) : Keeps true b (setItem container index value) := by
  unfold Machine.setItem
  cases container <;> grind

theorem comprehended (kind : CompKind) (produced : List (Value × Option Value)) :
    Keeps items b (comprehended kind produced) := by
  unfold Machine.comprehended
  cases kind with
  | list | generator => exact newList _
  | set => exact makeSet _
  | dict => exact bind (foldlM (fun entries p => insertEntry entries _ _) [] produced) newDict

@[grind ←] theorem iterate (v : Value) : Keeps items b (iterate v) := by
  unfold Machine.iterate
  cases v <;> grind

theorem unpack (targets : List Expr) (v : Value) : Keeps items b (unpack targets v) := by
  unfold Machine.unpack
  grind

end Keeps

/-! ## Evaluation -/

section

variable {items : Bool} {b : State}

/-- None of the expressions is a call, and with `items` off none of them is a comprehension that writes
to items. -/
def Silent (items : Bool) (es : List Expr) : Prop :=
  ∀ e ∈ es, e.isCall = false ∧ (e.clausesStoreItem = true → items = true)

theorem silent_cons {e : Expr} {es : List Expr} : Silent items (e :: es) ↔
    (e.isCall = false ∧ (e.clausesStoreItem = true → items = true)) ∧ Silent items es :=
  List.forall_mem_cons

theorem silent_append {es es' : List Expr} :
    Silent items (es ++ es') ↔ Silent items es ∧ Silent items es' :=
  List.forall_mem_append

variable (call : Call)

mutual

theorem eval_keeps (env : Env) : (e : Expr) → Silent items e.subterms →
    Keeps items b (eval call env e)
  | .name n, _ => by
    rw [eval]
    exact .bind (.charge 1) fun _ => .lookup env n
  | .int _, _ | .float _, _ | .bool _, _ | .none, _ => by
    rw [eval]
    exact .bind (.charge 1) fun _ => .ret _
  | .str lit, _ => by
    rw [eval]
    grind
  | .bin op left right, h => by
    simp only [Expr.subterms, silent_cons, silent_append] at h
    rw [eval]
    exact .bind (.charge 1) fun _ => .bind (eval_keeps env left h.2.1) fun l =>
      .bind (eval_keeps env right h.2.2) fun r => .binary op l r
  | .unary op operand, h => by
    rw [Expr.subterms, silent_cons] at h
    rw [eval]
    exact .bind (.charge 1) fun _ => .bind (eval_keeps env operand h.2) fun v => .unary op v
  | .logic op left right, h => by
    simp only [Expr.subterms, silent_cons, silent_append] at h
    rw [eval]
    refine .bind (.charge 1) fun _ => .bind (eval_keeps env left h.2.1) fun l =>
      .bind (.truthy l) fun _ => ?_
    split
    · exact .ret l
    · exact eval_keeps env right h.2.2
  | .compare left links, h => by
    simp only [Expr.subterms, silent_cons, silent_append] at h
    rw [eval]
    exact .bind (.charge 1) fun _ => .bind (eval_keeps env left h.2.1) fun l =>
      evalLinks_keeps env l links h.2.2
  | .call func args, h => by
    -- A call is what the expression is free of.
    rw [Expr.subterms, silent_cons] at h
    exact absurd h.1.1 (by simp [Expr.isCall])
  | .attribute value attr, h => by
    rw [Expr.subterms, silent_cons] at h
    rw [eval]
    exact .bind (.charge 1) fun _ => .bind (eval_keeps env value h.2) fun v => .ret _
  | .subscript value index, h => by
    simp only [Expr.subterms, silent_cons, silent_append] at h
    have hvalue := eval_keeps env value h.2.1
    have hindex := eval_keeps env index h.2.2
    cases index with
    | slice lower upper step =>
      simp only [Expr.subterms, silent_cons, silent_append] at h
      obtain ⟨-, -, -, hl, hu, hs⟩ := h
      rw [eval]
      exact .bind (.charge 1) fun _ => .bind hvalue fun c =>
        .bind (evalOption_keeps env lower hl) fun l => .bind (.lift _) fun l =>
        .bind (evalOption_keeps env upper hu) fun u => .bind (.lift _) fun u =>
        .bind (evalOption_keeps env step hs) fun s => .bind (.lift _) fun s => .getSlice c l u s
    | _ =>
      rw [eval]
      · exact .bind (.charge 1) fun _ => .bind hvalue fun c => .bind hindex fun i => .getItem c i
      all_goals simp
  | .slice _ _ _, _ | .starred _, _ | .verbatim _, _ => by
    rw [eval]
    exact .bind (.charge 1) fun _ => .throw _
  | .list es, h => by
    rw [Expr.subterms, silent_cons] at h
    rw [eval]
    exact .bind (.charge 1) fun _ => .bind (evalItems_keeps env es h.2) fun vs => .newList vs
  | .tuple es, h => by
    rw [Expr.subterms, silent_cons] at h
    rw [eval]
    exact .bind (.charge 1) fun _ => .bind (evalItems_keeps env es h.2) fun vs => .newTuple vs
  | .set es, h => by
    rw [Expr.subterms, silent_cons] at h
    rw [eval]
    exact .bind (.charge 1) fun _ => .bind (evalItems_keeps env es h.2) fun vs => .makeSet vs
  | .dict entries, h => by
    rw [Expr.subterms, silent_cons] at h
    rw [eval]
    exact .bind (.charge 1) fun _ => .bind (evalEntries_keeps env [] entries h.2) fun es =>
      .newDict es
  | .comp kind element value clauses, h => by
    simp only [Expr.subterms, silent_cons, silent_append] at h
    obtain ⟨⟨-, hstores⟩, helement, hvalue, hclauses⟩ := h
    rw [eval]
    refine .bind (.charge 1) fun _ => .inNewScope fun k hk => ?_
    have hleaf := Keeps.bind (eval_keeps (some k) element helement) fun key =>
      .bind (evalOption_keeps (some k) value hvalue) fun v => .ret (key, v)
    refine .bind (evalClauses_keeps hk hleaf clauses hclauses ?_) fun produced =>
      .comprehended kind produced
    intro c hc hitem
    exact hstores (List.any_eq_true.mpr ⟨c, hc, hitem⟩)
  | .ifExp test body orelse, h => by
    simp only [Expr.subterms, silent_cons, silent_append] at h
    rw [eval]
    refine .bind (.charge 1) fun _ => .bind (eval_keeps env test h.2.1) fun t =>
      .bind (.truthy t) fun _ => ?_
    split
    · exact eval_keeps env body h.2.2.1
    · exact eval_keeps env orelse h.2.2.2
  | .lambda params body, h => by
    simp only [Expr.subterms, silent_cons, silent_append] at h
    rw [eval]
    exact .bind (.charge 1) fun _ => .bind (evalParams_keeps env params h.2.1) fun _ =>
      .newClosure _

theorem evalOption_keeps (env : Env) : (o : Option Expr) → Silent items (Expr.subtermsOption o) →
    Keeps items b (evalOption call env o)
  | none, _ => by
    rw [evalOption]
    exact .ret none
  | some e, h => by
    rw [evalOption]
    exact .bind (eval_keeps env e h) fun v => .ret (some v)

theorem evalItems_keeps (env : Env) : (es : List Expr) → Silent items (Expr.subtermsList es) →
    Keeps items b (evalItems call env es)
  | [], _ => by
    rw [evalItems]
    exact .ret []
  | e :: rest, h => by
    rw [Expr.subtermsList, silent_append] at h
    have hitem := eval_keeps env e h.1
    have hrest := evalItems_keeps env rest h.2
    cases e with
    | starred inner =>
      rw [Expr.subterms, silent_cons] at h
      rw [evalItems]
      exact .bind (eval_keeps env inner h.1.2) fun v => .bind (.iterate v) fun vs =>
        .bind hrest fun ws => .ret (vs ++ ws)
    | _ =>
      rw [evalItems]
      · exact .bind hitem fun v => .bind hrest fun vs => .ret (v :: vs)
      all_goals simp

theorem evalLinks_keeps (env : Env) (left : Value) : (ls : List (CmpOp × Expr)) →
    Silent items (Expr.subtermsLinks ls) → Keeps items b (evalLinks call env left ls)
  | [], _ => by
    rw [evalLinks]
    exact .ret _
  | (op, right) :: rest, h => by
    rw [Expr.subtermsLinks, silent_append] at h
    rw [evalLinks]
    refine .bind (eval_keeps env right h.1) fun r => .bind (.compareValues op left r) fun _ => ?_
    split
    · exact evalLinks_keeps env r rest h.2
    · exact .ret _

theorem evalEntries_keeps (env : Env) (done : Entries) : (es : List (Expr × Expr)) →
    Silent items (Expr.subtermsEntries es) → Keeps items b (evalEntries call env done es)
  | [], _ => by
    rw [evalEntries]
    exact .ret _
  | (key, value) :: rest, h => by
    simp only [Expr.subtermsEntries, silent_append] at h
    rw [evalEntries]
    exact .bind (eval_keeps env key h.1) fun k => .bind (eval_keeps env value h.2.1) fun v =>
      .bind (.insertEntry done k v) fun done => evalEntries_keeps env done rest h.2.2

theorem evalParams_keeps (env : Env) : (ps : List Param) → Silent items (Expr.subtermsParams ps) →
    Keeps items b (evalParams call env ps)
  | [], _ => by
    rw [evalParams]
    exact .ret _
  | ⟨_, _, default, _⟩ :: rest, h => by
    rw [Expr.subtermsParams, silent_append] at h
    rw [evalParams]
    exact .bind (evalOption_keeps env default h.1) fun v =>
      .bind (evalParams_keeps env rest h.2) fun _ => .ret _

theorem evalConditions_keeps (env : Env) : (es : List Expr) → Silent items (Expr.subtermsList es) →
    Keeps items b (evalConditions call env es)
  | [], _ => by
    rw [evalConditions]
    exact .ret _
  | e :: rest, h => by
    rw [Expr.subtermsList, silent_append] at h
    rw [evalConditions]
    refine .bind (eval_keeps env e h.1) fun v => .bind (.truthy v) fun _ => ?_
    split
    · exact evalConditions_keeps env rest h.2
    · exact .ret _

/-- The clauses of a comprehension assign in its own scope, which is a new one. -/
theorem evalClauses_keeps {k : Nat} (hk : b.scopes.size ≤ k)
    {leaf : Exec (Value × Option Value)} (hleaf : Keeps items b leaf) : (cs : List Clause) →
    Silent items (Expr.subtermsClauses cs) →
    (∀ c ∈ cs, c.target.storesItem = true → items = true) →
    Keeps items b (evalClauses call (some k) leaf cs)
  | [], _, _ => by
    rw [evalClauses]
    exact .bind hleaf fun p => .ret [p]
  | ⟨target, iter, ifs⟩ :: rest, h, hstores => by
    simp only [Expr.subtermsClauses, silent_append] at h
    obtain ⟨hiter, htarget, hifs, hrest⟩ := h
    rw [List.forall_mem_cons] at hstores
    rw [evalClauses]
    refine .bind (eval_keeps (some k) iter hiter) fun v => .bind (.iterate v) fun vs =>
      .bind (.mapM (fun item => ?_) vs) fun _ => .ret _
    refine .bind (assign_keeps hk target item htarget hstores.1) fun _ =>
      .bind (evalConditions_keeps (some k) ifs hifs) fun _ => ?_
    split
    · exact evalClauses_keeps hk hleaf rest hrest hstores.2
    · exact .ret []

theorem assign_keeps {k : Nat} (hk : b.scopes.size ≤ k) : (target : Expr) → (v : Value) →
    Silent items target.subterms → (target.storesItem = true → items = true) →
    Keeps items b (assign call (some k) target v)
  | .name n, v, _, _ => by
    rw [assign]
    exact .bindName hk n v
  | .tuple targets, v, h, hstores | .list targets, v, h, hstores => by
    rw [Expr.subterms, silent_cons] at h
    rw [Expr.storesItem] at hstores
    rw [assign]
    exact .bind (.unpack targets v) fun vs => assignAll_keeps hk targets vs h.2 hstores
  | .subscript container index, v, h, hstores => by
    have hitems : items = true := hstores rfl
    simp only [Expr.subterms, silent_cons, silent_append] at h
    have hcontainer := eval_keeps (some k) container h.2.1
    have hindex := eval_keeps (some k) index h.2.2
    cases index with
    | slice _ _ _ =>
      rw [assign]
      exact .bind hcontainer fun _ => .throw _
    | _ =>
      rw [assign]
      · exact .bind hcontainer fun c => .bind hindex fun i => hitems ▸ .setItem c i v
      all_goals simp
  | .int _, _, _, _ | .float _, _, _, _ | .str _, _, _, _ | .bool _, _, _, _ | .none, _, _, _
  | .bin _ _ _, _, _, _ | .unary _ _, _, _, _ | .logic _ _ _, _, _, _ | .compare _ _, _, _, _
  | .call _ _, _, _, _ | .attribute _ _, _, _, _ | .slice _ _ _, _, _, _ | .set _, _, _, _
  | .dict _, _, _, _ | .comp _ _ _ _, _, _, _ | .ifExp _ _ _, _, _, _ | .lambda _ _, _, _, _
  | .starred _, _, _, _ | .verbatim _, _, _, _ => by
    rw [assign]
    · exact .throw _
    all_goals simp

theorem assignAll_keeps {k : Nat} (hk : b.scopes.size ≤ k) : (targets : List Expr) →
    (vs : List Value) → Silent items (Expr.subtermsList targets) →
    (Expr.storesItemIn targets = true → items = true) →
    Keeps items b (assignAll call (some k) targets vs)
  | target :: targets, v :: vs, h, hstores => by
    rw [Expr.subtermsList, silent_append] at h
    rw [Expr.storesItemIn, Bool.or_eq_true] at hstores
    rw [assignAll]
    exact .bind (assign_keeps hk target v h.1 fun ht => hstores (.inl ht)) fun _ =>
      assignAll_keeps hk targets vs h.2 fun ht => hstores (.inr ht)
  | [], _, _, _ | _ :: _, [], _, _ => by
    rw [assignAll]
    · exact .ret ()
    all_goals simp

end

/-- However the evaluation of a pure expression ends, all that was there before is there as it was:
variables, exceptions being handled, and all containers, unless a clause of a comprehension writes to
items, which can change lists and dictionaries. -/
theorem eval_of_isPure (env : Env) (s : State) {e : Expr} (h : e.isPure = true) :
    s.Kept e.writesItems (Ending.state (eval call env e s)) := by
  have hfree : e.isCallFree = true := (Bool.and_eq_true_iff.mp h).1
  have hsilent : Silent e.writesItems e.subterms := by
    intro x hx
    constructor
    · simp only [Expr.isCallFree, Bool.not_eq_true', List.any_eq_false, Bool.not_eq_true] at hfree
      exact hfree x hx
    · intro hstores
      exact List.any_eq_true.mpr ⟨x, hx, hstores⟩
  exact (eval_keeps call env e hsilent s (.refl _ s)).kept

end

/-- Items added up by a comprehension: its variable is new, and `xs` stays as it is. -/
theorem eval_of_isPure_comprehension :
    let e : Expr := .comp .list (.bin .add (.name "x") (.name "y")) none
      [⟨.name "x", .name "xs", [.compare (.name "x") [(.gt, .int 1)]]⟩]
    let s : State :=
      { fuel := 30, maxDepth := 1, globals := [("xs", .list 0), ("y", .int 5)],
        heap := { lists := #[[.int 1, .int 2]] } }
    e.isPure = true ∧ s.Kept false (Ending.state (eval (fun _ _ _ => tooDeep) none e s)) := by
  intro e s
  have hpure : e.isPure = true := by rfl
  exact ⟨hpure, eval_of_isPure (fun _ _ _ => tooDeep) none s hpure⟩

/-- `[0 for xs[0] in ys]` calls nothing, and yet the first item of `xs` is another one after it. -/
theorem eval_of_isPure_storing :
    let e : Expr := .comp .list (.int 0) none
      [⟨.subscript (.name "xs") (.int 0), .name "ys", []⟩]
    let s : State :=
      { fuel := 30, maxDepth := 1, globals := [("xs", .list 0), ("ys", .list 1)],
        heap := { lists := #[[.int 1], [.int 5]] } }
    e.isPure = true ∧ s.heap.list 0 = [.int 1] ∧
      (Ending.state (eval (fun _ _ _ => tooDeep) none e s)).heap.list 0 = [.int 5] := by
  intro e s
  exact ⟨by rfl, by rfl, by rfl⟩

end Machine

end Concord
