import Concord.Proofs.Machine.Attained

/-!
# A value in the place of a name

A call runs `t = v` and `return e`, where the expression `e` leads with the name `t`. With `v` in the
place of `t` the value is found at the same point: what the two runs pay differs, and the variable `t`
is left unbound in the second one, but the call is over then.
-/

namespace Concord.Machine

open Concord.Expr

variable {α β : Type} {swaps : Block → Block → Prop} {call call' : Call} {i : Nat} {t : String}
  {v : Expr}

/-! ## Payments -/

theorem Exec.charge_bind_charge (m n : Nat) (f : Unit → Exec α) :
    (Exec.charge m >>= fun _ => Exec.charge n >>= f) = (Exec.charge (m + n) >>= f) := by
  funext s
  rw [Exec.bind_apply, Exec.bind_apply, Exec.charge_apply, Exec.charge_apply]
  by_cases hm : s.fuel < m
  · rw [if_pos hm, if_pos (by omega)]
  · rw [if_neg hm]
    dsimp only
    rw [Exec.bind_apply, Exec.charge_apply]
    dsimp only
    by_cases hn : s.fuel - m < n
    · rw [if_pos hn, if_pos (by omega)]
    · rw [if_neg hn, if_neg (by omega), Nat.sub_sub]

theorem Exec.charge_zero_bind (f : Unit → Exec α) : (Exec.charge 0 >>= f) = f () := rfl

/-- Evaluating a constant is a payment. -/
theorem eval_constant {e : Expr} (h : e.isConstant = true) :
    ∃ c, ∀ call env, eval call env e = (Exec.charge 1 >>= fun _ => pure c) := by
  cases e with
  | str lit =>
    rw [isConstant, Bool.not_eq_true'] at h
    refine ⟨.str lit.value, fun call env => ?_⟩
    rw [Machine.eval, h]
    rfl
  | int n => exact ⟨.int n, fun call env => by rw [Machine.eval]⟩
  | float x => exact ⟨.float x, fun call env => by rw [Machine.eval]⟩
  | bool b => exact ⟨.bool b, fun call env => by rw [Machine.eval]⟩
  | none => exact ⟨.none, fun call env => by rw [Machine.eval]⟩
  | _ => simp [isConstant, isLiteral] at h

theorem evalItems_cons {env : Env} {e : Expr} {items : List Expr} (h : e.isStarred = false) :
    evalItems call env (e :: items) = (do
      let value ← eval call env e
      return value :: (← evalItems call env items)) := by
  cases e with
  | starred a => exact absurd h nofun
  | _ =>
    rw [Machine.evalItems]
    all_goals simp

/-! ## Steps that wait for a value -/

/-- Payments apart, the first step starts by looking the name up and the second one by finding a value;
what comes next attains where the name is hidden. -/
def Awaits (swaps : Block → Block → Prop) (i : Nat) (t : String) (value : Exec Value) (x y : Exec α) :
    Prop :=
  ∃ (n m : Nat) (f k : Value → Exec α),
    x = (Exec.charge n >>= fun _ => Exec.lookup (some i) t >>= f) ∧
    y = (Exec.charge m >>= fun _ => value >>= k) ∧
    ∀ w, Attains [t] swaps (some i) .ended (f w) (k w)

namespace Awaits

variable {value : Exec Value} {x y : Exec α}

theorem here : Awaits swaps i t value (Exec.charge 1 >>= fun _ => Exec.lookup (some i) t) value := by
  refine ⟨1, 0, pure, pure, ?_, ?_, fun w => .ret w⟩
  · simp only [bind_pure]
  · rw [Exec.charge_zero_bind, bind_pure]

theorem pay (h : Awaits swaps i t value x y) :
    Awaits swaps i t value (Exec.charge 1 >>= fun _ => x) (Exec.charge 1 >>= fun _ => y) := by
  obtain ⟨n, m, f, k, rfl, rfl, hrest⟩ := h
  exact ⟨1 + n, 1 + m, f, k, Exec.charge_bind_charge .., Exec.charge_bind_charge .., hrest⟩

theorem bind {f k : α → Exec β} (h : Awaits swaps i t value x y)
    (hf : ∀ a, Attains [t] swaps (some i) .ended (f a) (k a)) :
    Awaits swaps i t value (x >>= f) (y >>= k) := by
  obtain ⟨n, m, f', k', rfl, rfl, hrest⟩ := h
  refine ⟨n, m, fun w => f' w >>= f, fun w => k' w >>= k, ?_, ?_, fun w => (hrest w).bind hf⟩
  all_goals simp only [bind_assoc]

/-- After a constant. -/
theorem constant {e : Expr} (he : e.isConstant = true) {f k : Value → Exec α}
    (h : ∀ c, Awaits swaps i t value (f c) (k c)) :
    Awaits swaps i t value (eval call (some i) e >>= f) (eval call' (some i) e >>= k) := by
  obtain ⟨c, hc⟩ := eval_constant he
  simp only [hc, bind_assoc, pure_bind]
  exact (h c).pay

end Awaits

/-- What does not mention the name can run where it is hidden. -/
theorem fits_of_without {es : List Expr} (h : without t es = true) : Fits [t] .ended es :=
  List.all_eq_true.mp h

namespace Attains

mutual

/-- An expression that leads with the name waits for its value. -/
theorem Calls.awaits (h : Calls [t] swaps call call') (i : Nat) (hv : v.isStarred = false) :
    (e : Expr) → e.leads t = true →
    Awaits swaps i t (Machine.eval call' (some i) v) (Machine.eval call (some i) e)
      (Machine.eval call' (some i) (e.map (replaceName t v)))
  | .name n, he => by
    rw [leads, beq_iff_eq] at he
    subst he
    simp only [map, replaceName, if_true]
    rw [Machine.eval]
    exact .here
  | .unary _ a, he => by
    rw [leads] at he
    simp only [map, replaceName]
    rw [Machine.eval, Machine.eval]
    exact .pay ((h.awaits i hv a he).bind fun w => plain (.unary _ w))
  | .attribute a _, he => by
    rw [leads] at he
    simp only [map, replaceName]
    rw [Machine.eval, Machine.eval]
    exact .pay ((h.awaits i hv a he).bind fun w => ret _)
  | .bin op l r, he => by
    simp only [leads, Bool.or_eq_true, Bool.and_eq_true] at he
    simp only [map, replaceName]
    rw [Machine.eval, Machine.eval]
    refine .pay ?_
    obtain ⟨hl, hr⟩ | ⟨hl, hr⟩ := he
    · rw [replaceName_eq_self hr]
      exact (h.awaits i hv l hl).bind fun w =>
        Attains.bind (h.eval (some i) r (fits_of_without hr)) fun u => plain (.binary op w u)
    · rw [map_of_isConstant hl]
      exact .constant hl fun c => (h.awaits i hv r hr).bind fun w => plain (.binary op c w)
  | .logic op l r, he => by
    simp only [leads, Bool.and_eq_true] at he
    simp only [map, replaceName]
    rw [Machine.eval, Machine.eval, replaceName_eq_self he.2]
    refine .pay ((h.awaits i hv l he.1).bind fun w => Attains.bind (plain (.truthy w)) fun b => ?_)
    split
    · exact ret w
    · exact h.eval (some i) r (fits_of_without he.2)
  | .compare l links, he => by
    simp only [leads, Bool.or_eq_true, Bool.and_eq_true] at he
    simp only [map, replaceName]
    rw [Machine.eval, Machine.eval]
    refine .pay ?_
    obtain ⟨hl, hlinks⟩ | ⟨hl, hlinks⟩ := he
    · rw [mapLinks_eq_self links (replaceName_of_without hlinks)]
      exact (h.awaits i hv l hl).bind fun w =>
        h.evalLinks (some i) w links (fits_of_without hlinks)
    · rw [map_of_isConstant hl]
      exact .constant hl fun c => h.awaitsLinks i hv c links hlinks
  | .subscript a index, he => by
    simp only [leads, Bool.and_eq_true] at he
    have hvalue := h.awaits i hv a he.1
    have hindex : Fits [t] .ended index.subterms := fits_of_without he.2
    simp only [map, replaceName]
    rw [replaceName_eq_self he.2]
    cases index with
    | slice l u s =>
      simp only [subterms, fits_cons, fits_append] at hindex
      rw [Machine.eval, Machine.eval]
      exact .pay (hvalue.bind fun c =>
        Attains.bind (h.evalOption (some i) l hindex.2.1) fun l =>
        Attains.bind (plain (.lift _)) fun l =>
        Attains.bind (h.evalOption (some i) u hindex.2.2.1) fun u =>
        Attains.bind (plain (.lift _)) fun u =>
        Attains.bind (h.evalOption (some i) s hindex.2.2.2) fun s =>
        Attains.bind (plain (.lift _)) fun s =>
        plain (.getSlice c l u s))
    | _ =>
      rw [Simulation.eval_subscript call, Simulation.eval_subscript call']
      · exact .pay (hvalue.bind fun c =>
          Attains.bind (h.eval (some i) _ hindex) fun w => plain (.getItem c w))
      all_goals simp
  | .list items, he => by
    rw [leads] at he
    simp only [map, replaceName]
    rw [Machine.eval, Machine.eval]
    exact .pay ((h.awaitsItems i hv items he).bind fun ws => plain (.newList ws))
  | .tuple items, he => by
    rw [leads] at he
    simp only [map, replaceName]
    rw [Machine.eval, Machine.eval]
    exact .pay ((h.awaitsItems i hv items he).bind fun ws => plain (.newTuple ws))
  | .set items, he => by
    rw [leads] at he
    simp only [map, replaceName]
    rw [Machine.eval, Machine.eval]
    exact .pay ((h.awaitsItems i hv items he).bind fun ws => plain (.makeSet ws))
  | .dict entries, he => by
    rw [leads] at he
    simp only [map, replaceName]
    rw [Machine.eval, Machine.eval]
    exact .pay ((h.awaitsEntries i hv entries he).bind fun es => plain (.newDict es))
  | .ifExp c a b, he => by
    simp only [leads, Bool.and_eq_true] at he
    simp only [map, replaceName]
    rw [Machine.eval, Machine.eval, replaceName_eq_self he.2.1,
      replaceName_eq_self he.2.2]
    refine .pay ((h.awaits i hv c he.1).bind fun w => Attains.bind (plain (.truthy w)) fun b => ?_)
    split
    · exact h.eval (some i) a (fits_of_without he.2.1)
    · exact h.eval (some i) _ (fits_of_without he.2.2)
  | .call _ _, he | .slice _ _ _, he | .comp _ _ _ _, he | .lambda _ _, he | .starred _, he
  | .int _, he | .float _, he | .str _, he | .bool _, he | .none, he | .verbatim _, he => by
    simp [leads] at he

theorem Calls.awaitsItems (h : Calls [t] swaps call call') (i : Nat) (hv : v.isStarred = false) :
    (items : List Expr) → leadsItems t items = true →
    Awaits swaps i t (Machine.eval call' (some i) v) (Machine.evalItems call (some i) items)
      (Machine.evalItems call' (some i) (mapList (replaceName t v) items))
  | [], he => by simp [leadsItems] at he
  | e :: items, he => by
    have hrest (hitems : without t (subtermsList items) = true) :
        mapList (replaceName t v) items = items ∧
          Attains [t] swaps (some i) .ended (Machine.evalItems call (some i) items)
            (Machine.evalItems call' (some i) items) :=
      ⟨mapList_eq_self items (replaceName_of_without hitems),
        h.evalItems (some i) items (fits_of_without hitems)⟩
    by_cases hstarred : e.isStarred = true
    · obtain ⟨a, rfl⟩ : ∃ a, e = .starred a := by
        cases e <;> first | exact ⟨_, rfl⟩ | simp [isStarred] at hstarred
      rw [leadsItems, Bool.and_eq_true] at he
      obtain ⟨hkept, hitems⟩ := hrest he.2
      simp only [mapList, map, replaceName]
      rw [Machine.evalItems, Machine.evalItems, hkept]
      exact (h.awaits i hv a he.1).bind fun w =>
        Attains.bind ((conduct [t] swaps (some i) .ended).iterate w) fun ws =>
          Attains.bind hitems fun us => ret _
    · rw [Bool.not_eq_true] at hstarred
      have hmapped : (e.map (replaceName t v)).isStarred = false := by
        cases e with
        | name n =>
          rw [map, replaceName]
          split
          · exact hv
          · rfl
        | starred a => exact absurd hstarred nofun
        | _ => rfl
      have hitem : e.leads t = true ∧ without t (subtermsList items) = true ∨
          e.isConstant = true ∧ leadsItems t items = true := by
        cases e with
        | starred a => exact absurd hstarred nofun
        | _ => simpa only [leadsItems, Bool.or_eq_true, Bool.and_eq_true] using he
      rw [mapList, evalItems_cons hstarred, evalItems_cons hmapped]
      obtain ⟨he, hitems⟩ | ⟨he, hitems⟩ := hitem
      · obtain ⟨hkept, hitems⟩ := hrest hitems
        rw [hkept]
        exact (h.awaits i hv e he).bind fun w => Attains.bind hitems fun ws => ret _
      · rw [map_of_isConstant he]
        exact .constant he fun c => (h.awaitsItems i hv items hitems).bind fun ws => ret _

theorem Calls.awaitsLinks (h : Calls [t] swaps call call') (i : Nat) (hv : v.isStarred = false)
    (left : Value) : (links : List (CmpOp × Expr)) → leadsLinks t links = true →
    Awaits swaps i t (Machine.eval call' (some i) v) (Machine.evalLinks call (some i) left links)
      (Machine.evalLinks call' (some i) left (mapLinks (replaceName t v) links))
  | [], he => by simp [leadsLinks] at he
  | (op, e) :: links, he => by
    simp only [leadsLinks, Bool.and_eq_true] at he
    rw [mapLinks, mapLinks_eq_self links (replaceName_of_without he.2), Machine.evalLinks,
      Machine.evalLinks]
    refine (h.awaits i hv e he.1).bind fun w =>
      Attains.bind (plain (.compareValues op left w)) fun b => ?_
    split
    · exact h.evalLinks (some i) w links (fits_of_without he.2)
    · exact ret _

theorem Calls.awaitsEntries (h : Calls [t] swaps call call') (i : Nat) (hv : v.isStarred = false) :
    (entries : List (Expr × Expr)) → leadsEntries t entries = true →
    Awaits swaps i t (Machine.eval call' (some i) v) (Machine.evalEntries call (some i) [] entries)
      (Machine.evalEntries call' (some i) [] (mapEntries (replaceName t v) entries))
  | [], he => by simp [leadsEntries] at he
  | (k, w) :: entries, he => by
    simp only [leadsEntries, Bool.or_eq_true, Bool.and_eq_true] at he
    have hrest (done : Entries) := h.evalEntries (some i) done entries (fits_of_without he.2)
    rw [mapEntries, mapEntries_eq_self entries (replaceName_of_without he.2), Machine.evalEntries,
      Machine.evalEntries]
    obtain ⟨hk, hw⟩ | ⟨hk, hw⟩ := he.1
    · rw [replaceName_eq_self hw]
      exact (h.awaits i hv k hk).bind fun key =>
        Attains.bind (h.eval (some i) w (fits_of_without hw)) fun value =>
          Attains.bind (plain (.insertEntry [] key value)) hrest
    · rw [map_of_isConstant hk]
      exact .constant hk fun key => (h.awaits i hv w hw).bind fun value =>
        Attains.bind (plain (.insertEntry [] key value)) hrest

end

end Attains

/-! ## The end of a call -/

/-- In a scope that declares nothing about a name, the name is bound there and found again. -/
theorem Exec.bind_then_lookup_apply {s : State} {a : Scope} (ha : s.scopes[i]? = some a)
    (hg : t ∉ a.globals) (hn : t ∉ a.nonlocals) (w : Value) (n : Nat) (f : Value → Exec α)
    {scopes : Array Scope}
    (hscopes : scopes = s.scopes.modify i fun a => { a with vars := a.vars.set t w }) :
    (Exec.bind (some i) t w >>= fun _ => Exec.charge n >>= fun _ => Exec.lookup (some i) t >>= f) s =
      if s.fuel < n then .error (.halt .fuelExhausted) { s with scopes, fuel := 0 }
      else f w { s with scopes, fuel := s.fuel - n } := by
  subst hscopes
  let scopes := s.scopes.modify i fun a => { a with vars := a.vars.set t w }
  have hbind : Exec.bind (some i) t w s = .ok () { s with scopes } := by
    rw [Exec.bind_some_apply ha, if_neg hg, if_neg hn]
    rfl
  have hlookup (fuel : Nat) : Exec.lookup (some i) t { s with scopes, fuel } =
      .ok w { s with scopes, fuel } := by
    have hscope : scopes[i]? = some { a with vars := a.vars.set t w } := by
      rw [Array.getElem?_modify, if_pos rfl, ha]
      rfl
    unfold Exec.lookup
    simp [Exec.lookupLocal, hscope, hg, Bindings.get?_set]
  rw [Exec.bind_apply, hbind]
  dsimp only
  rw [Exec.bind_apply, Exec.charge_apply]
  by_cases hfuel : s.fuel < n
  · rw [if_pos hfuel, if_pos hfuel]
  · rw [if_neg hfuel, if_neg hfuel]
    dsimp only
    rw [Exec.bind_apply, hlookup]

namespace Parts

variable {hidden : List String} {leaves : α → Prop} {x y : Exec α}

/-- The second run may pay more. -/
theorem paying (h : Parts hidden swaps i leaves x y) (m : Nat) :
    Parts hidden swaps i leaves x (Exec.charge m >>= fun _ => y) := by
  intro W s F hat hF
  refine (h W s F hat hF).imp id ?_
  rintro ⟨W', F', hW', hF', hample⟩
  refine ⟨W', F', hW', hF', fun spare => ?_⟩
  obtain ⟨need, hneed⟩ := hample spare
  refine ⟨need + m, fun fuel hfuel => ?_⟩
  rw [Exec.bind_apply, Exec.charge_under (by omega)]
  exact hneed (fuel - m) (by omega)

/-- The first run binds the name and looks it up for the last time, the second one has the value. -/
theorem folded {w : Value} {f : Value → Exec α} {z : Exec α} (n : Nat)
    (hf : Attains [t] swaps (some i) .ended (f w) z) (hleaves : ∀ s, Ending.Leaves leaves (f w s)) :
    Parts [t] swaps i leaves
      (Exec.bind (some i) t w >>= fun _ => Exec.charge n >>= fun _ => Exec.lookup (some i) t >>= f)
      z := by
  intro W s F hat hF
  obtain ⟨a, b, ha, -, hab⟩ := hF.scopes i .running hat
  obtain ⟨hg, hn⟩ := hab.own t (List.mem_singleton_self t)
  rw [Exec.bind_then_lookup_apply ha hg hn w n f rfl]
  split
  · exact .inl ⟨_, rfl, rfl⟩
  · have hclosed : Stages.At (W.close i) (some i) .ended := by
      show (W.close i)[i]? = some .ended
      rw [Stages.getElem?_close, if_neg (Nat.lt_irrefl i), show W[i]? = some Stage.running from hat]
      rfl
    have hbound := hF.setHidden hat (List.mem_singleton_self t) w
    -- With the name bound, the call is over but for what comes next.
    refine (hf (W.close i) _ F hclosed hbound).imp id ?_
    rintro ⟨W', F', hW', hF', hample⟩
    exact ⟨W', F', .inr ⟨hW', hleaves _⟩, hF', hample⟩

end Parts

/-! ## Folding an assignment into a return -/

/-- An assignment is folded into the return after it, whose expression leads with the name. -/
inductive Folds (t : String) : Block → Block → Prop
  | intro {v e : Expr} (note : Option String) (after : Block) (hv : v.isStarred = false)
    (he : e.leads t = true) :
    Folds t (.assign [.name t] v note :: .ret (some e) :: after)
      (.ret (some (e.substitute t v)) :: after)

theorem Ending.leaves_ret (x : Exec Value) (s : State) :
    Ending.Leaves Parts.Returns ((x >>= fun v => pure (Flow.ret v)) s) := by
  rw [Exec.bind_apply]
  cases x s with
  | ok v t => exact ⟨v, rfl⟩
  | error e t => trivial

/-- An assignment to a name before the rest of a block. -/
theorem execBlock_assign (call : Call) (env : Env) (v : Expr) (note : Option String) (rest : Block) :
    execBlock call env (.assign [.name t] v note :: rest) =
      (Exec.charge 1 >>= fun _ => eval call env v >>= fun w => Exec.bind env t w >>= fun _ =>
        execBlock call env rest) := by
  simp only [execBlock, exec, assign, List.forM_eq_forM, List.forM_cons, List.forM_nil, bind_assoc,
    pure_bind]

namespace Attains

/-- Where an assignment is folded into a return, the runs part at the end of the call. -/
theorem Calls.folds (h : Calls [t] swaps call call') {b b' : Block} (hb : Folds t b b')
    (hfits : FitsIn [t] .running (Block.nodes b)) : PartsIn [t] swaps call call' i b b' := by
  cases hb with
  | @intro v e note after hv he =>
    simp only [Block.nodes, Stmt.nodesList, Stmt.nodes, fitsIn_cons, fitsIn_append, fitsIn_exprNodes,
      fits_append] at hfits
    obtain ⟨n, m, f, k, hx, hy, hrest⟩ := h.awaits i hv e he
    have hvalue := h.eval (some i) v hfits.1.2.1
    have hret (call : Call) (e : Expr) : Machine.execBlock call (some i) (.ret (some e) :: after) =
        (Exec.charge 1 >>= fun _ => Machine.eval call (some i) e >>= fun v => pure (Flow.ret v)) := by
      simp only [Machine.execBlock, Machine.exec, Machine.evalOption, bind_assoc, pure_bind,
        Option.getD_some]
    rw [PartsIn, execBlock_assign, hret, hret, substitute_eq_map, hx, hy]
    refine .after (charge 1) fun _ => ?_
    simp only [bind_assoc, Exec.charge_bind_charge]
    refine Parts.paying (.after hvalue fun w => ?_) m
    exact Parts.folded (1 + n) ((hrest w).bind fun u => ret (Flow.ret u)) (Ending.leaves_ret (f w))

end Attains

/-! ## What is folded fits -/

section Fits

variable {hidden : List String}

mutual

/-- A value that fits is put in the place of a name. -/
theorem fits_map (hv : Fits hidden .running v.subterms) : (e : Expr) → e.leads t = true →
    Fits hidden .running e.subterms → Fits hidden .running (e.map (replaceName t v)).subterms
  | .name n, he, _ => by
    rw [leads, beq_iff_eq] at he
    rw [map, replaceName, if_pos he]
    exact hv
  | .unary op a, he, h => by
    rw [leads] at he
    simp only [map, replaceName, subterms, fits_cons] at h ⊢
    exact ⟨rfl, fits_map hv a he h.2⟩
  | .attribute a n, he, h => by
    rw [leads] at he
    simp only [map, replaceName, subterms, fits_cons] at h ⊢
    exact ⟨rfl, fits_map hv a he h.2⟩
  | .bin op l r, he, h => by
    simp only [leads, Bool.or_eq_true, Bool.and_eq_true] at he
    simp only [map, replaceName, subterms, fits_cons, fits_append] at h ⊢
    obtain ⟨hl, hr⟩ | ⟨hl, hr⟩ := he
    · rw [replaceName_eq_self hr]
      exact ⟨rfl, fits_map hv l hl h.2.1, h.2.2⟩
    · rw [map_of_isConstant hl]
      exact ⟨rfl, h.2.1, fits_map hv r hr h.2.2⟩
  | .logic op l r, he, h => by
    simp only [leads, Bool.and_eq_true] at he
    simp only [map, replaceName, subterms, fits_cons, fits_append] at h ⊢
    rw [replaceName_eq_self he.2]
    exact ⟨rfl, fits_map hv l he.1 h.2.1, h.2.2⟩
  | .compare l links, he, h => by
    simp only [leads, Bool.or_eq_true, Bool.and_eq_true] at he
    simp only [map, replaceName, subterms, fits_cons, fits_append] at h ⊢
    obtain ⟨hl, hlinks⟩ | ⟨hl, hlinks⟩ := he
    · rw [mapLinks_eq_self links (replaceName_of_without hlinks)]
      exact ⟨rfl, fits_map hv l hl h.2.1, h.2.2⟩
    · rw [map_of_isConstant hl]
      exact ⟨rfl, h.2.1, fits_mapLinks hv links hlinks h.2.2⟩
  | .subscript a i, he, h => by
    simp only [leads, Bool.and_eq_true] at he
    simp only [map, replaceName, subterms, fits_cons, fits_append] at h ⊢
    rw [replaceName_eq_self he.2]
    exact ⟨rfl, fits_map hv a he.1 h.2.1, h.2.2⟩
  | .list items, he, h | .tuple items, he, h | .set items, he, h => by
    rw [leads] at he
    simp only [map, replaceName, subterms, fits_cons] at h ⊢
    exact ⟨rfl, fits_mapList hv items he h.2⟩
  | .dict entries, he, h => by
    rw [leads] at he
    simp only [map, replaceName, subterms, fits_cons] at h ⊢
    exact ⟨rfl, fits_mapEntries hv entries he h.2⟩
  | .ifExp c a b, he, h => by
    simp only [leads, Bool.and_eq_true] at he
    simp only [map, replaceName, subterms, fits_cons, fits_append] at h ⊢
    rw [replaceName_eq_self he.2.1, replaceName_eq_self he.2.2]
    exact ⟨rfl, fits_map hv c he.1 h.2.1, h.2.2⟩
  | .call _ _, he, _ | .slice _ _ _, he, _ | .comp _ _ _ _, he, _ | .lambda _ _, he, _
  | .starred _, he, _ | .int _, he, _ | .float _, he, _ | .str _, he, _ | .bool _, he, _
  | .none, he, _ | .verbatim _, he, _ => by
    simp [leads] at he

theorem fits_mapList (hv : Fits hidden .running v.subterms) : (items : List Expr) →
    leadsItems t items = true → Fits hidden .running (subtermsList items) →
    Fits hidden .running (subtermsList (mapList (replaceName t v) items))
  | [], _, _ => nofun
  | e :: items, he, h => by
    have hkept (hitems : without t (subtermsList items) = true) :
        mapList (replaceName t v) items = items :=
      mapList_eq_self items (replaceName_of_without hitems)
    simp only [mapList, subtermsList, fits_append] at h ⊢
    cases e with
    | starred a =>
      simp only [leadsItems, Bool.and_eq_true] at he
      simp only [map, replaceName, subterms, fits_cons] at h ⊢
      rw [hkept he.2]
      exact ⟨⟨rfl, fits_map hv a he.1 h.1.2⟩, h.2⟩
    | _ =>
      rw [leadsItems, Bool.or_eq_true, Bool.and_eq_true, Bool.and_eq_true] at he
      · obtain ⟨he, hitems⟩ | ⟨he, hitems⟩ := he
        · rw [hkept hitems]
          exact ⟨fits_map hv _ he h.1, h.2⟩
        · rw [map_of_isConstant he]
          exact ⟨h.1, fits_mapList hv items hitems h.2⟩
      all_goals simp

theorem fits_mapLinks (hv : Fits hidden .running v.subterms) : (links : List (CmpOp × Expr)) →
    leadsLinks t links = true → Fits hidden .running (subtermsLinks links) →
    Fits hidden .running (subtermsLinks (mapLinks (replaceName t v) links))
  | [], _, _ => nofun
  | (op, e) :: links, he, h => by
    simp only [leadsLinks, Bool.and_eq_true] at he
    simp only [mapLinks, subtermsLinks, fits_append] at h ⊢
    rw [mapLinks_eq_self links (replaceName_of_without he.2)]
    exact ⟨fits_map hv e he.1 h.1, h.2⟩

theorem fits_mapEntries (hv : Fits hidden .running v.subterms) : (entries : List (Expr × Expr)) →
    leadsEntries t entries = true → Fits hidden .running (subtermsEntries entries) →
    Fits hidden .running (subtermsEntries (mapEntries (replaceName t v) entries))
  | [], _, _ => nofun
  | (k, w) :: entries, he, h => by
    simp only [leadsEntries, Bool.or_eq_true, Bool.and_eq_true] at he
    simp only [mapEntries, subtermsEntries, fits_append] at h ⊢
    rw [mapEntries_eq_self entries (replaceName_of_without he.2)]
    obtain ⟨hk, hw⟩ | ⟨hk, hw⟩ := he.1
    · rw [replaceName_eq_self hw]
      exact ⟨fits_map hv k hk h.1, h.2⟩
    · rw [map_of_isConstant hk]
      exact ⟨h.1, fits_map hv w hw h.2.1, h.2.2⟩

end

theorem Folds.fitsIn {b b' : Block} (hb : Folds t b b') (h : FitsIn hidden .running (Block.nodes b)) :
    FitsIn hidden .running (Block.nodes b') := by
  cases hb with
  | @intro v e note after hv he =>
    simp only [Block.nodes, Stmt.nodesList, Stmt.nodes, subtermsOption, fitsIn_cons, fitsIn_append,
      fitsIn_exprNodes, fits_append] at h ⊢
    rw [substitute_eq_map]
    exact ⟨⟨rfl, fits_map h.1.2.1 e he h.2.1.2⟩, h.2.2⟩

/-- A change inside a block that keeps what fits. -/
theorem fitsIn_of_inside {R : Block → Block → Prop}
    (hR : ∀ b b', R b b' → FitsIn hidden .running (Block.nodes b) →
      FitsIn hidden .running (Block.nodes b'))
    {b b' : Block} (hb : Block.Inside R b b') (h : FitsIn hidden .running (Block.nodes b)) :
    FitsIn hidden .running (Block.nodes b') := by
  induction hb with
  | here hb => exact hR _ _ hb h
  | later _ _ ih =>
    simp only [Block.nodes, Stmt.nodesList, fitsIn_append] at h ih ⊢
    exact ⟨h.1, ih h.2⟩
  | condBody _ _ _ _ ih | condElse _ _ _ _ ih | forBody _ _ _ _ _ ih | forElse _ _ _ _ _ ih
  | whileBody _ _ _ _ ih | whileElse _ _ _ _ ih =>
    simp only [Block.nodes, Stmt.nodesList, Stmt.nodes, fitsIn_cons, fitsIn_append] at h ih ⊢
    grind [Stage.suits, Node.shelters]

end Fits

end Concord.Machine
