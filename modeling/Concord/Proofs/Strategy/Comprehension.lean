import Concord.Proofs.Machine.Turning
import Concord.Proofs.Strategy.Branch
import Concord.Proofs.Strategy.Rewriting
import Concord.Strategy.Build

/-!
# A loop that builds a list

A loop that appends to an empty list, and the comprehension that takes its place. Both go through the
same items: an item is bound to the target, the condition is tested and the element is evaluated, in the
scope of the loop or in a scope of the comprehension inside it. So the runs keep in step (`Turning`), turn
by turn and then over all items.

The loop looks up its accumulator at every turn. This is the list it began with only if binding a name
and looking it up meet, which they do not in a scope that has a variable and declares it nonlocal too.

Main statements:

* `execBlock_comprehension`: the comprehension builds the list of the loop and leaves the rest alike.
* `execBlock_comprehension_nonlocal`: without its condition on names this is wrong.
-/

namespace Concord.Machine

open Strategy (collapse comprehension)
open Turning (Gathers collected)

variable {s s' : State} {env : Env} {acc : String} {targets : List String} {block body : Block}
  {i c levels : Nat} {b : Idiom.LoopBuild} {e target iter element : Expr} {condition : Option Expr}

/-! ## The idiom -/

/-- Without functions written in place. -/
def Expr.isLambdaFree (e : Expr) : Bool := !e.subterms.any (· matches .lambda _ _)

/-- A pure expression without functions in it, where the accumulator does not occur, is calm. -/
theorem calm_subterms (hpure : e.isPure) (hlambda : Expr.isLambdaFree e)
    (hacc : acc ∉ e.nameOccurrences) : Calm acc e.subterms := by
  intro t ht
  have hcall : e.isCallFree := (Bool.and_eq_true_iff.mp hpure).1
  simp only [Expr.isCallFree, Expr.isLambdaFree, Bool.not_eq_true', List.any_eq_false] at hcall hlambda
  have hname : ∀ n, t = .name n → n ≠ acc := by
    rintro n rfl rfl
    exact hacc (List.mem_filterMap.mpr ⟨_, ht, rfl⟩)
  cases t with
  | name n => simpa [Expr.isCalm] using hname n rfl
  | call _ _ => exact absurd rfl (hcall _ ht)
  | lambda _ _ => exact absurd rfl (hlambda _ ht)
  | _ => rfl

theorem eq_of_isName (h : e.isName acc) : e = .name acc := by
  unfold Expr.isName at h
  split at h <;> simp_all

theorem eq_of_appended? {step : Stmt} (h : Idiom.appended? acc step = some element) :
    step = .expr (.call (.attribute (.name acc) "append") [.positional element]) := by
  unfold Idiom.appended? at h
  split at h
  · split at h
    · rename_i hattr
      simp only [Bool.and_eq_true, decide_eq_true_eq] at hattr
      cases h
      rw [hattr.1, eq_of_isName hattr.2]
    · cases h
  · cases h

theorem eq_of_isEmptyList (h : Idiom.isEmptyList e) : e = .list [] := by
  unfold Idiom.isEmptyList at h
  split at h
  · rfl
  · cases h

theorem take_two_drop {x y : Stmt} (hx : block[i]? = some x) (hy : block[i + 1]? = some y) :
    (block.drop i).take 2 = [x, y] := by
  obtain ⟨hi, rfl⟩ := List.getElem?_eq_some_iff.mp hx
  obtain ⟨hj, rfl⟩ := List.getElem?_eq_some_iff.mp hy
  rw [List.drop_eq_getElem_cons hi, List.drop_eq_getElem_cons hj]
  rfl

theorem le_length_of_take_two {x y : Stmt} (h : (block.drop i).take 2 = [x, y]) : i ≤ block.length := by
  have hlength := congrArg List.length h
  simp only [List.length_take, List.length_drop, List.length_cons, List.length_nil] at hlength
  omega

theorem collapse_drop (hi : i ≤ block.length) (value : Expr) :
    ((collapse block i acc value).drop i).take 1 = [.assign [.name acc] value none] := by
  rw [collapse, List.drop_append_of_le_length (by simp [hi]), List.drop_take_self]
  rfl

/-- What a loop that builds a list looks like. -/
theorem accumulatorLoop?_eq (h : Idiom.accumulatorLoop? block i = some b) :
    ∃ body, (block.drop i).take 2 =
        [.assign [.name b.accumulator] (.list []) none, .forLoop b.target b.iter body []] ∧
      Idiom.stepOf (Idiom.appended? b.accumulator) body = some (b.element, b.condition) ∧
      ∀ e ∈ b.element :: b.iter :: b.target :: b.condition.toList,
        b.accumulator ∉ e.nameOccurrences := by
  unfold Idiom.accumulatorLoop? Idiom.loopBuild? at h
  simp only [Option.bind_eq_bind, Option.bind_eq_some_iff] at h
  obtain ⟨first, hfirst, ⟨acc, value⟩, hassign, second, hsecond, h⟩ := h
  split at h
  · rename_i target iter body
    obtain ⟨⟨element, condition⟩, hstep, h⟩ := Option.bind_eq_some_iff.mp h
    split at h
    · rename_i hguard
      cases h
      have hvalue : value = .list [] := by
        simp only [Bool.and_eq_true] at hguard
        exact eq_of_isEmptyList hguard.1.1.1.1
      rw [Strategy.eq_of_asNameAssign? hassign, hvalue] at hfirst
      refine ⟨body, take_two_drop hfirst hsecond, hstep, ?_⟩
      simp only [Bool.and_eq_true, Bool.not_eq_true', Option.any_eq_false, List.contains_eq_mem,
        decide_eq_false_iff_not] at hguard
      simp only [List.mem_cons, Option.mem_toList]
      rintro e (rfl | rfl | rfl | he)
      · exact hguard.1.1.1.2
      · exact hguard.1.1.2
      · exact hguard.1.2
      · exact hguard.2 e he
    · cases h
  · cases h

mutual

theorem targetNames_subset : (e : Expr) → e.targetNames ⊆ e.subterms.filterMap Expr.asName?
  | .name n => by simp [Expr.targetNames, Expr.subterms, Expr.asName?]
  | .tuple es | .list es => by
    rw [Expr.targetNames, Expr.subterms, List.filterMap_cons]
    exact targetNamesList_subset es
  | .starred a => by
    rw [Expr.targetNames, Expr.subterms, List.filterMap_cons]
    exact targetNames_subset a
  | .int _ | .float _ | .str _ | .bool _ | .none | .bin _ _ _ | .unary _ _ | .logic _ _ _
  | .compare _ _ | .call _ _ | .attribute _ _ | .subscript _ _ | .slice _ _ _ | .set _ | .dict _
  | .comp _ _ _ _ | .ifExp _ _ _ | .lambda _ _ | .verbatim _ => List.nil_subset _
termination_by structural x => x

theorem targetNamesList_subset : (es : List Expr) →
    Expr.targetNamesList es ⊆ (Expr.subtermsList es).filterMap Expr.asName?
  | [] => List.nil_subset _
  | e :: es => by
    rw [Expr.targetNamesList, Expr.subtermsList, List.filterMap_append]
    exact List.append_subset.mpr ⟨
      List.Subset.trans (targetNames_subset e) (List.subset_append_left _ _),
      List.Subset.trans (targetNamesList_subset es) (List.subset_append_right _ _)⟩
termination_by structural x => x

end

/-! ## One turn -/

section

variable (call : Call)

/-- What a comprehension with one value takes for an element. -/
def leafOf (env : Env) (element : Expr) : Exec (Value × Option Value) := do
  let key ← eval call env element
  return (key, ← evalOption call env none)

theorem evalClauses_leafOf : evalClauses call env (leafOf call env element) [] = (do
    let key ← eval call env element
    return [(key, none)]) := by
  simp only [evalClauses, leafOf, evalOption, bind_assoc, pure_bind]

theorem evalConditions_singleton {α : Type} (test : Expr) (x y : Exec α) :
    (do if ← evalConditions call env [test] then x else y) =
      (do if ← Exec.truthy (← eval call env test) then x else y) := by
  simp only [evalConditions, bind_assoc]
  congr
  funext v
  congr
  funext b
  cases b <;> rfl

end

/-- The body of the loop in step with an element of the comprehension. -/
theorem turn (henv : Env.Below s.scopes.size env) (hanswers : s.Answers env acc)
    (hstep : Idiom.stepOf (Idiom.appended? acc) body = some (element, condition))
    (helement : Calm acc element.subterms)
    (hcondition : ∀ test ∈ condition, Calm acc test.subterms) :
    Gathers s env acc targets c c (fun _ => Flow.next) (List.map (collected s.heap.lists.size))
      (execBlock (callAt levels) env body)
      (do
        if ← evalConditions (callAt levels) (some s.scopes.size) condition.toList then
          evalClauses (callAt levels) (some s.scopes.size)
            (leafOf (callAt levels) (some s.scopes.size) element) []
        else return []) := by
  rw [evalClauses_leafOf]
  have hblock {step : Stmt} (h : Idiom.appended? acc step = some element) :
      Gathers s env acc targets c c (fun _ => Flow.next) (List.map (collected s.heap.lists.size))
        (execBlock (callAt levels) env [step])
        (do let key ← eval (callAt levels) (some s.scopes.size) element
            return [(key, none)]) := by
    rw [execBlock_cons, execBlock_nil, eq_of_appended? h]
    exact (Gathers.appended levels henv hanswers helement).ending fun _ => rfl
  unfold Idiom.stepOf at hstep
  split at hstep
  · rename_i test inner
    obtain ⟨a, ha, hpair⟩ := Option.map_eq_some_iff.mp hstep
    cases hpair
    rw [Option.toList_some, evalConditions_singleton, execBlock_cons, execBlock_nil, exec, andThen_bind]
    refine .charged ?_
    rw [andThen_bind]
    refine .after (fun built => Turning.evalBoth (hcondition _ rfl)) fun v => ?_
    rw [andThen_bind]
    refine .after (fun built => Pace.truthy v) fun holds => ?_
    cases holds with
    | true => exact (hblock ha).ending fun _ => rfl
    | false => exact .nothing rfl Flow.next
  · obtain ⟨a, ha, hpair⟩ := Option.map_eq_some_iff.mp hstep
    cases hpair
    exact hblock ha
  · cases hstep

/-- The loop in step with the clause of the comprehension. -/
theorem loop (henv : Env.Below s.scopes.size env) (hanswers : s.Answers env acc)
    (htargets : ∀ m ∈ targets, m ≠ acc ∧ s.Answers env m)
    (hstep : Idiom.stepOf (Idiom.appended? acc) body = some (element, condition))
    (helement : Calm acc element.subterms) (hiter : Calm acc iter.subterms)
    (hcondition : ∀ test ∈ condition, Calm acc test.subterms)
    (htarget : OfNames target.subterms) (hsub : target.targetNames ⊆ targets) :
    Gathers s env acc targets c c (fun _ => Flow.next) (List.map (collected s.heap.lists.size))
      (execBlock (callAt levels) env [.forLoop target iter body []])
      (evalClauses (callAt levels) (some s.scopes.size)
        (leafOf (callAt levels) (some s.scopes.size) element) [⟨target, iter, condition.toList⟩]) := by
  rw [execBlock_cons, execBlock_nil, exec, andThen_bind, evalClauses]
  refine .charged ?_
  rw [andThen_bind]
  refine .after (fun built => Turning.evalBoth hiter) fun v => ?_
  rw [andThen_bind]
  refine .after (fun built => Pace.iterate v) fun vs => ?_
  rw [andThen_bind]
  refine .reshaped (.ending (.items (fun v => ?_) vs) fun _ => ?_) fun ps => rfl
  · exact .after (fun built => Turning.assign _ henv htargets target htarget hsub v) fun _ =>
      turn henv hanswers hstep helement hcondition
  · rfl

/-! ## Where both begin and end -/

theorem forM_assign_name (call : Call) (v : Value) :
    ([Expr.name acc].forM fun target => assign call env target v) = Exec.bind env acc v := by
  rw [← assign.eq_1 call]
  exact bind_pure_unit

theorem exec_init (call : Call) : exec call env (.assign [.name acc] (.list []) none) = (do
    Exec.charge 1
    Exec.charge 1
    let made ← Exec.newList []
    Exec.bind env acc made
    return .next) := by
  simp only [exec, eval, evalItems, forM_assign_name, bind_assoc, pure_bind]

theorem exec_comprehension (call : Call) (b : Idiom.LoopBuild) :
    exec call env (.assign [.name acc] (comprehension .list b) none) = (do
      Exec.charge 1
      Exec.charge 1
      let inner ← Exec.newScope { parent := env }
      let produced ← evalClauses call (some inner) (leafOf call (some inner) b.element)
        [⟨b.target, b.iter, b.condition.toList⟩]
      let made ← Exec.newList (produced.map (·.1))
      Exec.bind env acc made
      return .next) := by
  simp only [comprehension, exec, eval, comprehended, leafOf, forM_assign_name, bind_assoc]

/-- An initializer that came to its end, with what was run after it. -/
theorem of_exec_init {call : Call} {rest : Block} {flow : Flow}
    (h : execBlock call env (.assign [.name acc] (.list []) none :: rest) s = .ok flow s') :
    2 ≤ s.fuel ∧ execBlock call env rest (s.collecting env acc (s.fuel - 2)) = .ok flow s' := by
  rw [execBlock_cons, exec_init] at h
  simp only [andThen_bind] at h
  obtain ⟨hfirst, h⟩ := Exec.of_charge h
  obtain ⟨hsecond, h⟩ := Exec.of_charge h
  dsimp only at hsecond
  refine ⟨by omega, ?_⟩
  -- the two payments, the new list and the binding, in one state
  have hmade : (Exec.newList [] >>= Exec.bind env acc) { s with fuel := s.fuel - 1 - 1 } =
      .ok () (s.collecting env acc (s.fuel - 2)) := by
    rw [Exec.bind_apply]
    exact State.bind_eq_write _ _ _ _
  rw [← bind_assoc, Exec.bind_apply] at h
  dsimp only at h
  rw [hmade] at h
  exact h

/-- The comprehension, once it has paid for a statement and an expression and made its scope. -/
theorem exec_comprehension_apply {call : Call} (b : Idiom.LoopBuild) {F : Nat} (hfuel : 2 ≤ F) :
    exec call env (.assign [.name acc] (comprehension .list b) none) { s with fuel := F } = (do
      let produced ← evalClauses call (some s.scopes.size)
        (leafOf call (some s.scopes.size) b.element) [⟨b.target, b.iter, b.condition.toList⟩]
      let made ← Exec.newList (produced.map Prod.fst)
      Exec.bind env acc made
      return Flow.next) (s.inside env (F - 2)) := by
  rw [exec_comprehension, Exec.charge_bind (by dsimp only; omega),
    Exec.charge_bind (by dsimp only; omega)]
  rfl

/-- What both leave behind that began at `s`: the loop at `S`, the comprehension at `T`. The loop made
its list first, at place `n`, and the comprehension made its list last, at place `r`; a list that the
comprehension has at another place `q` is at `pastRef n q` in the loop. -/
structure BuiltAlike (s : State) (env : Env) (acc : String) (targets : List String) (n r : Ref)
    (S T : State) : Prop where
  fresh : n ≤ r
  bound : S.held? (s.place env acc) acc = some (.list n) ∧
    T.held? (s.place env acc) acc = some (.list r)
  found : S.found? env acc = some (.list n) ∧ T.found? env acc = some (.list r)
  elements : S.heap.list n = (T.heap.list r).map (·.past n)
  list : ∀ q ≠ r, S.heap.list (pastRef n q) = (T.heap.list q).map (·.past n)
  tuple : ∀ q, S.heap.tuple q = (T.heap.tuple q).map (·.past n)
  set : ∀ q, S.heap.set q = (T.heap.set q).map (·.past n)
  dict : ∀ q, S.heap.dict q = (T.heap.dict q).map (entryPast n)
  left : ∀ p m, Env.Below s.scopes.size p → m ∉ acc :: targets ∨ s.place env m ≠ p →
    S.held? p m = s.held? p m
  right : ∀ p m, Env.Below s.scopes.size p → m ≠ acc ∨ s.place env m ≠ p →
    T.held? p m = s.held? p m

/-- The comprehension made its list of what the loop has collected. -/
theorem Turning.finish {S T : State} {produced : List (Value × Option Value)}
    (henv : Env.Below s.scopes.size env) (hanswers : s.Answers env acc)
    (h : Turning s env acc targets (produced.map (collected s.heap.lists.size)) S T) :
    ∃ t', (do
        let made ← Exec.newList (produced.map Prod.fst)
        Exec.bind env acc made
        return Flow.next) T = .ok .next t' ∧
      BuiltAlike s env acc targets s.heap.lists.size T.heap.lists.size S t' := by
  have hplace : Env.Below s.scopes.size (s.place env acc) := State.within_place henv
  have hheap := h.states.heap
  -- the state of the comprehension with its list, before the accumulator is bound to it
  obtain ⟨T₁, hT₁, hmade, hglobals, hscopes⟩ :
      ∃ T₁ : State, T₁.heap = { T.heap with lists := T.heap.lists.push (produced.map Prod.fst) } ∧
        Exec.newList (produced.map Prod.fst) T = .ok (.list T.heap.lists.size) T₁ ∧
        T₁.globals = T.globals ∧ T₁.scopes = T.scopes := ⟨_, rfl, rfl, rfl, rfl⟩
  have hkeeps (m : String) : s.Keeps s.scopes.size m T₁ :=
    (h.same m).trans (.of_eq (h.same m).right hglobals hscopes)
  have hbound := (hkeeps acc).write (s.place env acc) (.list T.heap.lists.size)
  refine ⟨T₁.write (s.place env acc) acc (.list T.heap.lists.size), ?_, ?_⟩
  · rw [Exec.bind_apply, hmade]
    dsimp only
    rw [Exec.bind_apply, State.bind_eq_write, (hkeeps acc).place_eq h.nested henv]
    rfl
  have hlist (q : Ref) : (T₁.write (s.place env acc) acc (.list T.heap.lists.size)).heap.list q =
      if q = T.heap.lists.size then produced.map Prod.fst else T.heap.list q := by
    rw [State.heap_write, hT₁]
    exact Heap.getD_push _ _ _
  constructor
  case fresh => exact hheap.room
  case bound =>
    constructor
    · rw [h.accumulator.held?_eq hplace, State.held?_write hplace]
    · rw [hbound.held?_eq hplace, State.held?_write hplace]
  case found =>
    constructor
    · rw [h.accumulator.found?_eq (h.nested.write _ _ _) henv, hanswers]
    · rw [hbound.found?_eq (h.nested.write _ _ _) henv, hanswers]
  case elements =>
    rw [hlist, if_pos rfl, List.map_map]
    exact hheap.built
  case list =>
    intro q hq
    rw [hlist, if_neg hq]
    exact hheap.list q
  case tuple =>
    rw [State.heap_write, hT₁]
    exact hheap.tuple
  case set =>
    rw [State.heap_write, hT₁]
    exact hheap.set
  case dict =>
    rw [State.heap_write, hT₁]
    exact hheap.dict
  case left =>
    rintro p m hp hm
    by_cases hin : m ∈ acc :: targets
    · exact (h.rebound m (List.mem_cons.mp hin)).held?_eq hp (hm.resolve_left (not_not_intro hin))
    · rw [List.mem_cons, not_or] at hin
      exact (h.kept m hin.1 hin.2).held?_eq hp
  case right =>
    rintro p m hp hm
    by_cases hacc : m = acc
    · subst hacc
      rw [State.held?_write_of_ne (hm.resolve_left (not_not_intro rfl)), (hkeeps m).held?_eq hp]
    · exact ((hkeeps m).trans (State.keeps_write_of_ne (hkeeps m).right (Ne.symm hacc))).held?_eq hp

/-- A list comprehension builds the list that the loop builds. Let the initializer and the loop at a
place of a block come to their end from a state `s`, with pure parts and a target of names. Then the
assignment that replaces them, with as much fuel, comes to its end; the accumulator is bound to a list
of the same elements in the same order, and apart from it and the targets all variables are alike, and
so are all lists, tuples, sets and dictionaries. That binding a name and looking it up meet
(`State.Answers`) is needed, see `execBlock_comprehension_nonlocal`. -/
theorem execBlock_comprehension {F : Nat} (hloop : Idiom.accumulatorLoop? block i = some b)
    (hpure : ∀ e ∈ b.element :: b.iter :: b.condition.toList, e.isPure ∧ Expr.isLambdaFree e)
    (htarget : OfNames b.target.subterms) (hs : s.Whole) (henv : Env.Below s.scopes.size env)
    (hanswers : ∀ m ∈ b.accumulator :: b.target.targetNames, s.Answers env m)
    (hsmall : s.heap.containers + s.fuel ≤ 0x80000000)
    (hrun : execBlock (callAt levels) env ((block.drop i).take 2) s = .ok .next s') (hF : s.fuel ≤ F) :
    ∃ r t', execBlock (callAt levels) env
        (((collapse block i b.accumulator (comprehension .list b)).drop i).take 1)
        { s with fuel := F } = .ok .next t' ∧
      BuiltAlike s env b.accumulator b.target.targetNames s.heap.lists.size r s' t' := by
  obtain ⟨body, hblock, hstep, hmentions⟩ := accumulatorLoop?_eq hloop
  have hcalm (e : Expr) (he : e ∈ b.element :: b.iter :: b.condition.toList) :
      Calm b.accumulator e.subterms :=
    calm_subterms (hpure e he).1 (hpure e he).2 (hmentions e (by grind))
  have hacc := hanswers _ List.mem_cons_self
  have htargets : ∀ m ∈ b.target.targetNames, m ≠ b.accumulator ∧ s.Answers env m := by
    rintro m hm
    refine ⟨fun he => hmentions b.target (by simp) ?_, hanswers m (List.mem_cons_of_mem _ hm)⟩
    exact targetNames_subset b.target (he ▸ hm)
  rw [hblock] at hrun
  obtain ⟨hfuel, hrun⟩ := of_exec_init hrun
  have hroom : State.Room 0 (s.collecting env b.accumulator (s.fuel - 2)) := by
    unfold State.Room State.collecting
    rw [State.heap_write, State.fuel_write]
    simp only [Heap.containers, Array.size_push] at hsmall ⊢
    omega
  obtain ⟨produced, T, hx, -, hst, -⟩ := loop henv hacc htargets hstep (hcalm _ (by simp))
    (hcalm _ (by simp)) (fun e he => hcalm e (by simp_all)) htarget (List.Subset.refl _) [] _ _
    (Turning.start hs henv (Nat.sub_le_sub_right hF 2)) hroom .next s' hrun
  obtain ⟨t', ht', hbuilt⟩ := hst.finish henv hacc
  refine ⟨_, t', ?_, hbuilt⟩
  rw [collapse_drop (le_length_of_take_two hblock), execBlock_cons, execBlock_nil, andThen_apply,
    exec_comprehension_apply b (Nat.le_trans hfuel hF), Exec.bind_apply, hx]
  dsimp only
  rw [ht']
  rfl

/-- The step comes to its normal end. -/
def goesOn (x : Exec Flow) (s : State) : Bool :=
  match x s with
  | .ok .next _ => true
  | _ => false

theorem exists_of_goesOn {x : Exec Flow} {s : State} (h : goesOn x s = true) :
    ∃ t, x s = .ok .next t := by
  unfold goesOn at h
  split at h
  · next t ht => exact ⟨t, ht⟩
  · cases h

/-- Of three numbers those that count as true, in the scope of a function. -/
theorem execBlock_comprehension_truthy :
    let block : Block := [.assign [.name "out"] (.list []) none,
      .forLoop (.name "x") (.tuple [.int 1, .int 0, .int 3]) [.cond (.name "x")
        [.expr (.call (.attribute (.name "out") "append") [.positional (.name "x")])] []] []]
    let b : Idiom.LoopBuild :=
      ⟨"out", .name "x", .tuple [.int 1, .int 0, .int 3], .name "x", some (.name "x")⟩
    let s : State := { State.initial ⟨100, 1⟩ with scopes := #[{}] }
    Idiom.accumulatorLoop? block 0 = some b ∧
      ∃ s' r t', execBlock (callAt 1) (some 0) block s = .ok .next s' ∧
        execBlock (callAt 1) (some 0) (collapse block 0 "out" (comprehension .list b)) s =
          .ok .next t' ∧
        BuiltAlike s (some 0) "out" ["x"] 0 r s' t' := by
  intro block b s
  have hloop : Idiom.accumulatorLoop? block 0 = some b := rfl
  have hscope {i : Nat} {a : Scope} (ha : s.scopes[i]? = some a) : a = {} := by
    match i with
    | 0 => exact (Option.some.inj ha).symm
    | i + 1 => cases ha
  have hs : s.Whole := by
    refine ⟨fun i _ a ha => ?_, nofun, fun i a ha => ?_, nofun, nofun, nofun, nofun⟩
    · rw [hscope ha]
      trivial
    · rw [hscope ha]
      exact nofun
  have henv : Env.Below s.scopes.size (some 0) := Nat.one_pos
  obtain ⟨s', hs'⟩ := exists_of_goesOn (x := execBlock (callAt 1) (some 0) block) (s := s) (by decide +kernel)
  obtain ⟨r, t', ht', halike⟩ := execBlock_comprehension (F := 100) hloop (by decide) (by decide) hs henv
    (fun m _ => State.answers_of_notMem (fun i a _ ha => by simp [hscope ha]) henv) (by decide) hs'
    (Nat.le_refl _)
  exact ⟨hloop, s', r, t', hs', ht', halike⟩

/-- How many items the list has that a variable is bound to after a run that came to its end. -/
def lengthAt (p : Env) (n : String) (x : Exec Flow) (s : State) : Option Nat :=
  match x s with
  | .ok .next t =>
    match t.held? p n with
    | some (.list r) => some (t.heap.list r).length
    | _ => none
  | _ => none

/-- Where a scope has a variable of its own and then declares the name nonlocal, the loop binds the
variable around it and appends to its own list; the comprehension binds what it has built. -/
theorem execBlock_comprehension_nonlocal :
    let block : Block := [.assign [.name "out"] (.list []) none,
      .forLoop (.name "x") (.tuple [.int 1])
        [.expr (.call (.attribute (.name "out") "append") [.positional (.name "x")])] []]
    let b : Idiom.LoopBuild := ⟨"out", .name "x", .tuple [.int 1], .name "x", none⟩
    let s : State := { State.initial ⟨100, 1⟩ with
      heap := { lists := #[[]] }
      scopes := #[{ vars := [("out", .int 0)] },
        { vars := [("out", .list 0)], parent := some 0, nonlocals := ["out"] }] }
    Idiom.accumulatorLoop? block 0 = some b ∧
      lengthAt (some 0) "out" (execBlock (callAt 1) (some 1) block) s = some 0 ∧
      lengthAt (some 0) "out"
        (execBlock (callAt 1) (some 1) (collapse block 0 "out" (comprehension .list b))) s =
          some 1 := by
  intro block b s
  exact ⟨rfl, by decide +kernel, by decide +kernel⟩

end Concord.Machine
