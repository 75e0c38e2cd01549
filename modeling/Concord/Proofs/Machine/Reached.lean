import Concord.Machine.Datum
import Concord.Proofs.Machine.Keyed
import Concord.Source.Statement

/-!
# The heaps that a session reaches

A session loads a module, takes data from outside and calls functions of the module with it, with any
budgets. However the steps end, the states between them are sound (`Reached.sound`): in all heaps the
members of sets and the keys of dictionaries are hashable, no two members of a set are equal, and no two
keys of a dictionary are equal if no call of the module passes two arguments under one name
(`reached_keys`).
-/

namespace Concord.Machine

variable {α β : Type} {strict : Prop} {call : Call} {h k : Heap}

/-! ## Calls -/

theorem Yields.deeper [Tracked α] {x : Exec α} (hx : Tracks strict h x) : Tracks strict h (deeper x) := by
  refine start fun k _ hle => ?_
  refine (change (f := fun s => { s with depth := s.depth + 1 }) fun _ => ⟨rfl, rfl, rfl⟩).track ?_
  refine fun l _ hle' _ => (attempt (hx.later (hle.trans hle'))).bind fun m r _ hr => ?_
  refine (change (f := fun s => { s with depth := s.depth - 1 }) fun _ => ⟨rfl, rfl, rfl⟩).track ?_
  exact fun n _ hle _ => clean fun a ha => (hr a ha).mono hle

/-- Entering functions keeps states sound, if no name is passed twice. -/
def Enters (strict : Prop) (onClosure : Closure → List Value → Keywords → Exec Value) : Prop :=
  ∀ (k : Heap) (c : Closure) (args : List Value) (keywords : Keywords), c.Sound strict k → Backed k args →
    Backed k keywords → (strict → (keywords.map Prod.fst).Nodup) → Tracks strict k (onClosure c args keywords)

namespace Serves

open Yields

theorem enter (hcall : Serves strict call) : Enters strict (enter call) := by
  intro k c args keywords hc hargs hkeywords hnames
  refine look fun s _ hle => orStop ?_
  refine (Yields.bindArguments (hc.params.mono hle) (hargs.mono hle) (hkeywords.mono hle) hnames).track ?_
  refine fun l vars _ hvars => (newScope hvars).seq fun scope => .deeper ?_
  have hcode := hc.code
  cases hbody : c.code with
  | block body =>
    rw [hbody] at hcode
    refine (hcall.execBlock (some scope) body hcode).track fun m flow _ hflow => ?_
    cases flow with
    | ret v => exact ret (hflow v rfl)
    | _ => exact ret trivial
  | expr e =>
    rw [hbody] at hcode
    exact hcall.eval (some scope) e hcode

theorem callBy {onClosure : Closure → List Value → Keywords → Exec Value} (henter : Enters strict onClosure)
    (nesting : Nat) : Serves strict (callBy onClosure nesting) := by
  induction nesting with
  | zero => exact fun _ _ _ _ _ _ _ => exhaust
  | succ nesting ih =>
    intro k callee args keywords hargs hkeywords hnames
    have happly : Applies strict fun f xs => Machine.callBy onClosure nesting f xs [] :=
      fun k f xs hxs => ih k f xs [] hxs backed_nil fun _ => .nil
    cases callee with
    | function r =>
      refine look fun s hs hle => ?_
      split
      · rename_i c hc
        exact henter _ c args keywords (hs.heap.closures r c hc) (hargs.mono hle) (hkeywords.mono hle) hnames
      · exact ret trivial
    | builtin b => exact .native happly b hargs hkeywords
    | method receiver name => exact .callMethod happly receiver name hargs keywords
    | exceptionType c =>
      cases args with
      | nil => exact (ret (Q := .nothing _) trivial).seq fun message => newException _
      | cons v args => exact ask.seq fun message => newException _
    | _ => exact throw _

theorem callAt (levels : Nat) : Serves strict (callAt levels) := by
  induction levels with
  | zero =>
    intro k callee args
    exact callBy (fun _ _ _ _ _ _ _ _ => look fun _ _ _ => throw _) _ k callee args
  | succ levels ih =>
    intro k callee args
    exact callBy ih.enter _ k callee args

end Serves

/-! ## Data from outside -/

/-- What a state has more when data have been put into its heap. -/
structure State.Extends (s t : State) : Prop where
  before : s.heap.Before t.heap
  globals : t.globals = s.globals
  scopes : t.scopes = s.scopes
  closures : t.heap.closures = s.heap.closures
  lists : ∀ r, t.heap.list r = s.heap.list r ∨ Backed t.heap (t.heap.list r)
  sets_le : s.heap.sets.size ≤ t.heap.sets.size
  sets : ∀ r, t.heap.set r = s.heap.set r ∨ s.heap.sets.size ≤ r ∧ Backed t.heap (t.heap.set r)
  dicts_le : s.heap.dicts.size ≤ t.heap.dicts.size
  dicts : ∀ r, t.heap.dict r = s.heap.dict r ∨ s.heap.dicts.size ≤ r ∧ Backed t.heap (t.heap.dict r)

theorem State.Extends.trans {s t u : State} (hst : s.Extends t) (htu : t.Extends u) : s.Extends u where
  before := hst.before.trans htu.before
  globals := htu.globals.trans hst.globals
  scopes := htu.scopes.trans hst.scopes
  closures := htu.closures.trans hst.closures
  lists r := by
    rcases htu.lists r with hr | hr
    · rw [hr]
      exact (hst.lists r).imp_right fun hr' => hr'.mono htu.before
    · exact .inr hr
  sets_le := Nat.le_trans hst.sets_le htu.sets_le
  sets r := by
    rcases htu.sets r with hr | hr
    · rw [hr]
      exact (hst.sets r).imp_right fun hr' => ⟨hr'.1, hr'.2.mono htu.before⟩
    · exact .inr ⟨Nat.le_trans hst.sets_le hr.1, hr.2⟩
  dicts_le := Nat.le_trans hst.dicts_le htu.dicts_le
  dicts r := by
    rcases htu.dicts r with hr | hr
    · rw [hr]
      exact (hst.dicts r).imp_right fun hr' => ⟨hr'.1, hr'.2.mono htu.before⟩
    · exact .inr ⟨Nat.le_trans hst.dicts_le hr.1, hr.2⟩

/-- What one thing more does to a store. -/
theorem getD_push_last {xs : Array α} {x d : α} (r : Nat) :
    (xs.push x)[r]?.getD d = xs[r]?.getD d ∨ xs.size ≤ r ∧ (xs.push x)[r]?.getD d = x := by
  rw [Array.getElem?_push]
  split
  · rename_i hr
    exact .inr ⟨Nat.le_of_eq hr.symm, rfl⟩
  · exact .inl rfl

/-- The step puts data into the heap and has a result. -/
def Stores [Tracked α] (h : Heap) (x : Exec α) : Prop :=
  ∀ s : State, h.Before s.heap → ∃ a t, x s = .ok a t ∧ s.Extends t ∧ Backed t.heap a

namespace Stores

theorem ret [Tracked α] {a : α} (ha : Backed h a) : Stores h (pure a) := by
  intro s hle
  have hbefore : s.heap.Before s.heap := .refl hle.layered
  exact ⟨a, s, rfl, ⟨hbefore, rfl, rfl, rfl, fun _ => .inl rfl, Nat.le_refl _, fun _ => .inl rfl,
    Nat.le_refl _, fun _ => .inl rfl⟩, ha.mono hle⟩

theorem bind [Tracked α] [Tracked β] {x : Exec α} {f : α → Exec β} (hx : Stores h x)
    (hf : ∀ k a, h.Before k → Backed k a → Stores k (f a)) : Stores h (x >>= f) := by
  intro s hle
  obtain ⟨a, t, hxs, hst, ha⟩ := hx s hle
  have hbefore : t.heap.Before t.heap := .refl hst.before.layered
  obtain ⟨b, u, hfa, htu, hb⟩ := hf t.heap a (hle.trans hst.before) ha t hbefore
  refine ⟨b, u, ?_, hst.trans htu, hb⟩
  rw [Exec.bind_apply, hxs]
  exact hfa

theorem newList {items : List Value} (hitems : Backed h items) : Stores h (Exec.newList items) := by
  intro s hle
  have hbefore : s.heap.Before { s.heap with lists := s.heap.lists.push items } := ⟨.refl _, hle.layered⟩
  refine ⟨_, _, rfl, ⟨hbefore, rfl, rfl, rfl, fun r => ?_, Nat.le_refl _, fun _ => .inl rfl,
    Nat.le_refl _, fun _ => .inl rfl⟩, trivial⟩
  refine (getD_push r).imp_right fun hr => ?_
  show Backed _ ((s.heap.lists.push items)[r]?.getD [])
  rw [hr]
  exact hitems.mono (hle.trans hbefore)

theorem newTuple {items : List Value} (hitems : Backed h items) : Stores h (Exec.newTuple items) := by
  intro s hle
  refine ⟨_, _, rfl, ⟨before_pushTuple (hitems.mono hle) hle.layered, rfl, rfl, rfl, fun _ => .inl rfl,
    Nat.le_refl _, fun _ => .inl rfl, Nat.le_refl _, fun _ => .inl rfl⟩, ?_⟩
  show s.heap.tuples.size < (s.heap.tuples.push items).size
  rw [Array.size_push]
  exact Nat.lt_succ_self _

theorem newSet {members : List Value} (hmembers : Backed h members) : Stores h (Exec.newSet members) := by
  intro s hle
  have hbefore : s.heap.Before { s.heap with sets := s.heap.sets.push members } := ⟨.refl _, hle.layered⟩
  have hsize : s.heap.sets.size ≤ (s.heap.sets.push members).size := by
    rw [Array.size_push]
    exact Nat.le_succ _
  refine ⟨_, _, rfl, ⟨hbefore, rfl, rfl, rfl, fun _ => .inl rfl, hsize, fun r => ?_, Nat.le_refl _,
    fun _ => .inl rfl⟩, trivial⟩
  refine (getD_push_last r).imp_right fun hr => ⟨hr.1, ?_⟩
  show Backed _ ((s.heap.sets.push members)[r]?.getD [])
  rw [hr.2]
  exact hmembers.mono (hle.trans hbefore)

theorem newDict {entries : Entries} (hentries : Backed h entries) : Stores h (Exec.newDict entries) := by
  intro s hle
  have hbefore : s.heap.Before { s.heap with dicts := s.heap.dicts.push entries } := ⟨.refl _, hle.layered⟩
  have hsize : s.heap.dicts.size ≤ (s.heap.dicts.push entries).size := by
    rw [Array.size_push]
    exact Nat.le_succ _
  refine ⟨_, _, rfl, ⟨hbefore, rfl, rfl, rfl, fun _ => .inl rfl, Nat.le_refl _, fun _ => .inl rfl, hsize,
    fun r => ?_⟩, trivial⟩
  refine (getD_push_last r).imp_right fun hr => ⟨hr.1, ?_⟩
  show Backed _ ((s.heap.dicts.push entries)[r]?.getD [])
  rw [hr.2]
  exact hentries.mono (hle.trans hbefore)

mutual

theorem store : (d : Datum) → ∀ {h : Heap}, Stores h d.store
  | .none | .bool _ | .int _ | .float _ | .str _ | .range _ _ _ => ret trivial
  | .list items => (storeAll items).bind fun _ _ _ hvs => newList hvs
  | .tuple items => (storeAll items).bind fun _ _ _ hvs => newTuple hvs
  | .set items => (storeAll items).bind fun _ _ _ hvs => newSet hvs
  | .dict entries => (storeEntries entries).bind fun _ _ _ hes => newDict hes

theorem storeAll : (ds : List Datum) → ∀ {h : Heap}, Stores h (Datum.storeAll ds)
  | [] => ret backed_nil
  | d :: ds => (store d).bind fun _ _ _ hv => (storeAll ds).bind fun _ _ hle hvs =>
      ret (backed_cons.mpr ⟨hv.mono hle, hvs⟩)

theorem storeEntries : (es : List (Datum × Datum)) → ∀ {h : Heap}, Stores h (Datum.storeEntries es)
  | [] => ret backed_nil
  | (k, v) :: es => (store k).bind fun _ _ _ hk => (store v).bind fun _ _ hle hv =>
      (storeEntries es).bind fun _ _ hle' hes =>
        ret (backed_cons.mpr ⟨⟨(hk.mono hle).mono hle', hv.mono hle'⟩, hes⟩)

end

end Stores

/-! ## Sessions -/

/-- The values may stand together as the keys of a dictionary or the members of a set: they are hashable,
and no two of them are equal. -/
structure Heap.Keys (h : Heap) (keys : List Value) : Prop where
  hashable : ∀ v ∈ keys, h.hashable v = true
  differ : ∀ (i j : Nat) (a b : Value), i ≠ j → keys[i]? = some a → keys[j]? = some b → h.equal a b = false

/-- The states of a session with a module. Data from outside bring no set or dictionary that could not be
there, and arguments are values that there are. -/
inductive Reached (m : Module) : State → Prop
  | loaded (b : Budget) :
    Reached m (Ending.state (execBlock (callAt b.maxDepth) none m.body (State.initial b)))
  | given {s : State} (data : List Datum) : Reached m s →
    (∀ r, s.heap.sets.size ≤ r → (Datum.storeIn data s).2.heap.Keys ((Datum.storeIn data s).2.heap.set r)) →
    (∀ r, s.heap.dicts.size ≤ r →
      (Datum.storeIn data s).2.heap.Keys (((Datum.storeIn data s).2.heap.dict r).map Prod.fst)) →
    Reached m (Datum.storeIn data s).2
  | called {s : State} (b : Budget) (name : String) (args : List Value) : Reached m s →
    (∀ v ∈ args, v.Within s.heap.tuples.size) → Reached m (s.call b name args).2

theorem Heap.Keys.distinct {keys : List Value} (hkeys : h.Keys keys) (hbacked : Backed h keys) :
    h.Distinct strict keys := by
  refine ⟨fun v hv => ⟨hbacked v hv, hkeys.hashable v hv⟩, fun _ => ?_⟩
  refine List.pairwise_iff_getElem.mpr fun i j hi hj hij => ?_
  exact hkeys.differ i j _ _ (Nat.ne_of_lt hij) (List.getElem?_eq_getElem hi) (List.getElem?_eq_getElem hj)

theorem Heap.Distinct.keys {keys : List Value} (hkeys : h.Distinct True keys) : h.Keys keys :=
  ⟨fun v hv => (hkeys.key v hv).hashable, fun _ _ _ _ hij ha hb => hkeys.equal_eq_false hij ha hb⟩

theorem sound_initial (b : Budget) : (State.initial b).Sound strict where
  heap := {
    layered := fun r items hr => by cases hr
    lists := fun r => backed_nil
    sets := fun r => .nil
    dicts := fun r => .nil
    closures := fun r c hr => by cases hr }
  globals := backed_nil
  scopes := fun i scope hi => by cases hi

theorem State.Sound.given {s : State} (hs : s.Sound strict) (data : List Datum)
    (hsets : ∀ r, s.heap.sets.size ≤ r →
      (Datum.storeIn data s).2.heap.Keys ((Datum.storeIn data s).2.heap.set r))
    (hdicts : ∀ r, s.heap.dicts.size ≤ r →
      (Datum.storeIn data s).2.heap.Keys (((Datum.storeIn data s).2.heap.dict r).map Prod.fst)) :
    (Datum.storeIn data s).2.Sound strict := by
  obtain ⟨vs, t, hstore, hst, -⟩ := Stores.storeAll data s hs.heap.before
  have hin : Datum.storeIn data s = (vs, t) := by
    rw [Datum.storeIn, hstore]
  rw [hin] at hsets hdicts ⊢
  have hheap : t.heap.Sound strict := by
    refine hs.heap.next hst.before hst.lists (fun r => ?_) (fun r => ?_) fun r c hc => ?_
    · exact (hst.sets r).imp_right fun hr => (hsets r hr.1).distinct hr.2
    · exact (hst.dicts r).imp_right fun hr =>
        ⟨(hdicts r hr.1).distinct (hr.2.map fun e he => he.1), hr.2.map fun e he => he.2⟩
    · rw [hst.closures] at hc
      exact .inl hc
  refine hs.next hst.before hheap (.inl hst.globals) fun i scope hi => ?_
  rw [hst.scopes] at hi
  exact .inl hi

theorem State.Sound.called {s : State} (hs : s.Sound strict) (b : Budget) (name : String) {args : List Value}
    (hargs : Backed s.heap args) : (s.call b name args).2.Sound strict := by
  by_cases hname : ∃ r, s.globals.get? name = some (.function r)
  · obtain ⟨r, hname⟩ := hname
    rw [State.call_function hname]
    have hrefill : (s.refill b).Sound strict := ⟨hs.heap, hs.globals, hs.scopes⟩
    have hended := Serves.callAt b.maxDepth s.heap (.function r) args [] hargs backed_nil
      (fun _ => .nil) (s.refill b) hrefill hs.heap.before
    have hstate (x : Ending Value) : (Ending.result x).2 = x.state := by
      rcases x with ⟨v, t⟩ | ⟨_ | _, t⟩ <;> rfl
    rw [hstate]
    exact hended.sound
  · rw [State.call_missing hname]
    exact hs

/-- Whatever a session has done, its state is sound. -/
theorem Reached.sound {m : Module} {s : State} (hs : Reached m s)
    (hm : PartsNameOnce strict (Block.nodes m.body)) : s.Sound strict := by
  induction hs with
  | loaded b =>
    have hinitial : (State.initial b).Sound strict := sound_initial b
    have hrun : Tracks strict (State.initial b).heap (execBlock (callAt b.maxDepth) none m.body) :=
      (Serves.callAt b.maxDepth).execBlock none m.body hm
    exact (hrun (State.initial b) hinitial hinitial.heap.before).sound
  | given data _ hsets hdicts ih => exact ih.given data hsets hdicts
  | called b name args _ hargs ih => exact ih.called b name hargs

/-- In all heaps that a session with a module reaches, the members of every set are hashable and no two of
them are equal, and the keys of every dictionary are hashable. If no call in the module passes two
arguments under one name, no two keys of a dictionary are equal either. -/
theorem reached_keys {m : Module} {s : State} (hs : Reached m s) :
    (∀ r, s.heap.Keys (s.heap.set r)) ∧
    (∀ r, ∀ e ∈ s.heap.dict r, s.heap.hashable e.1 = true) ∧
    ((∀ e ∈ Block.exprs m.body, e.namesOnce = true) → ∀ r, s.heap.Keys ((s.heap.dict r).map Prod.fst)) := by
  have hloose : s.Sound False := hs.sound nofun
  refine ⟨fun r => (hloose.heap.sets r).keys, fun r e he => ?_, fun hm r => ?_⟩
  · exact ((hloose.heap.dicts r).keys.key _ (List.mem_map_of_mem he)).hashable
  · have hparts : PartsNameOnce True (Block.nodes m.body) :=
      fun _ e he => hm e (List.mem_filterMap.mpr ⟨.expr e, he, rfl⟩)
    exact ((hs.sound hparts).heap.dicts r).keys.keys


/-- `def f(x): s = {x}; s.add(True); return {x: 0, 1: 1}` called with 1: the member and the key that come
second are equal to the first ones. -/
theorem reached_keys_true :
    let m : Module := ⟨[.define { name := "f", params := [{ name := "x" }], body := [
      .assign [.name "s"] (.set [.name "x"]) none,
      .expr (.call (.attribute (.name "s") "add") [.positional (.bool true)]),
      .ret (some (.dict [(.name "x", .int 0), (.int 1, .int 1)]))] }]⟩
    let start := Ending.state (execBlock (callAt 40) none m.body (State.initial {}))
    let h := (start.call {} "f" [.int 1]).2.heap
    h.set 0 = [.int 1] ∧ h.dict 0 = [(.int 1, .int 1)] ∧ (∀ r, h.Keys (h.set r)) ∧
      ∀ r, h.Keys ((h.dict r).map Prod.fst) := by
  intro m start h
  have hreached : Reached m (start.call {} "f" [.int 1]).2 := by
    refine .called {} "f" _ (.loaded {}) fun v hv => ?_
    rw [List.mem_singleton.mp hv]
    trivial
  obtain ⟨hsets, -, hdicts⟩ := reached_keys hreached
  exact ⟨rfl, rfl, hsets, hdicts (by decide +kernel)⟩

/-- A call that passes two arguments under one name leaves a dictionary that holds the name twice. -/
theorem reached_keys_repeated :
    let m : Module := ⟨[
      .define { name := "g", params := [{ name := "kw", kind := .kwArgs }], body := [.ret (some (.name "kw"))] },
      .define { name := "f", params := [], body := [
        .ret (some (.call (.name "g") [.keyword "a" (.int 1), .keyword "a" (.int 2)]))] }]⟩
    let start := Ending.state (execBlock (callAt 40) none m.body (State.initial {}))
    let s := (start.call {} "f" []).2
    Module.parse? "def g(**kw):\n    return kw\n\n\ndef f():\n    return g(a=1, a=2)\n" = some m ∧
      Reached m s ∧ s.heap.dict 0 = [(.str "a", .int 1), (.str "a", .int 2)] ∧
      ¬ s.heap.Keys ((s.heap.dict 0).map Prod.fst) := by
  intro m start s
  have hdict : s.heap.dict 0 = [(.str "a", .int 1), (.str "a", .int 2)] := rfl
  have hequal : s.heap.equal (.str "a") (.str "a") = true := by decide +kernel
  refine ⟨by decide +kernel, .called {} "f" [] (.loaded {}) nofun, hdict, fun hkeys => ?_⟩
  rw [hdict] at hkeys
  have hdiffer := hkeys.differ 0 1 _ _ (by decide) rfl rfl
  rw [hequal] at hdiffer
  cases hdiffer

end Concord.Machine
