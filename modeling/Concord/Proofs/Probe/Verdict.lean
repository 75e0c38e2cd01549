import Concord.Probe.Basic
import Concord.Proofs.Machine.AlikeRuns
import Concord.Proofs.Machine.Attained
import Concord.Proofs.Machine.Budget
import Concord.Proofs.Tree.Likeness

/-!
# Verdicts on modules with one normal form

Two modules are loaded and a function of each is called with the same data. If the modules are alike,
the two runs end alike (`Run.Alike`): both stop, or both return the same value or raise exceptions of
one class, and they leave the same arguments in heaps that differ in the code of functions at most.

* `Module.verdict_of_normalize_eq`: tidy modules with one normal form and the same names of functions
  get the same verdict on every input.
* `Module.verdict_of_normalize_eq_declared`: modules that are not tidy need not.
-/

namespace Concord

namespace Machine

variable {locals : List String} {W : World} {s t : State}

/-! ## Loading, data and calls -/

theorem State.Twins.initial (hlocals : ∀ n ∈ locals, Value.predefined? n = none) (b : Budget) :
    State.Twins locals [] (State.initial b) (State.initial b) where
  same := rfl
  frame :=
    { globals := rfl
      hidden := hlocals
      handling := .nil
      closures := .nil
      left := rfl
      right := rfl
      scopes := nofun }

theorem State.Twins.heap_eq (h : State.Twins locals W s t) :
    t.heap = s.heap.withClosures t.heap.closures :=
  congrArg State.heap h.same

/-- Two modules that are alike can both be loaded, into related states, or neither can. -/
theorem load_alike (hlocals : ∀ n ∈ locals, Value.predefined? n = none) {m m' : Module}
    (h : m.Alike locals m') (b : Budget) :
    (∃ e e', load b m = .error e ∧ load b m' = .error e') ∨
    ∃ W s t, load b m = .ok s ∧ load b m' = .ok t ∧ State.Twins locals W s t := by
  have hsees : World.Sees [] none [] := rfl
  have hrun := (Twins.callAt locals b.maxDepth).execBlock hsees m.body h
  obtain ⟨W, -, hend⟩ := hrun [] List.prefix_rfl _ _ (.initial hlocals b)
  unfold load
  generalize execBlock (callAt b.maxDepth) none m.body (State.initial b) = x,
    execBlock (callAt b.maxDepth) none m'.body (State.initial b) = y at hend
  cases hend with
  | ok _ hst => exact .inr ⟨W, _, _, rfl, rfl, hst⟩
  | error hlike _ => cases hlike <;> exact .inl ⟨_, _, rfl, rfl⟩

mutual

theorem Datum.plain_store : (d : Datum) → Plain d.store
  | .none | .bool _ | .int _ | .float _ | .str _ | .range _ _ _ => by
    rw [Datum.store]
    exact .ret _
  | .list items => by
    rw [Datum.store]
    exact .bind (Datum.plain_storeAll items) .newList
  | .tuple items => by
    rw [Datum.store]
    exact .bind (Datum.plain_storeAll items) .newTuple
  | .set items => by
    rw [Datum.store]
    exact .bind (Datum.plain_storeAll items) .newSet
  | .dict entries => by
    rw [Datum.store]
    exact .bind (Datum.plain_storeEntries entries) .newDict

theorem Datum.plain_storeAll : (ds : List Datum) → Plain (Datum.storeAll ds)
  | [] => by
    rw [Datum.storeAll]
    exact .ret _
  | d :: ds => by
    rw [Datum.storeAll]
    exact .bind (Datum.plain_store d) fun _ => .bind (Datum.plain_storeAll ds) fun _ => .ret _

theorem Datum.plain_storeEntries : (es : List (Datum × Datum)) → Plain (Datum.storeEntries es)
  | [] => by
    rw [Datum.storeEntries]
    exact .ret _
  | (k, v) :: es => by
    rw [Datum.storeEntries]
    exact .bind (Datum.plain_store k) fun _ => .bind (Datum.plain_store v) fun _ =>
      .bind (Datum.plain_storeEntries es) fun _ => .ret _

end

/-- Data are put at the same places in related states. -/
theorem State.Twins.storeIn (h : State.Twins locals W s t) (data : List Datum) :
    (Datum.storeIn data s).1 = (Datum.storeIn data t).1 ∧
      ∃ W', State.Twins locals W' (Datum.storeIn data s).2 (Datum.storeIn data t).2 := by
  have hstore : Machine.Twins locals W Eq (Datum.storeAll data) (Datum.storeAll data) :=
    .plain (Datum.plain_storeAll data)
  obtain ⟨W', -, hend⟩ := hstore W List.prefix_rfl s t h
  unfold Datum.storeIn
  generalize Datum.storeAll data s = x, Datum.storeAll data t = y at hend
  cases hend with
  | ok hvs hst => exact ⟨hvs, W', hst⟩
  | error _ hst => exact ⟨rfl, W', hst⟩

/-- Outcomes that are the same up to the message of an exception. -/
inductive Outcome.Like : Outcome → Outcome → Prop
  | returned (v : Value) : Like (.returned v) (.returned v)
  | raised {e f : Exception} (h : e.Like f) : Like (.raised e) (.raised f)

theorem State.Twins.refill (h : State.Twins locals W s t) (b : Budget) :
    State.Twins locals W (s.refill b) (t.refill b) := by
  refine ⟨?_, h.frame⟩
  conv_lhs => rw [h.same]
  rfl

/-- A call by name in related states: both stop, or both end with the same outcome. -/
theorem State.Twins.call (h : State.Twins locals W s t) (b : Budget) (name : String)
    (args : List Value) :
    (∃ e e', (s.call b name args).1 = .error e ∧ (t.call b name args).1 = .error e') ∨
    ∃ o o', (s.call b name args).1 = .ok o ∧ (t.call b name args).1 = .ok o' ∧ o.Like o' ∧
      ∃ W', State.Twins locals W' (s.call b name args).2 (t.call b name args).2 := by
  have hglobals : s.globals = t.globals := h.frame.globals
  by_cases hname : ∃ r, s.globals.get? name = some (.function r)
  · obtain ⟨r, hname⟩ := hname
    have hname' : t.globals.get? name = some (.function r) := hglobals ▸ hname
    rw [State.call_function hname, State.call_function hname']
    have hrun := Twins.callAt locals b.maxDepth W (.function r) args [] nofun
    obtain ⟨W', -, hend⟩ := hrun W List.prefix_rfl _ _ (h.refill b)
    generalize callAt b.maxDepth (.function r) args [] (s.refill b) = x,
      callAt b.maxDepth (.function r) args [] (t.refill b) = y at hend
    cases hend with
    | ok hv hst =>
      cases hv
      exact .inr ⟨_, _, rfl, rfl, .returned _, W', hst⟩
    | error hlike hst =>
      cases hlike with
      | raise he => exact .inr ⟨_, _, rfl, rfl, .raised he, W', hst⟩
      | halt halt => exact .inl ⟨halt, halt, rfl, rfl⟩
  · have hname' : ¬ ∃ r, t.globals.get? name = some (.function r) := hglobals ▸ hname
    rw [State.call_missing hname, State.call_missing hname']
    exact .inl ⟨_, _, rfl, rfl⟩

/-! ## Sameness -/

/-- Sameness looks at the code of functions in neither heap. -/
theorem sameWithin_withClosures (h k : Heap) (cs : Array Closure) (n : Nat) :
    sameWithin h (k.withClosures cs) n = sameWithin h k n := by
  induction n with
  | zero => rfl
  | succ n ih =>
    funext a b
    unfold sameWithin
    rw [ih]
    rfl

theorem same_withClosures (h k : Heap) (cs : Array Closure) :
    same h (k.withClosures cs) = same h k :=
  sameWithin_withClosures h k cs _

end Machine

open Machine

namespace Probe

/-! ## Runs -/

/-- Load a module and call one of its functions with data. -/
def runOn (b : Budget) (m : Module) (name : String) (data : List Datum) : Except Halt Run := do
  let s ← load b m
  let (args, s) := Datum.storeIn data s
  let (outcome, s) := s.call b name args
  return { outcome := ← outcome, args, heap := s.heap }

/-- Runs that end alike: with the same value or with exceptions of one class, and with the same
arguments in heaps that differ in the code of functions at most. -/
structure Run.Alike (r r' : Run) : Prop where
  outcome : r.outcome.Like r'.outcome
  args : r.args = r'.args
  heap : r'.heap = r.heap.withClosures r'.heap.closures

namespace Run.Alike

variable {r r' : Run}

theorem same_eq (h : r.Alike r') : same r.heap r'.heap = same r.heap r.heap := by
  rw [h.heap]
  exact same_withClosures r.heap r.heap _

/-- A run agrees with one that ends alike as it agrees with itself. -/
theorem agrees_eq (h : r.Alike r') : r.agrees r' = r.agrees r := by
  have hsame := h.same_eq
  have houtcome := h.outcome
  unfold agrees
  generalize r.outcome = o, r'.outcome = o' at houtcome
  cases houtcome with
  | returned v => rw [hsame]
  | raised he =>
    rename_i e f
    show (e.kind == f.kind) = (e.kind == e.kind)
    rw [show e.kind = f.kind from he]

theorem sameArgs_eq (h : r.Alike r') : r.sameArgs r' = r.sameArgs r := by
  unfold sameArgs
  rw [h.same_eq, ← h.args]

end Run.Alike

/-- Runs of modules that are alike. -/
theorem runOn_alike {locals : List String} (hlocals : ∀ n ∈ locals, Value.predefined? n = none)
    {m m' : Module} (h : m.Alike locals m') (b : Budget) (name : String) (data : List Datum) :
    (∃ e e', runOn b m name data = .error e ∧ runOn b m' name data = .error e') ∨
    ∃ r r', runOn b m name data = .ok r ∧ runOn b m' name data = .ok r' ∧ r.Alike r' := by
  unfold runOn
  obtain ⟨e, e', hx, hy⟩ | ⟨W, s, t, hx, hy, hst⟩ := load_alike hlocals h b
  · rw [hx, hy]
    exact .inl ⟨e, e', rfl, rfl⟩
  · rw [hx, hy]
    obtain ⟨hargs, W₁, hst₁⟩ := hst.storeIn data
    obtain ⟨e, e', hx, hy⟩ | ⟨o, o', hx, hy, hlike, W₂, hst₂⟩ :=
      hst₁.call b name (Datum.storeIn data s).1
    · refine .inl ⟨e, e', ?_, ?_⟩
      · simp only [Except.bind, Bind.bind, hx]
      · simp only [Except.bind, Bind.bind, ← hargs, hy]
    · refine .inr ⟨⟨o, _, _⟩, ⟨o', _, _⟩, ?_, ?_, hlike, hargs, hst₂.heap_eq⟩
      · simp only [Except.bind, Bind.bind, hx]
        rfl
      · simp only [Except.bind, Bind.bind, ← hargs, hy]
        rfl

end Probe

/-! ## Normal forms -/

open Probe

/-- Tidy modules with one normal form and the same names of functions get the same verdict on every
input: both stop, or they end alike, and comparing them finds what comparing the first with itself
finds. -/
theorem Module.verdict_of_normalize_eq {locals : List String} {m m' : Module}
    (hm : m.isTidy locals = true) (hm' : m'.isTidy locals = true)
    (hnames : m.functionNames = m'.functionNames) (h : m.normalize = m'.normalize) (b : Budget)
    (name : String) (data : List Datum) :
    (∃ e e', runOn b m name data = .error e ∧ runOn b m' name data = .error e') ∨
    ∃ r r', runOn b m name data = .ok r ∧ runOn b m' name data = .ok r' ∧ r.Alike r' ∧
      r.agrees r' = r.agrees r ∧ r.sameArgs r' = r.sameArgs r := by
  have hlocals : ∀ n ∈ locals, Value.predefined? n = none := by
    simp only [isTidy, Bool.and_eq_true, List.all_eq_true, Option.isNone_iff_eq_none] at hm
    exact hm.1
  have halike := Module.alike_of_normalize_eq hm hm' hnames h
  obtain hstop | ⟨r, r', hx, hy, hr⟩ := runOn_alike hlocals halike b name data
  · exact .inl hstop
  · exact .inr ⟨r, r', hx, hy, hr, hr.agrees_eq, hr.sameArgs_eq⟩

/-- A function that adds up its items by a nested function and multiplies each item by the sum, with the
names of its local variables left open. -/
def scaling (items sum item scale factor other : String) : Module where
  body := [.define ⟨"spread", [⟨items, .regular, none, none⟩], [
    .assign [.name sum] (.int 0) none,
    .define ⟨"add", [⟨item, .regular, none, none⟩], [
      .nonlocals [sum],
      .augAssign (.name sum) .add (.name item)], [], none, false⟩,
    .forLoop (.name other) (.name items) [
      .expr (.call (.name "add") [.positional (.name other)])] [],
    .assign [.name scale] (.lambda [⟨factor, .regular, none, none⟩]
      (.bin .mul (.name factor) (.name sum))) none,
    .ret (some (.comp .list (.call (.name scale) [.positional (.name item)]) none
      [⟨.name item, .name items, []⟩]))], [], none, false⟩]

/-- The function with two choices of names, called with `[1, 2]`. -/
theorem Module.verdict_of_normalize_eq_scaling :
    let m := scaling "xs" "total" "x" "scale" "y" "z"
    let m' := scaling "values" "acc" "v" "times" "k" "w"
    let run (m : Module) := runOn {} m "spread" [.list [.int 1, .int 2]]
    (run m).isOk = true ∧ ∃ r r', run m = .ok r ∧ run m' = .ok r' ∧ r.Alike r' := by
  intro m m' run
  have hok : (run m).isOk = true := by decide +kernel
  let locals := ["add", "xs", "total", "x", "scale", "y", "z", "values", "acc", "v", "times", "k", "w"]
  have hm : m.isTidy locals = true := by decide +kernel
  have hm' : m'.isTidy locals = true := by decide +kernel
  obtain ⟨e, _, he, -⟩ | ⟨r, r', hx, hy, hr, -⟩ := Module.verdict_of_normalize_eq hm hm'
    (by decide +kernel) (by decide +kernel) {} "spread" [.list [.int 1, .int 2]]
  · rw [show run m = .error e from he] at hok
    cases hok
  · exact ⟨hok, r, r', hx, hy, hr⟩

/-- A function inside one with a parameter, which declares `x` global and returns a variable. -/
def declaring (param result : String) : Module where
  body := [.assign [.name "x"] (.int 5) none,
    .define ⟨"f", [⟨param, .regular, none, none⟩], [
      .define ⟨"g", [], [
        .globals ["x"],
        .ret (some (.name result))], [], none, false⟩,
      .ret (some (.call (.name "g") []))], [], none, false⟩]

/-- Normalization writes the placeholder of the parameter for the global `x` of the first module: it has
the same normal form as the second, which returns the parameter. -/
theorem Module.verdict_of_normalize_eq_declared :
    let text (param result : String) :=
      "x = 5\n\n\ndef f(" ++ param ++ "):\n    def g():\n        global x\n        return " ++ result ++
        "\n    return g()\n"
    let answer (m : Module) := (runOn {} m "f" [.int 0]).toOption.map fun r => r.outcome.text r.heap
    Module.parse? (text "x" "x") = some (declaring "x" "x") ∧
      Module.parse? (text "y" "y") = some (declaring "y" "y") ∧
      (declaring "x" "x").normalize = (declaring "y" "y").normalize ∧
      answer (declaring "x" "x") = some "5" ∧ answer (declaring "y" "y") = some "0" := by
  intro text answer
  exact ⟨by decide +kernel, by decide +kernel, by decide +kernel, by decide +kernel,
    by decide +kernel⟩

end Concord

/-!
## Modules with exchanged bodies

A module in which the bodies of functions are exchanged for others that attain them does what the first
one does, given enough fuel: a call that comes to an end, by a return or an exception, ends the same in
the second module, and leaves the same arguments and containers.
-/

namespace Concord

namespace Machine

variable {hidden : List String} {swaps : Block → Block → Prop}

/-- Statements of the top level: the same, or definitions that differ in exchanged bodies. -/
inductive Exchanged (swaps : Block → Block → Prop) : Stmt → Stmt → Prop
  | same (s : Stmt) : Exchanged swaps s s
  | body {f : Function} {b : Block} (h : swaps f.body b) :
    Exchanged swaps (.define f) (.define { f with body := b })

namespace Attains

variable {call call' : Call}

theorem Calls.topLevel (h : Calls hidden swaps call call') {b b' : Block}
    (hb : List.Forall₂ (Exchanged swaps) b b') :
    Attains hidden swaps none .apart (Machine.execBlock call none b)
      (Machine.execBlock call' none b') := by
  induction hb with
  | nil => exact ret _
  | cons hs _ ih =>
    rw [Machine.execBlock, Machine.execBlock]
    refine bind ?_ fun flow => ?_
    · cases hs with
      | same => exact h.exec none _ (fitsIn_apart _)
      | @body f b hswap =>
        have hcode : Code.Akin hidden swaps .apart (.block f.body) (.block b) :=
          .inr ⟨f.body, b, hswap, rfl, rfl⟩
        have hname : Stage.apart.Takes hidden f.name := nofun
        exact define hname (h.evalParams none f.params fun _ _ => rfl) hcode
    · split
      · exact ih
      · exact ret _

end Attains

/-- Nothing has been made before a run. -/
theorem Frame.akin_initial (b : Budget) :
    Frame.Akin hidden swaps [] (State.initial b).frame (State.initial b).frame where
  globals := rfl
  handling := rfl
  closures := .nil
  left := rfl
  right := rfl
  exchanged := nofun
  scopes := nofun

/-- Execute the top level of a module, with these calls. -/
def loadBy (call : Call) (b : Budget) (m : Module) : Except Halt State :=
  match execBlock call none m.body (State.initial b) with
  | .ok _ s => .ok s
  | .error (.halt h) _ => .error h
  | .error (.raise e) _ => .error (.unsupported ("module-level code raised " ++ e.text))

/-- Call a function by its name, with these calls and all the fuel of the budget. -/
def State.callBy (call : Call) (b : Budget) (name : String) (args : List Value) (s : State) :
    Except Halt Outcome × State :=
  match s.globals.get? name with
  | some (.function r) => Ending.result (call (.function r) args [] (s.refill b))
  | _ => (.error (.missingFunction name), s)

theorem State.callBy_callAt (b : Budget) (name : String) (args : List Value) (s : State) :
    s.callBy (callAt b.maxDepth) b name args = s.call b name args := by
  unfold State.callBy
  split
  · next r hname => rw [State.call_function hname]
  · next hname => rw [State.call_missing fun ⟨r, hr⟩ => hname r hr]

/-- A module that loads does so with other calls, if those are followed. -/
theorem loadBy_follows {call call' : Call} (hcalls : (Allowance.ofFuel 0).simulation.Calls call call')
    {b : Budget} {m : Module} {s : State} (hs : loadBy call b m = .ok s) : loadBy call' b m = .ok s := by
  obtain ⟨t, hspent, -⟩ | hload := (hcalls.execBlock none m.body False.elim).ends (State.initial b)
  · unfold loadBy at hs
    rw [hspent] at hs
    cases hs
  · unfold loadBy at hs ⊢
    rwa [hload]

/-- A call by name that comes to an end does so with other calls, if those are followed. -/
theorem callBy_follows {call call' : Call} (hcalls : (Allowance.ofFuel 0).simulation.Calls call call')
    {b : Budget} {name : String} {args : List Value} {s : State} {o : Outcome}
    (ho : (s.callBy call b name args).1 = .ok o) :
    s.callBy call' b name args = s.callBy call b name args := by
  unfold State.callBy at ho ⊢
  split at ho
  · next r hname =>
    obtain ⟨t, hspent, -⟩ | hcall := Allowance.Follows.ends (hcalls (.function r) args []) (s.refill b)
    · rw [hspent] at ho
      cases ho
    · rw [hcall]
  · cases ho

/-- A module that loads can be loaded with exchanged bodies, into a frame that is akin. -/
theorem loadBy_exchanged {m m' : Module} (h : List.Forall₂ (Exchanged swaps) m.body m'.body)
    {call : Call} {fuel depth : Nat} (hcalls : Attains.Calls hidden swaps call (callAt depth)) {s : State}
    (hs : loadBy call ⟨fuel, depth⟩ m = .ok s) :
    ∃ W F, s.frame.Akin hidden swaps W F ∧ ∃ need, ∀ fuel', need ≤ fuel' →
      ∃ left, load ⟨fuel', depth⟩ m' = .ok (s.under F left) := by
  have hrun := hcalls.topLevel h [] (State.initial ⟨fuel, depth⟩) _ rfl (Frame.akin_initial _)
  unfold loadBy at hs
  cases hx : execBlock call none m.body (State.initial ⟨fuel, depth⟩) with
  | error e t =>
    rw [hx] at hs
    cases e <;> cases hs
  | ok flow t =>
    unfold AttainsAt at hrun
    rw [hx] at hs hrun
    cases hs
    obtain ⟨_, hspent, -⟩ | ⟨W, F, -, hF, hample⟩ := hrun
    · cases hspent
    · obtain ⟨need, hneed⟩ := hample 0
      refine ⟨W, F, hF, need, fun fuel' hfuel => ?_⟩
      obtain ⟨left, -, hy⟩ := hneed fuel' hfuel
      refine ⟨left, ?_⟩
      unfold load
      rw [show State.initial ⟨fuel', depth⟩ =
        (State.initial ⟨fuel, depth⟩).under (State.initial ⟨fuel, depth⟩).frame fuel' from rfl, hy]
      rfl

/-- Data are put at the same places. -/
theorem storeIn_exchanged {W : Stages} {s : State} {F : Frame} (hF : s.frame.Akin hidden swaps W F)
    (data : List Datum) :
    (Datum.storeIn data s).2.frame.Akin hidden swaps W F ∧ ∀ fuel,
      Datum.storeIn data (s.under F fuel) =
        ((Datum.storeIn data s).1, (Datum.storeIn data s).2.under F fuel) := by
  have hplain := Datum.plain_storeAll data
  have hkept := hplain.framed.kept s
  unfold Datum.storeIn
  simp only [hplain.under hF.names]
  cases hx : Datum.storeAll data s <;> rw [hx] at hkept <;> exact ⟨hkept ▸ hF, fun _ => rfl⟩

/-- A call by name that comes to an end comes to the same end with exchanged bodies. -/
theorem callBy_exchanged {W : Stages} {s : State} {F : Frame} (hF : s.frame.Akin hidden swaps W F)
    {call : Call} {fuel depth : Nat} (hcalls : Attains.Calls hidden swaps call (callAt depth))
    {name : String} {args : List Value} {o : Outcome}
    (ho : (s.callBy call ⟨fuel, depth⟩ name args).1 = .ok o) :
    ∃ need, ∀ fuel', need ≤ fuel' → ∀ left, ∃ F' left',
      (s.under F left).call ⟨fuel', depth⟩ name args =
        (.ok o, (s.callBy call ⟨fuel, depth⟩ name args).2.under F' left') := by
  have hglobals : s.globals = F.globals := hF.globals
  unfold State.callBy at ho ⊢
  split at ho
  · next r hname =>
    have hname' (left : Nat) : (s.under F left).globals.get? name = some (.function r) := by
      show F.globals.get? name = _
      rw [← hglobals]
      exact hname
    have hrun := hcalls (.function r) args [] W (s.refill ⟨fuel, depth⟩) F rfl hF
    obtain ⟨t, hspent, -⟩ | ⟨_, F', -, -, hample⟩ := hrun
    · rw [hspent] at ho
      cases ho
    · obtain ⟨need, hneed⟩ := hample 0
      refine ⟨need, fun fuel' hfuel left => ?_⟩
      obtain ⟨left', -, hy⟩ := hneed fuel' hfuel
      refine ⟨F', left', ?_⟩
      -- A call starts with all the fuel of its budget.
      rw [State.call_function (hname' left),
        show (s.under F left).refill ⟨fuel', depth⟩ = (s.refill ⟨fuel, depth⟩).under F fuel' from rfl,
        hy]
      rcases hx : call (.function r) args [] (s.refill ⟨fuel, depth⟩) with ⟨v, t⟩ | ⟨_ | _, t⟩
      · rw [hx] at ho
        cases ho
        rfl
      · rw [hx] at ho
        cases ho
        rfl
      · rw [hx] at ho
        cases ho
  · cases ho

end Machine

namespace Probe

open Machine

variable {hidden : List String} {swaps : Block → Block → Prop}

/-- Load a module and call one of its functions with data, where `calls` are the calls with so many
levels left. -/
def runBy (calls : Nat → Call) (b : Budget) (m : Module) (name : String) (data : List Datum) :
    Except Halt Run := do
  let s ← loadBy (calls b.maxDepth) b m
  let (args, s) := Datum.storeIn data s
  let (outcome, s) := s.callBy (calls b.maxDepth) b name args
  return { outcome := ← outcome, args, heap := s.heap }

theorem runBy_callAt (b : Budget) (m : Module) (name : String) (data : List Datum) :
    runBy callAt b m name data = runOn b m name data := by
  unfold runBy
  simp only [State.callBy_callAt]
  rfl

/-- A run that comes to an end is the run with other calls, if those are followed. -/
theorem runBy_follows {calls calls' : Nat → Call}
    (hcalls : ∀ depth, (Allowance.ofFuel 0).simulation.Calls (calls depth) (calls' depth)) {b : Budget}
    {m : Module} {name : String} {data : List Datum} {r : Run} (hrun : runBy calls b m name data = .ok r) :
    runBy calls' b m name data = .ok r := by
  unfold runBy at hrun ⊢
  cases hload : loadBy (calls b.maxDepth) b m with
  | error e =>
    rw [hload] at hrun
    cases hrun
  | ok s =>
    rw [hload] at hrun
    rw [loadBy_follows (hcalls b.maxDepth) hload]
    cases hcall : ((Datum.storeIn data s).2.callBy (calls b.maxDepth) b name
        (Datum.storeIn data s).1).1 with
    | error e =>
      simp only [Except.bind, Bind.bind, hcall] at hrun
      cases hrun
    | ok o =>
      simp only [Except.bind, Bind.bind] at hrun ⊢
      rw [callBy_follows (hcalls b.maxDepth) hcall]
      exact hrun

/-- A run that comes to an end comes to the same end with exchanged bodies, given enough fuel, if the
calls there attain those of the run: with the same outcome and arguments, and in a heap that differs in
the code of functions at most. -/
theorem runBy_exchanged {calls : Nat → Call}
    (hcalls : ∀ depth, Attains.Calls hidden swaps (calls depth) (callAt depth)) {m m' : Module}
    (h : List.Forall₂ (Exchanged swaps) m.body m'.body) {fuel depth : Nat} {name : String}
    {data : List Datum} {r : Run} (hrun : runBy calls ⟨fuel, depth⟩ m name data = .ok r) :
    ∃ need, ∀ fuel', need ≤ fuel' → ∃ cs,
      runOn ⟨fuel', depth⟩ m' name data = .ok { r with heap := r.heap.withClosures cs } := by
  unfold runBy at hrun
  cases hload : loadBy (calls depth) ⟨fuel, depth⟩ m with
  | error e =>
    rw [hload] at hrun
    cases hrun
  | ok s =>
    rw [hload] at hrun
    obtain ⟨W, F, hF, need₁, hneed₁⟩ := loadBy_exchanged h (hcalls depth) hload
    obtain ⟨hF', hstore⟩ := storeIn_exchanged hF data
    cases hcall : ((Datum.storeIn data s).2.callBy (calls depth) ⟨fuel, depth⟩ name
        (Datum.storeIn data s).1).1 with
    | error e =>
      simp only [Except.bind, Bind.bind, hcall] at hrun
      cases hrun
    | ok o =>
      simp only [Except.bind, Bind.bind, hcall] at hrun
      cases hrun
      obtain ⟨need₂, hneed₂⟩ := callBy_exchanged hF' (hcalls depth) hcall
      refine ⟨max need₁ need₂, fun fuel' hfuel => ?_⟩
      obtain ⟨left, hy⟩ := hneed₁ fuel' (by omega)
      obtain ⟨F', left', hz⟩ := hneed₂ fuel' (by omega) left
      refine ⟨F'.closures, ?_⟩
      unfold runOn
      rw [hy]
      simp only [Except.bind, Bind.bind, hstore, hz]
      rfl

/-- A run that comes to an end comes to the same end with bodies exchanged for others that attain them. -/
theorem runOn_exchanged (hswaps : Attains.Exchanges hidden swaps) {m m' : Module}
    (h : List.Forall₂ (Exchanged swaps) m.body m'.body) {fuel depth : Nat} {name : String}
    {data : List Datum} {r : Run} (hrun : runOn ⟨fuel, depth⟩ m name data = .ok r) :
    ∃ need, ∀ fuel', need ≤ fuel' → ∃ cs,
      runOn ⟨fuel', depth⟩ m' name data = .ok { r with heap := r.heap.withClosures cs } :=
  runBy_exchanged (Attains.callAt hswaps) h ((runBy_callAt ..).trans hrun)

end Probe

end Concord
