import Concord.Proofs.Machine.Execution
import Concord.Proofs.Machine.Pace
import Concord.Proofs.Machine.Variable
import Concord.Tree.Walk

/-!
# One expression in two runs

An expression without calls and functions is evaluated in two runs at once, of which one has a list more
and the other one a scope more: where the first evaluates at `env`, the second does so in its scope `k`,
and all that the expression can name stands for the same there. While that goes on, only scopes of
comprehensions are made and written. They are made in step, so that one of them stands at `i` in the
first run and at `i + 1` in the second.

`Abreast` relates the states meanwhile: what is older than these scopes stays as it was in the states
`σ` and `τ` where the evaluation began.
-/

namespace Concord.Machine

/-! ## Positions -/

/-- Positions of two runs that correspond: the ones where the evaluation began, and scopes made since,
with places below `d` in the first run. -/
inductive Positions (k : Nat) (env : Env) (d : Nat) : Env → Env → Prop
  | base : Positions k env d env (some k)
  | inner {i : Nat} (hk : k ≤ i) (hd : i < d) : Positions k env d (some i) (some (i + 1))

theorem Positions.mono {k d d' : Nat} {env e e' : Env} (h : Positions k env d e e') (hd : d ≤ d') :
    Positions k env d' e e' := by
  cases h with
  | base => exact .base
  | inner hk hi => exact .inner hk (Nat.lt_of_lt_of_le hi hd)

theorem Positions.left {k d : Nat} {env e e' : Env} (h : Positions k env d e e')
    (henv : Env.Below k env) (hd : k ≤ d) : Env.Below d e := by
  cases h with
  | base => exact henv.mono hd
  | inner _ hi => exact hi

theorem Positions.right {k d : Nat} {env e e' : Env} (h : Positions k env d e e') (hd : k ≤ d) :
    Env.Below (d + 1) e' := by
  cases h with
  | base => exact Nat.lt_succ_of_le hd
  | inner _ hi => exact Nat.succ_lt_succ hi

/-- Scopes of one comprehension in two runs, at place `i` of the first. -/
structure Scope.Paired (n k : Nat) (env : Env) (i : Nat) (a b : Scope) : Prop where
  outer : Positions k env i a.parent b.parent
  vars : ∀ m, a.vars.get? m = (b.vars.get? m).map (·.past n)
  globals : a.globals = [] ∧ b.globals = []
  nonlocals : a.nonlocals = [] ∧ b.nonlocals = []

/-- The states where the evaluation begins. -/
structure Ground (n k : Nat) (env : Env) (acc : String) (σ τ : State) : Prop where
  left : σ.Nested k
  right : τ.Nested (k + 1)
  within : Env.Below k env
  sees : ∀ m ≠ acc, σ.found? env m = (τ.found? (some k) m).map (·.past n)

/-- The states while the evaluation goes on, with at least `d` scopes in the first run. -/
structure Abreast (n : Nat) (built : List Value) (k : Nat) (env : Env) (σ τ : State) (d : Nat)
    (s t : State) : Prop where
  fuel : s.fuel ≤ t.fuel
  heap : s.heap.WithList n built t.heap
  left : ∀ m, σ.Keeps k m s
  right : ∀ m, τ.Keeps (k + 1) m t
  size : t.scopes.size = s.scopes.size + 1
  deep : d ≤ s.scopes.size
  scopes : ∀ i, k ≤ i → i < s.scopes.size → ∃ a b, s.scopes[i]? = some a ∧
    t.scopes[i + 1]? = some b ∧ Scope.Paired n k env i a b

namespace Abreast

variable {n k d d' : Nat} {built : List Value} {env e e' : Env} {acc : String} {σ τ s t : State}

theorem mono (h : Abreast n built k env σ τ d' s t) (hd : d ≤ d') : Abreast n built k env σ τ d s t :=
  { h with deep := Nat.le_trans hd h.deep }

/-- Work on values and fuel keeps states abreast. -/
theorem work {built' : List Value} {h g : Heap} {u w : Nat}
    (hst : Abreast n built k env σ τ d s t) (H : h.WithList n built' g) (hle : u ≤ w) :
    Abreast n built' k env σ τ d { s with heap := h, fuel := u } { t with heap := g, fuel := w } where
  fuel := hle
  heap := H
  left m := (hst.left m).trans (.of_eq (hst.left m).right rfl rfl)
  right m := (hst.right m).trans (.of_eq (hst.right m).right rfl rfl)
  size := hst.size
  deep := hst.deep
  scopes := hst.scopes

/-- The states while an expression is evaluated, as a pace. -/
def pace (n : Nat) (built : List Value) (k : Nat) (env : Env) (σ τ : State) (d : Nat) :
    Pace n built where
  Rel := Abreast n built k env σ τ d
  fuel := Abreast.fuel
  heap := Abreast.heap
  work := work

/-! ## Names -/

/-- What a name stands for if no scope around binds it. -/
theorem outside_eq (h : Abreast n built k env σ τ d s t) (m : String) :
    (s.globals.get? m).or (Value.predefined? m) = (σ.globals.get? m).or (Value.predefined? m) ∧
      (t.globals.get? m).or (Value.predefined? m) = (τ.globals.get? m).or (Value.predefined? m) := by
  rw [(h.left m).globals, (h.right m).globals]
  exact ⟨rfl, rfl⟩

theorem found?_within (h : Abreast n built k env σ τ d s t) (hg : Ground n k env acc σ τ) {m : String}
    (hm : m ≠ acc) {f f' : Nat} (hpos : Positions k env s.scopes.size e e') (hf : Env.Below f e)
    (hf' : Env.Below f' e') :
    (Exec.lookupLocal s.scopes m f e).or ((s.globals.get? m).or (Value.predefined? m)) =
      ((Exec.lookupLocal t.scopes m f' e').or
        ((t.globals.get? m).or (Value.predefined? m))).map (·.past n) := by
  -- on the fuel of the second run, which every scope made since takes one of
  induction f' generalizing e e' f with
  | zero => cases hpos <;> exact absurd hf' (Nat.not_lt_zero _)
  | succ f' ih =>
    cases hpos with
    | base =>
      have hleft := (h.left m).lookupLocal_eq hg.left hg.within ((h.left m).within_left hg.within) hf
      have hk : Env.Below (k + 1) (some k) := Nat.lt_succ_self k
      have hright := (h.right m).lookupLocal_eq hg.right hk ((h.right m).within_left hk) hf'
      rw [hleft, hright, (h.outside_eq m).1, (h.outside_eq m).2]
      exact hg.sees m hm
    | inner hk hi =>
      rename_i i
      obtain ⟨a, b, ha, hb, hab⟩ := h.scopes i hk hi
      obtain ⟨f, rfl⟩ := Nat.exists_eq_add_of_le' (Nat.lt_of_le_of_lt (Nat.zero_le i) hf)
      have hparent := ih (f := f) (hab.outer.mono (Nat.le_of_lt hi))
        ((hab.outer.left hg.within hk).mono (Nat.le_of_lt_succ hf))
        ((hab.outer.right hk).mono (Nat.le_of_lt_succ hf'))
      rw [Exec.lookupLocal, Exec.lookupLocal, ha, hb]
      simp only [hab.globals, List.contains_nil, Bool.false_eq_true, if_false, Option.or_assoc,
        hparent, hab.vars m, Option.map_or]

theorem found?_eq (h : Abreast n built k env σ τ d s t) (hg : Ground n k env acc σ τ) {m : String}
    (hm : m ≠ acc) (hpos : Positions k env d e e') :
    s.found? e m = (t.found? e' m).map (·.past n) := by
  have hk : k ≤ s.scopes.size := (h.left m).right
  have hpos := hpos.mono h.deep
  refine h.found?_within hg hm hpos ((hpos.left hg.within hk).mono (Nat.le_succ _)) ?_
  rw [h.size]
  exact (hpos.right hk).mono (Nat.le_succ _)

theorem lookup (hg : Ground n k env acc σ τ) {c : Nat} {m : String} (hm : m ≠ acc)
    (hpos : Positions k env d e e') :
    (pace n built k env σ τ d).Step c c (·.past n) (Exec.lookup e m) (Exec.lookup e' m) := by
  intro s t hst hroom v s' hrun
  obtain ⟨hfound, rfl⟩ := State.found?_of_lookup hrun
  rw [hst.found?_eq hg hm hpos] at hfound
  obtain ⟨w, hw, rfl⟩ := Option.map_eq_some_iff.mp hfound
  exact ⟨w, t, State.lookup_of_found? hw, rfl, hst, hroom⟩

/-! ## Scopes of comprehensions -/

theorem pushScope (h : Abreast n built k env σ τ d s t) (hpos : Positions k env d e e') :
    Abreast n built k env σ τ (s.scopes.size + 1)
      { s with scopes := s.scopes.push { parent := e } }
      { t with scopes := t.scopes.push { parent := e' } } := by
  refine ⟨h.fuel, h.heap, fun m => (h.left m).trans (State.keeps_pushScope (h.left m).right _),
    fun m => (h.right m).trans (State.keeps_pushScope (h.right m).right _), by simp [h.size], by simp, ?_⟩
  intro i hk hi
  rw [Array.size_push] at hi
  dsimp only
  rw [Array.getElem?_push, Array.getElem?_push]
  by_cases hlast : i = s.scopes.size
  · subst hlast
    refine ⟨_, _, if_pos rfl, if_pos h.size.symm, hpos.mono h.deep, fun _ => rfl, ⟨rfl, rfl⟩, rfl, rfl⟩
  · obtain ⟨a, b, ha, hb, hab⟩ := h.scopes i hk (by omega)
    have hsize := h.size
    exact ⟨a, b, (if_neg hlast).trans ha, (if_neg (by omega)).trans hb, hab⟩

variable {α β : Type} {c c' : Nat} {f : β → α}

/-- Go on in new scopes. -/
theorem newScope (hd : k ≤ d) {y : Nat → Exec α} {x : Nat → Exec β} (hpos : Positions k env d e e')
    (h : ∀ i, k ≤ i → (pace n built k env σ τ (i + 1)).Step c c' f (y i) (x (i + 1))) :
    (pace n built k env σ τ d).Step c c' f (Exec.newScope { parent := e } >>= y)
      (Exec.newScope { parent := e' } >>= x) := by
  intro s t hst hroom a s' hy
  have hi : k ≤ s.scopes.size := Nat.le_trans hd hst.deep
  obtain ⟨b, t', hx, hab, hst', hroom'⟩ := h s.scopes.size hi _ _ (hst.pushScope hpos) hroom a s' hy
  refine ⟨b, t', ?_, hab, hst'.mono (Nat.le_succ_of_le hst.deep), hroom'⟩
  rw [← hst.size] at hx
  exact hx

/-- Binding a name in the scopes of a comprehension. -/
theorem bind {i : Nat} (hk : k ≤ i) (hi : i < d) (m : String) (v : Value) :
    (pace n built k env σ τ d).Step c c id (Exec.bind (some i) m (v.past n))
      (Exec.bind (some (i + 1)) m v) := by
  intro s t hst hroom u s' hy
  have his : i < s.scopes.size := Nat.lt_of_lt_of_le hi hst.deep
  obtain ⟨a, b, ha, hb, hab⟩ := hst.scopes i hk his
  have hplace : s.place (some i) m = some i ∧ t.place (some (i + 1)) m = some (i + 1) := by
    constructor
    · simp [State.place, ha, hab.globals.1, hab.nonlocals.1]
    · simp [State.place, hb, hab.globals.2, hab.nonlocals.2]
  rw [State.bind_eq_write, hplace.1] at hy
  cases hy
  rw [State.bind_eq_write, hplace.2]
  refine ⟨(), _, rfl, rfl, ?_, hroom⟩
  refine ⟨hst.fuel, hst.heap, fun m' => (hst.left m').trans ?_, fun m' => (hst.right m').trans ?_, ?_, ?_,
    fun j hj hjs => ?_⟩
  · exact State.keeps_write_of_le (hst.left m').right hk
  · exact State.keeps_write_of_le (hst.right m').right (Nat.succ_le_succ hk)
  · rw [State.size_write, State.size_write, hst.size]
  · rw [State.size_write]
    exact hst.deep
  · rw [State.size_write] at hjs
    obtain ⟨a', b', ha', hb', hab'⟩ := hst.scopes j hj hjs
    rw [State.scopes_write, State.scopes_write, ha', hb']
    by_cases hij : i = j
    · subst hij
      refine ⟨_, _, congrArg some (if_pos rfl), congrArg some (if_pos rfl),
        { hab' with vars := fun m' => ?_ }⟩
      simp only [Bindings.get?_set, hab'.vars m']
      split <;> rfl
    · exact ⟨a', b', by simp [hij], by simp [hij], hab'⟩

end Abreast

/-! ## Expressions -/

/-- Nothing that could be called, and not the name `acc`. -/
def Expr.isCalm (acc : String) : Expr → Bool
  | .call _ _ | .lambda _ _ => false
  | .name n => n != acc
  | _ => true

/-- All of the expressions are calm. -/
def Calm (acc : String) (es : List Expr) : Prop := ∀ e ∈ es, Expr.isCalm acc e

namespace Calm

variable {acc : String} {e : Expr} {es es' : List Expr}

theorem left (h : Calm acc (es ++ es')) : Calm acc es := (List.forall_mem_append.mp h).1

theorem right (h : Calm acc (es ++ es')) : Calm acc es' := (List.forall_mem_append.mp h).2

theorem head (h : Calm acc (e :: es)) : Expr.isCalm acc e := (List.forall_mem_cons.mp h).1

theorem tail (h : Calm acc (e :: es)) : Calm acc es := (List.forall_mem_cons.mp h).2

end Calm

namespace Pace

open Abreast (pace)

variable {n k c d : Nat} {built : List Value} {env e e' : Env} {acc : String} {σ τ : State}

theorem boundOf {P : Pace n built} (v : Option Value) :
    P.Step c c id (liftM (boundOf (v.map (·.past n)))) (liftM (boundOf v)) := by
  rw [boundOf_past]
  exact liftSame _

variable (call : Call)

mutual

theorem eval (hg : Ground n k env acc σ τ) {c d : Nat} (hd : k ≤ d) {e e' : Env}
    (hpos : Positions k env d e e') : (a : Expr) → Calm acc a.subterms →
    (pace n built k env σ τ d).Step c c (·.past n) (eval call e a) (eval call e' a)
  | .name m, ha => by
    rw [Machine.eval, Machine.eval]
    have hm : m ≠ acc := by simpa [Expr.isCalm] using ha.head
    exact (charge 1).bind fun _ => (Abreast.lookup hg hm hpos).leave c.le_succ
  | .int _, _ | .float _, _ | .bool _, _ | .none, _ => by
    rw [Machine.eval, Machine.eval]
    exact (charge 1).bind fun _ => spare rfl
  | .str lit, _ => by
    rw [Machine.eval, Machine.eval]
    refine (charge 1).bind fun _ => ?_
    split
    · exact throw _
    · exact spare rfl
  | .bin op l r, ha => by
    rw [Machine.eval, Machine.eval]
    exact (charge 1).bind fun _ => (eval hg hd hpos l ha.tail.left).bind fun v =>
      (eval hg hd hpos r ha.tail.right).bind fun w => binary op v w
  | .unary op a, ha => by
    rw [Machine.eval, Machine.eval]
    exact (charge 1).bind fun _ => (eval hg hd hpos a ha.tail).bind fun v =>
      (unary op v).leave c.le_succ
  | .logic op l r, ha => by
    rw [Machine.eval, Machine.eval]
    refine (charge 1).bind fun _ => (eval hg hd hpos l ha.tail.left).bind fun v =>
      (truthy v).bind fun b => ?_
    dsimp only [id]
    split
    · exact spare rfl
    · exact (eval hg hd hpos r ha.tail.right).leave c.le_succ
  | .compare l links, ha => by
    rw [Machine.eval, Machine.eval]
    exact (charge 1).bind fun _ => (eval hg hd hpos l ha.tail.left).bind fun v =>
      (evalLinks hg hd hpos v links ha.tail.right).leave c.le_succ
  | .call _ _, ha => absurd ha.head (by simp [Expr.isCalm])
  | .attribute a _, ha => by
    rw [Machine.eval, Machine.eval]
    exact (charge 1).bind fun _ => (eval hg hd hpos a ha.tail).bind fun v =>
      spare rfl
  | .subscript a i, ha => by
    have hvalue := eval hg (c := c + 1) hd hpos a ha.tail.left
    have hindex := eval hg (c := c + 1) hd hpos i ha.tail.right
    cases i with
    | slice l u w =>
      have hparts := ha.tail.right.tail
      have hl := evalOption hg (c := c + 1) hd hpos l hparts.left
      have hu := evalOption hg (c := c + 1) hd hpos u hparts.right.left
      have hw := evalOption hg (c := c + 1) hd hpos w hparts.right.right
      rw [Machine.eval, Machine.eval]
      exact (charge 1).bind fun _ => hvalue.bind fun v =>
        hl.bind fun l => (boundOf l).bind fun l => hu.bind fun u => (boundOf u).bind fun u =>
        hw.bind fun w => (boundOf w).bind fun w => getSlice v l u w
    | _ =>
      -- The equation of `eval` for this case asks for indices that are no slices.
      rw [Simulation.eval_subscript call e, Simulation.eval_subscript call e']
      · exact (charge 1).bind fun _ => hvalue.bind fun v => hindex.bind fun i =>
          (getItem v i).leave c.le_succ
      all_goals simp
  | .slice _ _ _, _ | .starred _, _ | .verbatim _, _ => by
    rw [Machine.eval, Machine.eval]
    exact (charge 1).bind fun _ => throw _
  | .list items, ha => by
    rw [Machine.eval, Machine.eval]
    exact (charge 1).bind fun _ => (evalItems hg hd hpos items ha.tail).bind fun vs => newList vs
  | .tuple items, ha => by
    rw [Machine.eval, Machine.eval]
    exact (charge 1).bind fun _ => (evalItems hg hd hpos items ha.tail).bind fun vs => newTuple vs
  | .set items, ha => by
    rw [Machine.eval, Machine.eval]
    exact (charge 1).bind fun _ => (evalItems hg hd hpos items ha.tail).bind fun vs => makeSet vs
  | .dict entries, ha => by
    rw [Machine.eval, Machine.eval]
    exact (charge 1).bind fun _ => (evalEntries hg hd hpos [] entries ha.tail).bind fun es =>
      newDict es
  | .comp kind a v cs, ha => by
    rw [Machine.eval, Machine.eval]
    refine (charge 1).bind fun _ => Abreast.newScope hd hpos fun i hi => ?_
    have hin : Positions k env (i + 1) (some i) (some (i + 1)) := .inner hi (Nat.lt_succ_self i)
    have hleaf : (pace n built k env σ τ (i + 1)).Step (c + 1) (c + 1) (producedPast n)
        (do let key ← Machine.eval call (some i) a
            return (key, ← Machine.evalOption call (some i) v))
        (do let key ← Machine.eval call (some (i + 1)) a
            return (key, ← Machine.evalOption call (some (i + 1)) v)) :=
      (eval hg (Nat.le_succ_of_le hi) hin a ha.tail.left).bind fun key =>
        (evalOption hg (Nat.le_succ_of_le hi) hin v ha.tail.right.left).bind fun value => ret rfl
    exact (evalClauses hg hi (Nat.lt_succ_self i) hleaf cs ha.tail.right.right).bind fun produced =>
      comprehended kind produced
  | .ifExp t a b, ha => by
    rw [Machine.eval, Machine.eval]
    refine (charge 1).bind fun _ => (eval hg hd hpos t ha.tail.left).bind fun v =>
      (truthy v).bind fun holds => ?_
    dsimp only [id]
    split
    · exact (eval hg hd hpos a ha.tail.right.left).leave c.le_succ
    · exact (eval hg hd hpos b ha.tail.right.right).leave c.le_succ
  | .lambda _ _, ha => absurd ha.head (by simp [Expr.isCalm])
termination_by structural x => x

theorem evalOption (hg : Ground n k env acc σ τ) {c d : Nat} (hd : k ≤ d) {e e' : Env}
    (hpos : Positions k env d e e') : (o : Option Expr) → Calm acc (Expr.subtermsOption o) →
    (pace n built k env σ τ d).Step c c (Option.map (·.past n)) (evalOption call e o)
      (evalOption call e' o)
  | none, _ => by
    rw [Machine.evalOption, Machine.evalOption]
    exact ret rfl
  | some a, ha => by
    rw [Machine.evalOption, Machine.evalOption]
    exact (eval hg hd hpos a ha).bind fun v => ret rfl
termination_by structural x => x

theorem evalItems (hg : Ground n k env acc σ τ) {c d : Nat} (hd : k ≤ d) {e e' : Env}
    (hpos : Positions k env d e e') : (es : List Expr) → Calm acc (Expr.subtermsList es) →
    (pace n built k env σ τ d).Step c c (List.map (·.past n)) (evalItems call e es)
      (evalItems call e' es)
  | [], _ => by
    rw [Machine.evalItems, Machine.evalItems]
    exact ret rfl
  | a :: es, ha => by
    have hitem := eval hg (c := c) hd hpos a ha.left
    have hrest := evalItems hg (c := c) hd hpos es ha.right
    cases a with
    | starred inner =>
      have hinner := eval hg (c := c) hd hpos inner ha.left.tail
      rw [Machine.evalItems, Machine.evalItems]
      exact hinner.bind fun v => (iterate v).bind fun vs => hrest.bind fun ws => ret (by simp)
    | _ =>
      rw [Machine.evalItems, Machine.evalItems]
      · exact hitem.bind fun v => hrest.bind fun vs => ret rfl
      all_goals simp
termination_by structural x => x

theorem evalLinks (hg : Ground n k env acc σ τ) {c d : Nat} (hd : k ≤ d) {e e' : Env}
    (hpos : Positions k env d e e') (left : Value) : (ls : List (CmpOp × Expr)) →
    Calm acc (Expr.subtermsLinks ls) →
    (pace n built k env σ τ d).Step c c (·.past n) (evalLinks call e (left.past n) ls)
      (evalLinks call e' left ls)
  | [], _ => by
    rw [Machine.evalLinks, Machine.evalLinks]
    exact ret rfl
  | (op, a) :: ls, ha => by
    rw [Machine.evalLinks, Machine.evalLinks]
    refine (eval hg hd hpos a ha.left).bind fun right => (compareValues op left right).bind fun b => ?_
    dsimp only [id]
    split
    · exact evalLinks hg hd hpos right ls ha.right
    · exact ret rfl
termination_by structural x => x

theorem evalEntries (hg : Ground n k env acc σ τ) {c d : Nat} (hd : k ≤ d) {e e' : Env}
    (hpos : Positions k env d e e') (done : Entries) : (es : List (Expr × Expr)) →
    Calm acc (Expr.subtermsEntries es) →
    (pace n built k env σ τ d).Step c c (List.map (entryPast n))
      (evalEntries call e (done.map (entryPast n)) es) (evalEntries call e' done es)
  | [], _ => by
    rw [Machine.evalEntries, Machine.evalEntries]
    exact ret rfl
  | (a, b) :: es, ha => by
    rw [Machine.evalEntries, Machine.evalEntries]
    exact (eval hg hd hpos a ha.left).bind fun key =>
      (eval hg hd hpos b ha.right.left).bind fun value =>
      (insertEntry done key value).bind fun done => evalEntries hg hd hpos done es ha.right.right
termination_by structural x => x

theorem evalConditions (hg : Ground n k env acc σ τ) {c d : Nat} (hd : k ≤ d) {e e' : Env}
    (hpos : Positions k env d e e') : (es : List Expr) → Calm acc (Expr.subtermsList es) →
    (pace n built k env σ τ d).Step c c id (evalConditions call e es) (evalConditions call e' es)
  | [], _ => by
    rw [Machine.evalConditions, Machine.evalConditions]
    exact ret rfl
  | a :: es, ha => by
    rw [Machine.evalConditions, Machine.evalConditions]
    refine (eval hg hd hpos a ha.left).bind fun v => (truthy v).bind fun b => ?_
    dsimp only [id]
    split
    · exact evalConditions hg hd hpos es ha.right
    · exact ret rfl
termination_by structural x => x

theorem evalClauses (hg : Ground n k env acc σ τ) {c d i : Nat} (hk : k ≤ i) (hi : i < d)
    {leaf leaf' : Exec (Value × Option Value)}
    (hleaf : (pace n built k env σ τ d).Step c c (producedPast n) leaf leaf') : (cs : List Clause) →
    Calm acc (Expr.subtermsClauses cs) →
    (pace n built k env σ τ d).Step c c (List.map (producedPast n))
      (evalClauses call (some i) leaf cs) (evalClauses call (some (i + 1)) leaf' cs)
  | [], _ => by
    rw [Machine.evalClauses, Machine.evalClauses]
    exact hleaf.bind fun p => ret rfl
  | ⟨t, a, ifs⟩ :: cs, ha => by
    have hd : k ≤ d := Nat.le_trans hk (Nat.le_of_lt hi)
    have hrest := evalClauses hg hk hi hleaf cs ha.right.right.right
    rw [Machine.evalClauses, Machine.evalClauses]
    refine (eval hg hd (.inner hk hi) a ha.left).bind fun v => (iterate v).bind fun items =>
      (mapM (g := List.map (producedPast n)) (fun item => ?_) items).bind fun produced =>
        ret (by simp [List.map_flatten])
    refine (assign hg hk hi item t ha.right.left).bind fun _ =>
      (evalConditions hg hd (.inner hk hi) ifs ha.right.right.left).bind fun b => ?_
    dsimp only [id]
    split
    · exact hrest
    · exact ret rfl
termination_by structural x => x

theorem assign (hg : Ground n k env acc σ τ) {c d i : Nat} (hk : k ≤ i) (hi : i < d) (value : Value) :
    (t : Expr) → Calm acc t.subterms →
    (pace n built k env σ τ d).Step c c id (assign call (some i) t (value.past n))
      (assign call (some (i + 1)) t value)
  | .name m, _ => by
    rw [Machine.assign, Machine.assign]
    exact Abreast.bind hk hi m value
  | .tuple ts, ha | .list ts, ha => by
    rw [Machine.assign, Machine.assign]
    exact (unpack ts value).bind fun vs => assignAll hg hk hi ts vs ha.tail
  | .subscript a x, ha => by
    have hd : k ≤ d := Nat.le_trans hk (Nat.le_of_lt hi)
    have hcontainer := eval hg (c := c) hd (.inner hk hi) a ha.tail.left
    have hindex := eval hg (c := c) hd (.inner hk hi) x ha.tail.right
    cases x with
    | slice _ _ _ =>
      rw [Machine.assign, Machine.assign]
      exact hcontainer.bind fun _ => throw _
    | _ =>
      rw [Machine.assign, Machine.assign]
      · exact hcontainer.bind fun v => hindex.bind fun x => setItem v x value
      all_goals simp
  | .int _, _ | .float _, _ | .str _, _ | .bool _, _ | .none, _ | .bin _ _ _, _ | .unary _ _, _
  | .logic _ _ _, _ | .compare _ _, _ | .call _ _, _ | .attribute _ _, _ | .slice _ _ _, _
  | .set _, _ | .dict _, _ | .comp _ _ _ _, _ | .ifExp _ _ _, _ | .lambda _ _, _ | .starred _, _
  | .verbatim _, _ => by
    rw [Machine.assign]
    · exact throw _
    all_goals simp
termination_by structural x => x

theorem assignAll (hg : Ground n k env acc σ τ) {c d i : Nat} (hk : k ≤ i) (hi : i < d) :
    (ts : List Expr) → (values : List Value) → Calm acc (Expr.subtermsList ts) →
    (pace n built k env σ τ d).Step c c id (assignAll call (some i) ts (values.map (·.past n)))
      (assignAll call (some (i + 1)) ts values)
  | t :: ts, value :: values, ha => by
    rw [List.map_cons, Machine.assignAll, Machine.assignAll]
    exact (assign hg hk hi value t ha.left).bind fun _ => assignAll hg hk hi ts values ha.right
  | _ :: _, [], _ | [], _, _ => by
    rw [Machine.assignAll, Machine.assignAll]
    · exact ret rfl
    all_goals simp
termination_by structural x => x

end

end Pace

end Concord.Machine
