import Concord.Proofs.Machine.Folding
import Concord.Proofs.Machine.Moment
import Concord.Proofs.Machine.Progression
import Concord.Proofs.Machine.Variable
import Concord.Proofs.Tree.Element

/-!
# Reading an element

In one run the element of a sequence is read through an index, in the other one a name stands for it.
Index and name are variables of one scope, which is pinned; the read may also stand in a comprehension
there that binds neither of them nor the sequence (`Stages.Leads`). As long as the sequence keeps its
items (`Iteration.Keeps`), both runs find the same value (`Iteration.reads_element`).
-/

namespace Concord

namespace Machine

variable {α β : Type}

/-! ## Sequences -/

/-- The items of a list, a tuple or a text. -/
def Heap.sequence? (h : Heap) : Value → Option (List Value)
  | .list r => some (h.list r)
  | .tuple r => some (h.tuple r)
  | .str s => some (s.toList.map fun c => .str c.toString)
  | _ => none

section Sequence

variable {s : State} {v item : Value} {items : List Value} {j : Nat}

theorem itemAt_eq (hj : items[j]? = some item) (hfits : items.length ≤ maxInt) (message : String) :
    itemAt items (.int j) message = .ok item := by
  have hlt : j < items.length := (List.getElem?_eq_some_iff.mp hj).1
  unfold itemAt
  rw [(position_of_lt hfits hlt message).1]
  show Except.ok ((items[j]?).getD .none) = _
  rw [hj]
  rfl

/-- Reading an item of a sequence through its index. -/
theorem getItem_apply (h : s.heap.sequence? v = some items) (hj : items[j]? = some item)
    (hfits : items.length ≤ maxInt) : getItem v (.int j) s = .ok item s := by
  cases v with
  | list r | tuple r | str text =>
    cases h
    show (Exec.ofExcept (itemAt _ (.int j) _) : Exec Value) s = _
    rw [itemAt_eq hj hfits]
    rfl
  | _ => cases h

theorem iterate_apply (h : s.heap.sequence? v = some items) :
    iterate v s = (Exec.charge items.length >>= fun _ => pure items : Exec _) s := by
  cases v with
  | list r | tuple r | str text =>
    cases h
    rfl
  | _ => cases h

end Sequence

/-! ## Finding a name from a comprehension -/

namespace State

variable {s : State} {i p : Nat} {a : Scope} {n : String} {v : Value}

theorem found?_of_var (ha : s.scopes[i]? = some a) (hglobal : n ∉ a.globals)
    (hv : a.vars.get? n = some v) : s.found? (some i) n = some v := by
  rw [found?, Exec.lookupLocal, ha]
  simp [hglobal, hv]

/-- A name that a scope does not bind is found around it. -/
theorem found?_around (hs : s.Nested s.scopes.size) (ha : s.scopes[i]? = some a)
    (hparent : a.parent = some p) (hvar : a.vars.get? n = none) (hglobal : n ∉ a.globals) :
    s.found? (some i) n = s.found? (some p) n := by
  have hi : i < s.scopes.size := (Array.getElem?_eq_some_iff.mp ha).1
  have hp : p < i := by
    have hbelow := hs i hi a ha
    rwa [hparent] at hbelow
  have hsame : Exec.lookupLocal s.scopes n s.scopes.size (some p) =
      Exec.lookupLocal s.scopes n (s.scopes.size + 1) (some p) :=
    (Keeps.refl (Nat.le_refl s.scopes.size)).lookupLocal_eq hs
      (show p < _ by omega) (show p < _ by omega) (show p < _ by omega)
  rw [found?, found?, Exec.lookupLocal, ha]
  simp [hglobal, hvar, hparent, hsame]

end State

variable {hidden : List String} {swaps : Block → Block → Prop} {W W' : Stages} {F G : Frame}
  {names : List String} {n : String} {g : Stage} {i k c : Nat} {s : State}

theorem Scope.Akin.below {a b : Scope} (h : Scope.Akin hidden W i g a b) : Env.Below i a.parent := by
  cases hparent : a.parent with
  | none => trivial
  | some j => exact h.earlier j hparent

/-- Scopes of akin frames are inside older ones. -/
theorem Frame.Akin.nested (h : s.frame.Akin hidden swaps W F) (fuel : Nat) :
    s.Nested s.scopes.size ∧ (s.under F fuel).Nested F.scopes.size := by
  have hscope {i : Nat} (hi : i < W.length) := h.scopes i _ (List.getElem?_eq_getElem hi)
  have hleft : s.scopes.size = W.length := h.left
  refine ⟨fun i hi a ha => ?_, fun i hi b hb => ?_⟩
  · obtain ⟨a', b, ha', -, hab⟩ := hscope (hleft ▸ hi)
    obtain rfl : a' = a := Option.some.inj (ha'.symm.trans ha)
    exact hab.below
  · obtain ⟨a, b', -, hb', hab⟩ := hscope (h.right ▸ hi)
    obtain rfl : b' = b := Option.some.inj (hb'.symm.trans hb)
    exact hab.parent ▸ hab.below

/-- From the scope numbered `c`, comprehensions that do not bind the names lead out to the scope
numbered `k`, which is of stage `g`. -/
inductive Stages.Leads (W : Stages) (names : List String) (k : Nat) (g : Stage) : Nat → Prop
  | here (h : W[k]? = some g) : Leads W names k g k
  | outwards {c p : Nat} (hc : W[c]? = some (.clear names p)) (hp : Leads W names k g p) :
    Leads W names k g c

namespace Stages.Leads

theorem mono (h : W.Leads names k g c) (hW : W <+: W') : W'.Leads names k g c := by
  induction h with
  | here h => exact .here (At.mono (show W.At (some k) g from h) hW)
  | @outwards c p hc _ ih =>
    exact .outwards (At.mono (show W.At (some c) (.clear names p) from hc) hW) ih

theorem root (h : W.Leads names k g c) : W[k]? = some g := by
  induction h with
  | here h => exact h
  | outwards _ _ ih => exact ih

/-- In both runs, the names are found as they are in the scope `k`. -/
theorem found? (h : W.Leads names k g c) (hF : s.frame.Akin hidden swaps W F) (hn : n ∈ names)
    (fuel : Nat) : s.found? (some c) n = s.found? (some k) n ∧
      (s.under F fuel).found? (some c) n = (s.under F fuel).found? (some k) n := by
  obtain ⟨hnested, hnested'⟩ := hF.nested fuel
  induction h with
  | here h => exact ⟨rfl, rfl⟩
  | @outwards c p hc _ ih =>
    obtain ⟨a, b, ha, hb, hab⟩ := hF.scopes c _ hc
    obtain ⟨hparent, hclear⟩ := hab.clears names p rfl
    have hvar := hclear n hn
    have hglobal := (hab.own n (List.mem_append_left _ hn)).1
    refine ⟨(State.found?_around hnested ha hparent hvar hglobal).trans ih.1, ?_⟩
    refine (State.found?_around hnested' hb (hab.parent ▸ hparent) ?_ (hab.globals ▸ hglobal)).trans ih.2
    exact (hab.vars n trivial).symm.trans hvar

end Stages.Leads

/-- The hidden variables of a scope that is pinned are found there. -/
theorem Frame.Akin.found?_pinned {l r : String → Option Value} {v : Value}
    (hF : s.frame.Akin hidden swaps W F) (hk : W[k]? = some (.pinned l r)) (hn : n ∈ hidden) :
    (l n = some v → s.found? (some k) n = some v) ∧
      ∀ fuel, r n = some v → (s.under F fuel).found? (some k) n = some v := by
  obtain ⟨a, b, ha, hb, hab⟩ := hF.scopes k _ hk
  obtain ⟨hl, hr⟩ := hab.pins l r rfl n hn
  have hglobal := (hab.own n hn).1
  refine ⟨fun hv => ?_, fun fuel hv => ?_⟩
  · exact State.found?_of_var ha hglobal (hl.trans hv)
  · exact State.found?_of_var (s := s.under F fuel) hb (hab.globals ▸ hglobal) (hr.trans hv)

/-- A name that is not hidden is found alike in both runs. -/
theorem Frame.Akin.found?_eq {env : Env} (hF : s.frame.Akin hidden swaps W F) (hat : W.At env g)
    (hn : g.Knows hidden n) (fuel : Nat) : (s.under F fuel).found? env n = s.found? env n := by
  have hsize : F.scopes.size = s.scopes.size := hF.right.trans hF.left.symm
  have hlocal : Exec.lookupLocal s.scopes n (s.scopes.size + 1) env =
      Exec.lookupLocal F.scopes n (s.scopes.size + 1) env := hF.lookupLocal_eq _ hat hn
  have hglobals : s.globals = F.globals := hF.globals
  show (Exec.lookupLocal F.scopes n (F.scopes.size + 1) env).or
    ((F.globals.get? n).or (Value.predefined? n)) = _
  rw [hsize, ← hlocal, ← hglobals]
  rfl

/-! ## Steps that differ -/

/-- Steps with different results before they go on. -/
theorem AttainsAt.step {γ : Type} {Q : Stages → Prop} {x : Exec α} {y : Exec β} {f : α → Exec γ}
    {j : β → Exec γ} {t : State} {F' : Frame} {a : α} {b : β} (hx : x s = .ok a t)
    (hy : ∀ fuel, y (s.under F fuel) = .ok b (t.under F' fuel))
    (h : AttainsAt hidden swaps Q t F' (f a) (j b)) :
    AttainsAt hidden swaps Q s F (x >>= f) (y >>= j) := by
  unfold AttainsAt
  rw [Exec.bind_apply, hx]
  refine h.imp id ?_
  rintro ⟨W', F'', hW', hF', hample⟩
  refine ⟨W', F'', hW', hF', fun spare => ?_⟩
  obtain ⟨need, hneed⟩ := hample spare
  refine ⟨need, fun fuel hfuel => ?_⟩
  rw [Exec.bind_apply, hy]
  exact hneed fuel hfuel

/-- Steps that pay differently before they go on. -/
theorem AttainsAt.paying {Q : Stages → Prop} {x y X Y : Exec α} {n m : Nat}
    (hx : x s = (Exec.charge n >>= fun _ => X) s)
    (hy : ∀ fuel, y (s.under F fuel) = (Exec.charge m >>= fun _ => Y) (s.under F fuel))
    (h : n ≤ s.fuel → AttainsAt hidden swaps Q { s with fuel := s.fuel - n } F X Y) :
    AttainsAt hidden swaps Q s F x y := by
  unfold AttainsAt
  rw [hx, Exec.bind_apply, Exec.charge_apply]
  by_cases hn : s.fuel < n
  · rw [if_pos hn]
    exact .inl ⟨{ s with fuel := 0 }, rfl, rfl⟩
  · rw [if_neg hn]
    refine (h (Nat.le_of_not_lt hn)).imp id ?_
    rintro ⟨W', F', hW', hF', hample⟩
    refine ⟨W', F', hW', hF', fun spare => ?_⟩
    obtain ⟨need, hneed⟩ := hample spare
    refine ⟨need + m, fun fuel hfuel => ?_⟩
    rw [hy, Exec.bind_apply, Exec.charge_under (by omega)]
    exact hneed (fuel - m) (by omega)

/-- A step that pays and gives a value is paid together with what was paid before it. -/
theorem Exec.charge_paying_apply {x : Exec α} {p : Nat} {a : α}
    (h : ∀ fuel, x { s with fuel } = (Exec.charge p >>= fun _ => pure a : Exec α) { s with fuel })
    (m : Nat) (f : α → Exec β) :
    (Exec.charge m >>= fun _ => x >>= f) s = (Exec.charge (m + p) >>= fun _ => f a) s := by
  have hx : (x >>= f) { s with fuel := s.fuel - m } =
      (Exec.charge p >>= fun _ => f a) { s with fuel := s.fuel - m } := by
    rw [Exec.bind_apply, h, ← Exec.bind_apply, bind_assoc]
    rfl
  rw [← Exec.charge_bind_charge, Exec.bind_apply, Exec.bind_apply, Exec.charge_apply]
  by_cases hm : s.fuel < m
  · rw [if_pos hm]
  · rw [if_neg hm]
    exact hx

/-- A name that is found is looked up without effect. -/
theorem Exec.charge_lookup_apply {env : Env} {v : Value} (h : s.found? env n = some v) (m : Nat)
    (f : Value → Exec α) :
    (Exec.charge m >>= fun _ => Exec.lookup env n >>= f) s = (Exec.charge m >>= fun _ => f v) s := by
  refine Exec.charge_paying_apply (p := 0) (fun fuel => ?_) m f
  rw [State.lookup_of_found? (s := { s with fuel }) h, Exec.bind_apply, Exec.charge_apply,
    if_neg (Nat.not_lt_zero _)]
  rfl

/-! ## Elements -/

end Machine

open Machine

/-- The scope numbered `k` finds the sequence, and it has these items. -/
def Iteration.Keeps (L : Iteration) (k : Nat) (value : Value) (items : List Value) (s : State) : Prop :=
  s.found? (some k) L.sequence = some value ∧ s.heap.sequence? value = some items

/-- A turn of the loop, the one numbered `j`: in the scope numbered `k`, the index is known in the first
run, and the element in the second run. -/
structure Iteration.Turn (L : Iteration) (swaps : Block → Block → Prop) (call call' : Call)
    (items : List Value) (j : Nat) (left right : String → Option Value) : Prop where
  calls : Attains.Calls L.hidden swaps call call'
  steady : ∀ d, (lessening d).Calls call call
  other : L.sequence ≠ L.index
  fits : items.length ≤ maxInt
  item : ∃ item, items[j]? = some item ∧ right L.element = some item
  index : left L.index = some (.int j)

namespace Machine

variable {swaps : Block → Block → Prop} {W : Stages} {k c : Nat} {call call' : Call} {L : Iteration}
  {value : Value} {items : List Value} {j : Nat} {left right : String → Option Value}

/-- Both runs find the element. -/
theorem AttainsWhile.element (h : L.Turn swaps call call' items j left right)
    (hlead : W.Leads L.names k (.pinned left right) c) :
    AttainsWhile L.hidden swaps (L.Keeps k value items) (W <+: ·)
      (eval call (some c) (.subscript (.name L.sequence) (.name L.index)))
      (eval call' (some c) (.name L.element)) := by
  refine ⟨fun d => ((h.steady d).eval (some c) _).2, fun W' s F hW hF hP => ?_⟩
  obtain ⟨item, hitem, helement⟩ := h.item
  replace hlead := hlead.mono hW
  have hread : eval call (some c) (.subscript (.name L.sequence) (.name L.index)) =
      (Exec.charge 1 >>= fun _ => Exec.charge 1 >>= fun _ => Exec.lookup (some c) L.sequence >>= fun v =>
        Exec.charge 1 >>= fun _ => Exec.lookup (some c) L.index >>= fun i => getItem v i) := by
    rw [Simulation.eval_subscript]
    · simp only [Machine.eval, bind_assoc]
    all_goals simp
  rw [hread] at hP ⊢
  obtain ⟨hsequence, hitems⟩ : L.Keeps k value items { s with fuel := 0 } := hP.start
  -- What is found from the comprehension is what the scope of the loop has.
  have hvalue : s.found? (some c) L.sequence = some value :=
    (hlead.found? hF (by simp [Iteration.names]) 0).1.trans hsequence
  have hindex : s.found? (some c) L.index = some (.int j) :=
    (hlead.found? hF (by simp [Iteration.names]) 0).1.trans
      ((hF.found?_pinned hlead.root (by simp [Iteration.hidden])).1 h.index)
  have hname (fuel : Nat) : (s.under F fuel).found? (some c) L.element = some item :=
    (hlead.found? hF (by simp [Iteration.names]) fuel).2.trans
      ((hF.found?_pinned hlead.root (by simp [Iteration.hidden])).2 fuel helement)
  refine AttainsAt.paying (n := 3) (m := 1) (X := getItem value (.int j)) (Y := pure item) ?_ ?_ ?_
  · rw [Exec.charge_bind_charge, Exec.charge_lookup_apply hvalue, Exec.charge_bind_charge,
      Exec.charge_lookup_apply hindex]
  · intro fuel
    rw [Machine.eval, ← bind_pure (Exec.lookup (some c) L.element), Exec.charge_lookup_apply (hname fuel)]
  · intro _
    have hfound : getItem value (.int j) { s with fuel := s.fuel - 3 } =
        .ok item { s with fuel := s.fuel - 3 } := getItem_apply hitems hitem h.fits
    unfold AttainsAt
    rw [hfound]
    exact .inr ⟨W', F, hW, hF, .here _ fun _ => rfl⟩

end Machine

end Concord

/-!
# Loops over elements

The body of a loop runs with elements that are read through an index, and in another run with a name in
their place. Wherever an element is read, both runs find the same value, and everything else is the same
in both; so one turn of the second loop attains the one of the first (`Iteration.Turn.execBlock`), as
long as the sequence keeps its items.
-/

namespace Concord

open Machine

namespace Machine.AttainsWhile

variable {α : Type} {hidden : List String} {swaps : Block → Block → Prop} {P : State → Prop}
  {start : Stages}

/-- Go on in the scope of a comprehension that binds none of the names. -/
theorem clearScope (names : List String) {p : Nat} {g : Stage} (hp : start[p]? = some g)
    {f k : Nat → Exec α} (h : ∀ W : Stages, start <+: W →
      AttainsWhile hidden swaps P ((W ++ [.clear names p]) <+: ·) (f W.length) (k W.length))
    (hsteady : ∀ i, Steady (f i)) :
    AttainsWhile hidden swaps P (start <+: ·) (Exec.newScope { parent := some p } >>= f)
      (Exec.newScope { parent := some p } >>= k) := by
  have hquiet : Quiet (Exec.newScope { parent := some p }) := .newScope _
  refine ⟨fun d => lessens_bind (lessens_quiet hquiet) fun i => hsteady i d, ?_⟩
  intro W s F hW hF hP
  have hat : W.At (some p) g := Stages.At.mono (show start.At (some p) g from hp) hW
  have hpush : Frame.Akin hidden swaps (W ++ [.clear names p])
      { s.frame with scopes := s.scopes.push { parent := some p } }
      { F with scopes := F.scopes.push { parent := some p } } := by
    refine hF.pushScope hat (show Stage.Within (.clear names p) g from trivial) (by simp) nofun ?_
    rintro _ _ ⟨⟩
    exact ⟨rfl, fun _ _ => rfl⟩
  have hsize : s.scopes.size = W.length := hF.left
  have hsize' : F.scopes.size = W.length := hF.right
  rw [bind_eq_catching] at hP
  have hinside := hP.next (fun d => lessens_quiet hquiet) (a := s.scopes.size)
    (t := { s with scopes := s.scopes.push { parent := some p } }) rfl
  rw [hsize] at hinside
  have hstep := (h W hW).attains (W ++ [.clear names p]) _ _ List.prefix_rfl hpush hinside
  have hleft : Exec.newScope { parent := some p } s =
      .ok W.length { s with scopes := s.scopes.push { parent := some p } } :=
    congrArg (EStateM.Result.ok · _) hsize
  have hright (fuel : Nat) : Exec.newScope { parent := some p } (s.under F fuel) =
      .ok W.length (State.under { s with scopes := s.scopes.push { parent := some p } }
        { F with scopes := F.scopes.push { parent := some p } } fuel) :=
    congrArg (EStateM.Result.ok · _) hsize'
  exact AttainsAt.step hleft hright
    (hstep.weaken fun W' hW' => hW.trans ((List.prefix_append W _).trans hW'))

/-- A handler goes on in the same way in both runs once it is known whether it catches. -/
theorem handled {env : Env} {g : Stage} (hat : start.At env g) (e : Exception) {x y other other' : Exec Flow}
    (hx : AttainsWhile hidden swaps P (start <+: ·) x y)
    (hother : AttainsWhile hidden swaps P (start <+: ·) other other') (name : Option String)
    (caught : Bool) : (∀ n ∈ name, g.Takes hidden n) → AttainsWhile hidden swaps P (start <+: ·)
      (if caught then
        match name with
        | some name => Exec.newException e >>= fun v => Exec.bind env name v >>= fun _ => x
        | none => x
      else other)
      (if caught then
        match name with
        | some name => Exec.newException e >>= fun v => Exec.bind env name v >>= fun _ => y
        | none => y
      else other') := by
  intro hname
  cases caught with
  | false => exact hother
  | true =>
    cases name with
    | none => exact hx
    | some n =>
      refine bind (plain (.newException e)) fun v => bind (Attains.meanwhile ?_ hat ?_) fun _ => hx
      · exact Attains.bindName (hname n rfl) v
      · exact fun d => lessens_quiet (.bindName env n v)

end Machine.AttainsWhile

namespace Iteration

open Machine AttainsWhile

variable {L : Iteration} {swaps : Block → Block → Prop} {call call' : Call} {value : Value}
  {items : List Value} {j : Nat} {left right : String → Option Value} {W : Stages} {k c : Nat}

/-! ## Where the body runs -/

/-- From the scope numbered `c`, both runs find what an element is read with. -/
abbrev Sees (L : Iteration) (left right : String → Option Value) (k : Nat) (W : Stages) (c : Nat) :
    Prop :=
  W.Leads L.names k (.pinned left right) c

theorem Sees.stage (h : L.Sees left right k W c) : ∃ g, W.At (some c) g ∧ g.hides = true := by
  cases h with
  | here h => exact ⟨_, h, rfl⟩
  | outwards hc _ => exact ⟨_, hc, rfl⟩

theorem mem_names {n : String} (h : n ∈ L.hidden) : n ∈ L.names := List.mem_cons_of_mem _ h

/-! ## Expressions -/

namespace Turn

theorem steady_eval (h : L.Turn swaps call call' items j left right) (env : Env) (e : Expr) :
    Steady (Machine.eval call env e) :=
  fun d => ((h.steady d).eval env e).2

/-- A comprehension that does not mention the index. -/
theorem evalAside (h : L.Turn swaps call call' items j left right) {env : Env} {g : Stage}
    {kind : CompKind} {e : Expr} {v : Option Expr} {cs : List Clause}
    (he : Fits L.hidden .shaded (Expr.subterms (.comp kind e v cs))) :
    Attains L.hidden swaps env g (Machine.eval call env (.comp kind e v cs))
      (Machine.eval call' env (.comp kind e v cs)) := by
  simp only [Expr.subterms, fits_cons, fits_append] at he
  rw [Machine.eval, Machine.eval]
  refine .bind (.charge 1) fun _ => .newScope (show Stage.shaded.Opens g from trivial) [] fun scope => ?_
  have hleaf := Attains.bind (h.calls.eval (some scope) e he.2.1) fun key =>
    Attains.bind (h.calls.evalOption (some scope) v he.2.2.1) fun value =>
      (Attains.ret (key, value) : Attains L.hidden swaps (some scope) .shaded _ _)
  exact .bind (h.calls.evalClauses (some scope) hleaf cs he.2.2.2) fun produced =>
    .plain (.comprehended _ produced)

mutual

/-- With names in the place of elements, an expression gives the same value. -/
theorem eval (h : L.Turn swaps call call' items j left right) {W : Stages} {c : Nat}
    (hsees : L.Sees left right k W c) : (e : Expr) →
    (∀ x ∈ (e.map L.read).subterms, x ≠ .name L.index) → (∀ x ∈ e.subterms, L.Admits (.expr x)) →
    AttainsWhile L.hidden swaps (L.Keeps k value items) (W <+: ·) (Machine.eval call (some c) e)
      (Machine.eval call' (some c) (e.map L.read))
  | .name n, hf, he => by
    obtain ⟨g, hat, -⟩ := hsees.stage
    have havoids := (he _ (List.mem_singleton_self _)).avoids (hf _ (List.mem_singleton_self _))
    have hn : n ∉ L.hidden := by simpa [Node.avoids, Node.mentioned] using havoids
    show AttainsWhile _ _ _ _ _ (Machine.eval call' (some c) (.name n))
    refine Attains.meanwhile ?_ hat (h.steady_eval _ _)
    rw [Machine.eval, Machine.eval]
    exact .bind (.charge 1) fun _ => .lookup fun _ => hn
  | .int _, _, _ | .float _, _, _ | .bool _, _, _ | .none, _, _ => by
    rw [Expr.map, Iteration.read, if_neg nofun, Machine.eval, Machine.eval]
    exact bind (charge 1) fun _ => ret _
  | .str _, _, _ => by
    rw [Expr.map, Iteration.read, if_neg nofun, Machine.eval, Machine.eval]
    refine bind (charge 1) fun _ => plain ?_
    grind
  | .bin _ l r, hf, he => by
    simp only [Expr.map, Iteration.read, isElement, Idiom.isElement, Bool.false_eq_true, if_false,
      Expr.subterms, List.forall_mem_cons, List.forall_mem_append] at hf he ⊢
    rw [Machine.eval, Machine.eval]
    exact bind (charge 1) fun _ => bind (h.eval hsees l hf.2.1 he.2.1) fun v =>
      bind (h.eval hsees r hf.2.2 he.2.2) fun w => plain (.binary _ v w)
  | .unary _ a, hf, he => by
    simp only [Expr.map, Iteration.read, isElement, Idiom.isElement, Bool.false_eq_true, if_false,
      Expr.subterms, List.forall_mem_cons] at hf he ⊢
    rw [Machine.eval, Machine.eval]
    exact bind (charge 1) fun _ => bind (h.eval hsees a hf.2 he.2) fun v => plain (.unary _ v)
  | .logic _ l r, hf, he => by
    simp only [Expr.map, Iteration.read, isElement, Idiom.isElement, Bool.false_eq_true, if_false,
      Expr.subterms, List.forall_mem_cons, List.forall_mem_append] at hf he ⊢
    rw [Machine.eval, Machine.eval]
    refine bind (charge 1) fun _ => bind (h.eval hsees l hf.2.1 he.2.1) fun v =>
      bind (plain (.truthy v)) fun b => ?_
    split
    · exact ret v
    · exact h.eval hsees r hf.2.2 he.2.2
  | .compare l links, hf, he => by
    simp only [Expr.map, Iteration.read, isElement, Idiom.isElement, Bool.false_eq_true, if_false,
      Expr.subterms, List.forall_mem_cons, List.forall_mem_append] at hf he ⊢
    rw [Machine.eval, Machine.eval]
    exact bind (charge 1) fun _ => bind (h.eval hsees l hf.2.1 he.2.1) fun v =>
      h.evalLinks hsees v links hf.2.2 he.2.2
  | .call f args, hf, he => by
    simp only [Expr.map, Iteration.read, isElement, Idiom.isElement, Bool.false_eq_true, if_false,
      Expr.subterms, List.forall_mem_cons, List.forall_mem_append] at hf he ⊢
    rw [Machine.eval, Machine.eval]
    refine bind (charge 1) fun _ => bind (h.eval hsees f hf.2.1 he.2.1) fun callee =>
      bind (h.evalArgs hsees args hf.2.2 he.2.2) ?_
    rintro ⟨positional, keywords⟩
    exact (h.calls callee positional keywords).meanwhile rfl fun d =>
      (h.steady d callee positional keywords).2
  | .attribute a _, hf, he => by
    simp only [Expr.map, Iteration.read, isElement, Idiom.isElement, Bool.false_eq_true, if_false,
      Expr.subterms, List.forall_mem_cons] at hf he ⊢
    rw [Machine.eval, Machine.eval]
    exact bind (charge 1) fun _ => bind (h.eval hsees a hf.2 he.2) fun v => ret _
  | .subscript a i, hf, he => by
    rw [map_subscript] at hf ⊢
    split at hf
    · next helement =>
      obtain ⟨rfl, rfl⟩ := eq_of_isElement helement
      rw [if_pos helement]
      exact AttainsWhile.element h hsees
    · next helement =>
      rw [if_neg helement]
      simp only [Expr.subterms, List.forall_mem_cons, List.forall_mem_append] at hf he
      have hvalue := h.eval hsees a hf.2.1 he.2.1
      have hindex := h.eval hsees i hf.2.2 he.2.2
      cases i with
      | slice l u s =>
        simp only [Expr.map, Iteration.read, isElement, Idiom.isElement, Bool.false_eq_true, if_false,
          Expr.subterms, List.forall_mem_cons, List.forall_mem_append] at hf he ⊢
        have hl := h.evalOption hsees l hf.2.2.2.1 he.2.2.2.1
        have hu := h.evalOption hsees u hf.2.2.2.2.1 he.2.2.2.2.1
        have hs := h.evalOption hsees s hf.2.2.2.2.2 he.2.2.2.2.2
        rw [Machine.eval, Machine.eval]
        exact bind (charge 1) fun _ => bind hvalue fun c =>
          bind hl fun l => bind (plain (.lift _)) fun l =>
          bind hu fun u => bind (plain (.lift _)) fun u =>
          bind hs fun s => bind (plain (.lift _)) fun s => plain (.getSlice c l u s)
      | _ =>
        rw [Simulation.eval_subscript call, Simulation.eval_subscript call']
        · exact bind (charge 1) fun _ => bind hvalue fun c => bind hindex fun i => plain (.getItem c i)
        · exact map_ne_slice nofun
        · nofun
  | .slice _ _ _, hf, he | .starred _, hf, he | .verbatim _, hf, he => by
    simp only [Expr.map, Iteration.read, isElement, Idiom.isElement, Bool.false_eq_true, if_false]
    rw [Machine.eval, Machine.eval]
    exact bind (charge 1) fun _ => throw _
  | .list es, hf, he => by
    simp only [Expr.map, Iteration.read, isElement, Idiom.isElement, Bool.false_eq_true, if_false,
      Expr.subterms, List.forall_mem_cons] at hf he ⊢
    rw [Machine.eval, Machine.eval]
    exact bind (charge 1) fun _ => bind (h.evalItems hsees es hf.2 he.2) fun vs => plain (.newList vs)
  | .tuple es, hf, he => by
    simp only [Expr.map, Iteration.read, isElement, Idiom.isElement, Bool.false_eq_true, if_false,
      Expr.subterms, List.forall_mem_cons] at hf he ⊢
    rw [Machine.eval, Machine.eval]
    exact bind (charge 1) fun _ => bind (h.evalItems hsees es hf.2 he.2) fun vs => plain (.newTuple vs)
  | .set es, hf, he => by
    simp only [Expr.map, Iteration.read, isElement, Idiom.isElement, Bool.false_eq_true, if_false,
      Expr.subterms, List.forall_mem_cons] at hf he ⊢
    rw [Machine.eval, Machine.eval]
    exact bind (charge 1) fun _ => bind (h.evalItems hsees es hf.2 he.2) fun vs => plain (.makeSet vs)
  | .dict es, hf, he => by
    simp only [Expr.map, Iteration.read, isElement, Idiom.isElement, Bool.false_eq_true, if_false,
      Expr.subterms, List.forall_mem_cons] at hf he ⊢
    rw [Machine.eval, Machine.eval]
    exact bind (charge 1) fun _ => bind (h.evalEntries hsees [] es hf.2 he.2) fun entries =>
      plain (.newDict entries)
  | .comp kind e v cs, hf, he => by
    obtain ⟨g, hat, -⟩ := hsees.stage
    have hconfines := (he _ (by rw [Expr.subterms]; exact List.mem_cons_self)).confines
    rw [Node.confines, Bool.or_eq_true, List.all_eq_true, List.all_eq_true] at hconfines
    obtain haside | htargets := hconfines
    · have hsame : (Expr.comp kind e v cs).map L.read = .comp kind e v cs :=
        map_eq_self fun x hx => ne_index_of_avoids (haside x hx)
      rw [hsame]
      refine Attains.meanwhile (h.evalAside ?_) hat (h.steady_eval _ _)
      exact fun x hx => avoids_hidden (haside x hx) (he x hx).fresh
    · simp only [Expr.map, Iteration.read, isElement, Idiom.isElement, Bool.false_eq_true, if_false,
        Expr.subterms, List.forall_mem_cons, List.forall_mem_append] at hf he ⊢
      rw [Machine.eval, Machine.eval]
      refine bind (charge 1) fun _ => clearScope L.names hat (fun W' hW => ?_) fun i d => ?_
      · have hinner : L.Sees left right k (W' ++ [.clear L.names c]) W'.length :=
          .outwards List.getElem?_concat_length ((hsees.mono hW).mono (List.prefix_append _ _))
        have hleaf := bind (h.eval hinner e hf.2.1 he.2.1) fun key =>
          bind (h.evalOption hinner v hf.2.2.1 he.2.2.1) fun value => ret (key, value)
        exact bind (h.evalClauses hinner List.getElem?_concat_length hleaf cs htargets hf.2.2.2 he.2.2.2)
          fun produced => plain (.comprehended _ produced)
      · have hleaf := (lessening d).bind ((h.steady d).eval (some i) e) fun key =>
          (lessening d).bind ((h.steady d).evalOption (some i) v) fun value =>
            (lessening d).ret (key, value)
        exact ((lessening d).bind ((h.steady d).evalClauses (some i) hleaf cs) fun produced =>
          (lessening d).plain (.comprehended _ produced)).2
  | .ifExp t a b, hf, he => by
    simp only [Expr.map, Iteration.read, isElement, Idiom.isElement, Bool.false_eq_true, if_false,
      Expr.subterms, List.forall_mem_cons, List.forall_mem_append] at hf he ⊢
    rw [Machine.eval, Machine.eval]
    refine bind (charge 1) fun _ => bind (h.eval hsees t hf.2.1 he.2.1) fun v =>
      bind (plain (.truthy v)) fun holds => ?_
    split
    · exact h.eval hsees a hf.2.2.1 he.2.2.1
    · exact h.eval hsees b hf.2.2.2 he.2.2.2
  | .lambda ps b, hf, he => by
    obtain ⟨g, hat, hhides⟩ := hsees.stage
    have hconfines := (he _ (by rw [Expr.subterms]; exact List.mem_cons_self)).confines
    rw [Node.confines, List.all_eq_true] at hconfines
    have hsame : (Expr.lambda ps b).map L.read = .lambda ps b :=
      map_eq_self fun x hx => ne_index_of_avoids (hconfines x hx)
    have havoids : ∀ x ∈ (Expr.lambda ps b).subterms, Node.avoids L.hidden (.expr x) = true :=
      fun x hx => avoids_hidden (hconfines x hx) (he x hx).fresh
    rw [hsame] at hf ⊢
    rw [Expr.subterms] at hf he havoids
    simp only [List.forall_mem_cons, List.forall_mem_append] at hf he havoids
    rw [Machine.eval, Machine.eval]
    refine bind (charge 1) fun _ => bind (h.evalParams hsees ps hf.2.1 he.2.1) fun ps => ?_
    refine Attains.meanwhile (.newClosure fun W' hW => ⟨rfl, rfl, rfl, g, hW, ?_⟩) hat ?_
    · exact Code.akin_self fun _ => havoids.2.2
    · exact fun d => ((lessening d).newClosure _ nofun).2

theorem evalOption (h : L.Turn swaps call call' items j left right) {W : Stages} {c : Nat}
    (hsees : L.Sees left right k W c) : (o : Option Expr) →
    (∀ x ∈ Expr.subtermsOption (Expr.mapOption L.read o), x ≠ .name L.index) →
    (∀ x ∈ Expr.subtermsOption o, L.Admits (.expr x)) →
    AttainsWhile L.hidden swaps (L.Keeps k value items) (W <+: ·) (Machine.evalOption call (some c) o)
      (Machine.evalOption call' (some c) (Expr.mapOption L.read o))
  | none, _, _ => by
    rw [Expr.mapOption, Machine.evalOption, Machine.evalOption]
    exact ret _
  | some e, hf, he => by
    rw [Expr.mapOption, Machine.evalOption, Machine.evalOption]
    exact bind (h.eval hsees e hf he) fun v => ret _

theorem evalItems (h : L.Turn swaps call call' items j left right) {W : Stages} {c : Nat}
    (hsees : L.Sees left right k W c) : (es : List Expr) →
    (∀ x ∈ Expr.subtermsList (Expr.mapList L.read es), x ≠ .name L.index) →
    (∀ x ∈ Expr.subtermsList es, L.Admits (.expr x)) →
    AttainsWhile L.hidden swaps (L.Keeps k value items) (W <+: ·) (Machine.evalItems call (some c) es)
      (Machine.evalItems call' (some c) (Expr.mapList L.read es))
  | [], _, _ => by
    rw [Expr.mapList, Machine.evalItems, Machine.evalItems]
    exact ret _
  | e :: es, hf, he => by
    simp only [Expr.mapList, Expr.subtermsList, List.forall_mem_append] at hf he
    have hitem := h.eval hsees e hf.1 he.1
    have hrest := h.evalItems hsees es hf.2 he.2
    rw [Expr.mapList]
    cases e with
    | starred a =>
      simp only [Expr.map, Iteration.read, isElement, Idiom.isElement, Bool.false_eq_true, if_false,
        Expr.subterms, List.forall_mem_cons] at hf he ⊢
      rw [Machine.evalItems, Machine.evalItems]
      exact bind (h.eval hsees a hf.1.2 he.1.2) fun v => bind ((conduct _ _ _ _).iterate v) fun vs =>
        bind hrest fun ws => ret _
    | _ =>
      rw [evalItems_cons rfl, evalItems_cons (isStarred_map _)]
      exact bind hitem fun v => bind hrest fun vs => ret _

theorem evalLinks (h : L.Turn swaps call call' items j left right) {W : Stages} {c : Nat}
    (hsees : L.Sees left right k W c) (first : Value) : (ls : List (CmpOp × Expr)) →
    (∀ x ∈ Expr.subtermsLinks (Expr.mapLinks L.read ls), x ≠ .name L.index) →
    (∀ x ∈ Expr.subtermsLinks ls, L.Admits (.expr x)) →
    AttainsWhile L.hidden swaps (L.Keeps k value items) (W <+: ·)
      (Machine.evalLinks call (some c) first ls)
      (Machine.evalLinks call' (some c) first (Expr.mapLinks L.read ls))
  | [], _, _ => by
    rw [Expr.mapLinks, Machine.evalLinks, Machine.evalLinks]
    exact ret _
  | (_, e) :: ls, hf, he => by
    simp only [Expr.mapLinks, Expr.subtermsLinks, List.forall_mem_append] at hf he ⊢
    rw [Machine.evalLinks, Machine.evalLinks]
    refine bind (h.eval hsees e hf.1 he.1) fun r => bind (plain (.compareValues _ first r)) fun b => ?_
    split
    · exact h.evalLinks hsees r ls hf.2 he.2
    · exact ret _

theorem evalArgs (h : L.Turn swaps call call' items j left right) {W : Stages} {c : Nat}
    (hsees : L.Sees left right k W c) : (as : List Arg) →
    (∀ x ∈ Expr.subtermsArgs (Expr.mapArgs L.read as), x ≠ .name L.index) →
    (∀ x ∈ Expr.subtermsArgs as, L.Admits (.expr x)) →
    AttainsWhile L.hidden swaps (L.Keeps k value items) (W <+: ·) (Machine.evalArgs call (some c) as)
      (Machine.evalArgs call' (some c) (Expr.mapArgs L.read as))
  | [], _, _ => by
    rw [Expr.mapArgs, Machine.evalArgs, Machine.evalArgs]
    exact ret _
  | .positional e :: as, hf, he | .keyword _ e :: as, hf, he => by
    simp only [Expr.mapArgs, Expr.subtermsArgs, List.forall_mem_append] at hf he ⊢
    rw [Machine.evalArgs, Machine.evalArgs]
    exact bind (h.eval hsees e hf.1 he.1) fun v => bind (h.evalArgs hsees as hf.2 he.2) fun _ => ret _
  | .star e :: as, hf, he => by
    simp only [Expr.mapArgs, Expr.subtermsArgs, List.forall_mem_append] at hf he ⊢
    rw [Machine.evalArgs, Machine.evalArgs]
    exact bind (h.eval hsees e hf.1 he.1) fun v => bind ((conduct _ _ _ _).iterate v) fun vs =>
      bind (h.evalArgs hsees as hf.2 he.2) fun _ => ret _
  | .doubleStar _ :: _, _, _ => by
    rw [Expr.mapArgs, Machine.evalArgs, Machine.evalArgs]
    exact throw _

theorem evalEntries (h : L.Turn swaps call call' items j left right) {W : Stages} {c : Nat}
    (hsees : L.Sees left right k W c) (done : Entries) : (es : List (Expr × Expr)) →
    (∀ x ∈ Expr.subtermsEntries (Expr.mapEntries L.read es), x ≠ .name L.index) →
    (∀ x ∈ Expr.subtermsEntries es, L.Admits (.expr x)) →
    AttainsWhile L.hidden swaps (L.Keeps k value items) (W <+: ·)
      (Machine.evalEntries call (some c) done es)
      (Machine.evalEntries call' (some c) done (Expr.mapEntries L.read es))
  | [], _, _ => by
    rw [Expr.mapEntries, Machine.evalEntries, Machine.evalEntries]
    exact ret _
  | (key, v) :: es, hf, he => by
    simp only [Expr.mapEntries, Expr.subtermsEntries, List.forall_mem_append] at hf he ⊢
    rw [Machine.evalEntries, Machine.evalEntries]
    exact bind (h.eval hsees key hf.1 he.1) fun a => bind (h.eval hsees v hf.2.1 he.2.1) fun b =>
      bind (plain (.insertEntry done a b)) fun done => h.evalEntries hsees done es hf.2.2 he.2.2

theorem evalParams (h : L.Turn swaps call call' items j left right) {W : Stages} {c : Nat}
    (hsees : L.Sees left right k W c) : (ps : List Param) →
    (∀ x ∈ Expr.subtermsParams ps, x ≠ .name L.index) →
    (∀ x ∈ Expr.subtermsParams ps, L.Admits (.expr x)) →
    AttainsWhile L.hidden swaps (L.Keeps k value items) (W <+: ·) (Machine.evalParams call (some c) ps)
      (Machine.evalParams call' (some c) ps)
  | [], _, _ => by
    rw [Machine.evalParams, Machine.evalParams]
    exact ret _
  | ⟨_, _, default, _⟩ :: ps, hf, he => by
    simp only [Expr.subtermsParams, List.forall_mem_append] at hf he
    have hsame : Expr.mapOption L.read default = default :=
      Expr.mapOption_eq_self default (read_eq_self (uses_mapOption default) hf.1)
    have hdefault := h.evalOption hsees default (hsame.symm ▸ hf.1) he.1
    rw [hsame] at hdefault
    rw [Machine.evalParams, Machine.evalParams]
    exact bind hdefault fun v => bind (h.evalParams hsees ps hf.2 he.2) fun _ => ret _

theorem evalConditions (h : L.Turn swaps call call' items j left right) {W : Stages} {c : Nat}
    (hsees : L.Sees left right k W c) : (es : List Expr) →
    (∀ x ∈ Expr.subtermsList (Expr.mapList L.read es), x ≠ .name L.index) →
    (∀ x ∈ Expr.subtermsList es, L.Admits (.expr x)) →
    AttainsWhile L.hidden swaps (L.Keeps k value items) (W <+: ·)
      (Machine.evalConditions call (some c) es)
      (Machine.evalConditions call' (some c) (Expr.mapList L.read es))
  | [], _, _ => by
    rw [Expr.mapList, Machine.evalConditions, Machine.evalConditions]
    exact ret _
  | e :: es, hf, he => by
    simp only [Expr.mapList, Expr.subtermsList, List.forall_mem_append] at hf he ⊢
    rw [Machine.evalConditions, Machine.evalConditions]
    refine bind (h.eval hsees e hf.1 he.1) fun v => bind (plain (.truthy v)) fun b => ?_
    split
    · exact h.evalConditions hsees es hf.2 he.2
    · exact ret _

/-- The clauses of a comprehension run in its own scope, where they bind neither the index nor the
sequence. -/
theorem evalClauses (h : L.Turn swaps call call' items j left right) {W : Stages} {c p : Nat}
    (hsees : L.Sees left right k W c) (hclear : W[c]? = some (.clear L.names p))
    {leaf leaf' : Exec (Value × Option Value)}
    (hleaf : AttainsWhile L.hidden swaps (L.Keeps k value items) (W <+: ·) leaf leaf') :
    (cs : List Clause) →
    (∀ clause ∈ cs, (clause.target.subterms.all fun e =>
      Node.avoids [L.sequence, L.index] (.expr e)) = true) →
    (∀ x ∈ Expr.subtermsClauses (Expr.mapClauses L.read cs), x ≠ .name L.index) →
    (∀ x ∈ Expr.subtermsClauses cs, L.Admits (.expr x)) →
    AttainsWhile L.hidden swaps (L.Keeps k value items) (W <+: ·)
      (Machine.evalClauses call (some c) leaf cs)
      (Machine.evalClauses call' (some c) leaf' (Expr.mapClauses L.read cs))
  | [], _, _, _ => by
    rw [Expr.mapClauses, Machine.evalClauses, Machine.evalClauses]
    exact bind hleaf fun p => ret _
  | ⟨t, i, ifs⟩ :: cs, htargets, hf, he => by
    simp only [Expr.mapClauses, Expr.subtermsClauses, List.forall_mem_append] at hf he ⊢
    obtain ⟨htarget, htargets⟩ := List.forall_mem_cons.mp htargets
    have hrest := h.evalClauses hsees hclear hleaf cs htargets hf.2.2.2 he.2.2.2
    have hconditions := h.evalConditions hsees ifs hf.2.2.1 he.2.2.1
    rw [List.all_eq_true] at htarget
    have hsame : t.map L.read = t := by
      refine map_eq_self fun x hx => ne_index_of_avoids ?_
      exact Node.avoids_mono (List.subset_cons_self ..) (htarget x hx)
    rw [hsame, Machine.evalClauses, Machine.evalClauses]
    refine bind (h.eval hsees i hf.1 he.1) fun v => bind ((conduct _ _ _ _).iterate v) fun items =>
      bind ((conduct _ _ _ _).mapM (fun item => ?_) items) fun produced => ret _
    refine bind (Attains.meanwhile (h.calls.assign (some c) item t ?_) hclear
      fun d => ((h.steady d).assign (some c) t item).2) fun _ => bind hconditions fun b => ?_
    · intro x hx
      have hother := Node.avoids_iff.mp (htarget x hx)
      have hfresh := Node.avoids_iff.mp (he.2.1 x hx).fresh
      refine Node.avoids_iff.mpr fun n hn => ?_
      have := hother n hn
      have := hfresh n hn
      simp_all [Stage.reserved, names, hidden]
    · split
      · exact hrest
      · exact ret _

end

/-! ## Statements -/

/-- A statement that mentions neither name. -/
theorem execAside (h : L.Turn swaps call call' items j left right)
    (hk : W[k]? = some (.pinned left right)) {s : Stmt} (hs : ∀ x ∈ s.nodes, x.avoids L.hidden = true) :
    AttainsWhile L.hidden swaps (L.Keeps k value items) (W <+: ·) (Machine.exec call (some k) s)
      (Machine.exec call' (some k) s) :=
  Attains.meanwhile (h.calls.exec (g := .pinned left right) (some k) s hs) hk fun d =>
    ((h.steady d).exec (some k) s nofun).2

/-- Assigning a value to targets, which mention neither name. -/
theorem assignEach (h : L.Turn swaps call call' items j left right)
    (hk : W[k]? = some (.pinned left right)) (v : Value) {ts : List Expr}
    (hts : ∀ y ∈ Expr.subtermsList ts, Node.avoids L.hidden (.expr y) = true) :
    AttainsWhile L.hidden swaps (L.Keeps k value items) (W <+: ·)
      (ts.forM fun t => Machine.assign call (some k) t v)
      (ts.forM fun t => Machine.assign call' (some k) t v) :=
  Attains.meanwhile (h.calls.assignEach (g := .pinned left right) (some k) v ts hts) hk fun d =>
    ((lessening d).conduct.forM (fun t => (h.steady d).assign (some k) t v) ts).2

theorem assign (h : L.Turn swaps call call' items j left right)
    (hk : W[k]? = some (.pinned left right)) (v : Value) {t : Expr}
    (ht : ∀ y ∈ t.subterms, Node.avoids L.hidden (.expr y) = true) :
    AttainsWhile L.hidden swaps (L.Keeps k value items) (W <+: ·) (Machine.assign call (some k) t v)
      (Machine.assign call' (some k) t v) :=
  Attains.meanwhile (h.calls.assign (g := .pinned left right) (some k) v t ht) hk fun d =>
    ((h.steady d).assign (some k) t v).2

mutual

/-- With names in the place of elements, a statement does the same. -/
theorem exec (h : L.Turn swaps call call' items j left right) (hk : W[k]? = some (.pinned left right)) :
    (s : Stmt) → (∀ x ∈ (s.map id L.read).nodes, x ≠ .expr (.name L.index)) →
    (∀ x ∈ s.nodes, L.Admits x) →
    AttainsWhile L.hidden swaps (L.Keeps k value items) (W <+: ·) (Machine.exec call (some k) s)
      (Machine.exec call' (some k) (s.map id L.read))
  | .define f, _, hs => by
    have hconfines := (hs _ (by rw [Stmt.nodes]; exact List.mem_cons_self)).confines
    rw [Node.confines, List.all_eq_true] at hconfines
    rw [mapStmt_eq_self hconfines]
    exact h.execAside hk fun x hx => avoids_hidden (hconfines x hx) (hs x hx).fresh
  | .ret v, hf, hs => by
    simp only [Stmt.map, id, Stmt.nodes, List.forall_mem_cons, free_exprNodes, admits_exprNodes] at hf hs ⊢
    rw [Machine.exec, Machine.exec]
    exact bind (charge 1) fun _ => bind (h.evalOption (.here hk) v hf.2 hs.2) fun v => ret _
  | .assign ts v n, hf, hs => by
    simp only [Stmt.map, id, Stmt.nodes, List.forall_mem_cons, free_exprNodes, admits_exprNodes,
      List.forall_mem_append] at hf hs ⊢
    obtain ⟨hsame, havoids⟩ := hs.1.targets hs.2.2 hf.2.2
    rw [show Expr.mapList L.read ts = ts from hsame, Machine.exec, Machine.exec]
    exact bind (charge 1) fun _ => bind (h.eval (.here hk) v hf.2.1 hs.2.1) fun value =>
      bind (h.assignEach hk value havoids) fun _ => ret _
  | .augAssign t op v, hf, hs => by
    simp only [Stmt.map, id, Stmt.nodes, List.forall_mem_cons, free_exprNodes, admits_exprNodes,
      List.forall_mem_append] at hf hs ⊢
    obtain ⟨hsame, havoids⟩ := hs.1.target rfl hs.2.1 hf.2.1
    have htarget : AttainsWhile L.hidden swaps (L.Keeps k value items) (W <+: ·) _ _ :=
      h.eval (.here hk) t hf.2.1 hs.2.1
    rw [hsame] at htarget ⊢
    rw [Machine.exec, Machine.exec]
    exact bind (charge 1) fun _ => bind (h.eval (.here hk) v hf.2.2 hs.2.2) fun operand =>
      bind htarget fun current => bind ((conduct _ _ _ _).augmented op current operand) fun value =>
        bind (h.assign hk value havoids) fun _ => ret _
  | .expr e, hf, hs => by
    simp only [Stmt.map, id, Stmt.nodes, List.forall_mem_cons, free_exprNodes, admits_exprNodes] at hf hs ⊢
    rw [Machine.exec, Machine.exec]
    exact bind (charge 1) fun _ => bind (h.eval (.here hk) e hf.2 hs.2) fun _ => ret _
  | .cond t body orelse, hf, hs => by
    simp only [Stmt.map, id, Stmt.nodes, List.forall_mem_cons, free_exprNodes, admits_exprNodes,
      List.forall_mem_append] at hf hs ⊢
    rw [Machine.exec, Machine.exec]
    refine bind (charge 1) fun _ => bind (h.eval (.here hk) t hf.2.1 hs.2.1) fun v =>
      bind (plain (.truthy v)) fun b => ?_
    split
    · exact h.execBlock hk body hf.2.2.1 hs.2.2.1
    · exact h.execBlock hk orelse hf.2.2.2 hs.2.2.2
  | .forLoop t i body orelse, hf, hs => by
    simp only [Stmt.map, id, Stmt.nodes, List.forall_mem_cons, free_exprNodes, admits_exprNodes,
      List.forall_mem_append] at hf hs ⊢
    obtain ⟨hsame, havoids⟩ := hs.1.target rfl hs.2.1.2 hf.2.1.2
    have hturn := h.execBlock hk body hf.2.2.1 hs.2.2.1
    rw [hsame, Machine.exec, Machine.exec]
    refine bind (charge 1) fun _ => bind (h.eval (.here hk) i hf.2.1.1 hs.2.1.1) fun v =>
      bind ((conduct _ _ _ _).iterate v) fun items => bind (forItems ?_) fun left => ?_
    · exact List.forall₂_same.mpr fun item _ => bind (h.assign hk item havoids) fun _ => hturn
    · split
      · exact ret _
      · exact h.execBlock hk orelse hf.2.2.2 hs.2.2.2
  | .whileLoop t body orelse, hf, hs => by
    simp only [Stmt.map, id, Stmt.nodes, List.forall_mem_cons, free_exprNodes, admits_exprNodes,
      List.forall_mem_append] at hf hs ⊢
    have htest : AttainsWhile L.hidden swaps (L.Keeps k value items) (W <+: ·) _ _ :=
      bind (h.eval (.here hk) t hf.2.1 hs.2.1) fun v => plain (.truthy v)
    have hturn := h.execBlock hk body hf.2.2.1 hs.2.2.1
    have hend := h.execBlock hk orelse hf.2.2.2 hs.2.2.2
    rw [Machine.exec, Machine.exec]
    refine bind (charge 1) fun _ => ?_
    -- The fuel is read before the loop starts: both together are `repeating`.
    rw [← bind_assoc, ← bind_assoc]
    refine bind (repeats (fun d => ?_) htest hturn) fun left => ?_
    · obtain ⟨x, _, hx, _, hrest⟩ := ((h.steady d).pays (some k) t).bind fun v =>
        (lessening d).plain (.truthy v)
      exact ⟨x, hx, hrest.2⟩
    · split
      · exact ret _
      · exact hend
  | .tryBlock body handlers orelse final, hf, hs => by
    simp only [Stmt.map, id, Stmt.nodes, List.forall_mem_cons, List.forall_mem_append] at hf hs ⊢
    have hnames := avoids_hidden hs.1.confines hs.1.fresh
    have hlast := h.execBlock hk final hf.2.2.2.2 hs.2.2.2.2
    rw [Machine.exec, Machine.exec]
    refine bind (charge 1) fun _ => guarding (h.execBlock hk body hf.2.1 hs.2.1)
      (h.execBlock hk orelse hf.2.2.2.1 hs.2.2.2.1)
      (fun e => h.execHandlers hk e handlers ?_ hf.2.2.1 hs.2.2.1) ?_ ?_
    · exact Attains.takes_of_handlers (g := .pinned left right) hnames
    · intro z hz
      split at hz
      · cases hz
      · next hne =>
        obtain rfl := Option.some.inj hz
        rw [Stmt.isEmpty_mapList, if_neg hne]
        exact ⟨Simulation.paid_execBlock call (some k) (by simpa using hne), _, rfl, hlast⟩
    · intro hnone
      rw [Stmt.isEmpty_mapList]
      split at hnone
      · rw [if_pos ‹_›]
      · cases hnone
  | .raise none _, _, _ => by
    rw [Stmt.map, id, Expr.mapOption, Machine.exec, Machine.exec]
    refine bind (charge 1) fun _ => Attains.meanwhile .reraise (show W.At (some k) _ from hk) fun d => ?_
    refine lessens_quiet (Quiet.read (f := State.handling)
      (g := fun | e :: _ => MonadExcept.throw (.raise e) | [] => MonadExcept.throw _) (fun _ _ => rfl)
      fun handling => ?_)
    cases handling <;> exact .throw _
  | .raise (some e) c, hf, hs => by
    simp only [Stmt.map, id, Stmt.nodes, List.forall_mem_cons, free_exprNodes, admits_exprNodes,
      List.forall_mem_append] at hf hs ⊢
    rw [Expr.mapOption, Machine.exec, Machine.exec]
    exact bind (charge 1) fun _ => bind (h.eval (.here hk) e hf.2.1 hs.2.1) fun v =>
      bind (plain (.ofHeap fun _ _ _ => rfl)) fun _ => throw _
  | .assert t m, hf, hs => by
    simp only [Stmt.map, id, Stmt.nodes, List.forall_mem_cons, free_exprNodes, admits_exprNodes,
      List.forall_mem_append] at hf hs ⊢
    have hmessage : AttainsWhile L.hidden swaps (L.Keeps k value items) (W <+: ·) _ _ :=
      h.evalOption (.here hk) m hf.2.2 hs.2.2
    rw [Machine.exec, Machine.exec]
    refine bind (charge 1) fun _ => bind (h.eval (.here hk) t hf.2.1 hs.2.1) fun v =>
      bind (plain (.truthy v)) fun b => ?_
    split
    · exact ret _
    · refine bind hmessage fun message => ?_
      cases message with
      | none => exact throw _
      | some v =>
        exact bind (plain (.ofHeap fun _ _ hcs => Heap.display_withClosures hcs v)) fun _ => throw _
  | .globals ns, _, hs | .nonlocals ns, _, hs => by
    have hnames := hs _ (List.mem_singleton_self _)
    refine h.execAside hk (List.forall_mem_singleton.mpr ?_)
    exact avoids_hidden hnames.confines hnames.fresh
  | .pass, _, _ | .break, _, _ | .continue, _, _ | .importNames _, _, _ | .importFrom _ _, _, _
  | .verbatim _ _ _, _, _ => h.execAside hk (List.forall_mem_singleton.mpr rfl)

/-- With names in the place of elements, a block does the same. -/
theorem execBlock (h : L.Turn swaps call call' items j left right)
    (hk : W[k]? = some (.pinned left right)) : (b : List Stmt) →
    (∀ x ∈ Stmt.nodesList (Stmt.mapList id L.read b), x ≠ .expr (.name L.index)) →
    (∀ x ∈ Stmt.nodesList b, L.Admits x) →
    AttainsWhile L.hidden swaps (L.Keeps k value items) (W <+: ·) (Machine.execBlock call (some k) b)
      (Machine.execBlock call' (some k) (Stmt.mapList id L.read b))
  | [], _, _ => by
    rw [Stmt.mapList, Machine.execBlock, Machine.execBlock]
    exact ret _
  | s :: rest, hf, hs => by
    simp only [Stmt.mapList, Stmt.nodesList, List.forall_mem_append] at hf hs
    have hnext := h.execBlock hk rest hf.2 hs.2
    rw [Stmt.mapList, Machine.execBlock, Machine.execBlock]
    refine bind (h.exec hk s hf.1 hs.1) fun flow => ?_
    split
    · exact hnext
    · exact ret _

theorem execHandlers (h : L.Turn swaps call call' items j left right)
    (hk : W[k]? = some (.pinned left right)) (e : Exception) : (handlers : List (HandlerOf Stmt)) →
    (∀ i ∈ handlers, ∀ n ∈ i.name, (Stage.pinned left right).Takes L.hidden n) →
    (∀ x ∈ Stmt.nodesHandlers (Stmt.mapHandlers id L.read handlers), x ≠ .expr (.name L.index)) →
    (∀ x ∈ Stmt.nodesHandlers handlers, L.Admits x) →
    AttainsWhile L.hidden swaps (L.Keeps k value items) (W <+: ·)
      (Machine.execHandlers call (some k) e handlers)
      (Machine.execHandlers call' (some k) e (Stmt.mapHandlers id L.read handlers))
  | [], _, _, _ => by
    rw [Stmt.mapHandlers, Machine.execHandlers, Machine.execHandlers]
    exact throw _
  | ⟨type, name, body⟩ :: rest, hnames, hf, hs => by
    simp only [Stmt.mapHandlers, Stmt.nodesHandlers, List.forall_mem_append, free_exprNodes,
      admits_exprNodes] at hf hs
    obtain ⟨hname, hnames⟩ := List.forall_mem_cons.mp hnames
    have hhandled := handling e (fun _ _ => id) (h.execBlock hk body hf.2.1 hs.2.1)
    have hnext := h.execHandlers hk e rest hnames hf.2.2 hs.2.2
    rw [Stmt.mapHandlers, Machine.execHandlers, Machine.execHandlers]
    refine bind (h.evalOption (.here hk) type hf.1 hs.1) fun handler => ?_
    have hat : W.At (some k) (.pinned left right) := hk
    have hcaught (caught : Bool) := handled hat e hhandled hnext name caught hname
    cases handler with
    | none => exact AttainsWhile.bind (ret true) hcaught
    | some handler =>
      exact bind (plain (.ofHeap fun _ _ _ => rfl)) fun r => bind (plain (.ofExcept r)) hcaught

end

end Turn

end Iteration

end Concord
