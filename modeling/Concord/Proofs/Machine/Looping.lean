import Concord.Proofs.Machine.Elementwise
import Concord.Proofs.Machine.Filled

/-!
# A loop over elements in the place of a loop over indices

A loop `for i in range(len(xs))` whose body reads `xs[i]` goes through the same elements as a loop
`for x in xs`, as long as the sequence keeps its items. In each turn the index has a value in the one
run, and the element in the other: the scope of the loop is pinned anew (`Frame.Akin.repin`).

Main statement:

* `Iteration.attains_loop`: the loop over elements attains the loop over indices from every state in
  which that spares its sequence (`Iteration.Spares`).
-/

namespace Concord

namespace Machine

variable {α β : Type} {hidden : List String} {swaps : Block → Block → Prop} {W W' : Stages}
  {F G : Frame} {env : Env} {g : Stage} {k : Nat} {l r : String → Option Value} {s : State}

/-! ## Pinning anew -/

/-- The variables when one of them has got a value. -/
def Stage.pin (l : String → Option Value) (n : String) (v : Value) (m : String) : Option Value :=
  if n = m then some v else l m

theorem Stage.Within.repin {l' r' : String → Option Value} (h : g.Within (.pinned l r)) :
    g.Within (.pinned l' r') := by
  cases g <;> simp_all [Stage.Within, Stage.hides]

theorem Stages.At.repin (h : W.At env g) (hk : W[k]? = some (.pinned l r)) (l' r' : String → Option Value) :
    ∃ g', Stages.At (W.set k (.pinned l' r')) env g' ∧
      (g' = g ∨ g = .pinned l r ∧ g' = .pinned l' r') := by
  cases env with
  | none => exact ⟨g, h, .inl rfl⟩
  | some i =>
    have hi : W[i]? = some g := h
    by_cases hki : k = i
    · subst hki
      cases hi.symm.trans hk
      have hlt : k < W.length := (List.getElem?_eq_some_iff.mp hk).1
      refine ⟨.pinned l' r', ?_, .inr ⟨rfl, rfl⟩⟩
      show (W.set k _)[k]? = _
      rw [List.getElem?_set_self hlt]
    · refine ⟨g, ?_, .inl rfl⟩
      show (W.set k _)[i]? = _
      rw [List.getElem?_set_ne hki, hi]

/-- In each run a hidden variable of a scope that is pinned gets a value. -/
theorem Frame.Akin.repin (h : F.Akin hidden swaps W G) (hk : W[k]? = some (.pinned l r)) {n n' : String}
    (hn : n ∈ hidden) (hn' : n' ∈ hidden) (v v' : Value) :
    Frame.Akin hidden swaps (W.set k (.pinned (Stage.pin l n v) (Stage.pin r n' v')))
      { F with scopes := F.scopes.modify k fun a => { a with vars := a.vars.set n v } }
      { G with scopes := G.scopes.modify k fun a => { a with vars := a.vars.set n' v' } } := by
  have hlt : k < W.length := (List.getElem?_eq_some_iff.mp hk).1
  refine { h with closures := ?_, left := ?_, right := ?_, exchanged := ?_, scopes := ?_ }
  · refine h.closures.imp fun c d hcd => ?_
    obtain ⟨p, hp, hcode⟩ := hcd.made
    obtain ⟨p', hp', rfl | ⟨rfl, rfl⟩⟩ := hp.repin hk (Stage.pin l n v) (Stage.pin r n' v')
    · exact { hcd with made := ⟨p', hp', hcode⟩ }
    · exact { hcd with made := ⟨_, hp', hcode⟩ }
  · rw [Array.size_modify, h.left, List.length_set]
  · rw [Array.size_modify, h.right, List.length_set]
  · intro g hg hof
    obtain hg | rfl := List.mem_or_eq_of_mem_set hg
    · exact h.exchanged g hg hof
    · obtain hof | hof := hof <;> cases hof
  · intro i g hi
    dsimp only
    rw [Array.getElem?_modify, Array.getElem?_modify]
    by_cases hki : k = i
    · subst hki
      rw [List.getElem?_set_self hlt] at hi
      cases hi
      obtain ⟨a, b, ha, hb, hab⟩ := h.scopes k _ hk
      refine ⟨{ a with vars := a.vars.set n v }, { b with vars := b.vars.set n' v' }, by simp [ha],
        by simp [hb], ?_⟩
      obtain ⟨p, hp, -⟩ := hab.outer
      obtain ⟨p', hp', -⟩ := hp.repin hk (Stage.pin l n v) (Stage.pin r n' v')
      refine { hab with outer := ⟨p', hp', trivial⟩, vars := ?_, pins := ?_, clears := nofun }
      · intro m hm
        have hne : n ≠ m := fun he => hm (he ▸ hn)
        have hne' : n' ≠ m := fun he => hm (he ▸ hn')
        simp only [Bindings.get?_set, beq_iff_eq, hne, hne', if_false]
        exact hab.vars m hm
      · rintro _ _ ⟨⟩ m hm
        obtain ⟨hleft, hright⟩ := hab.pins l r rfl m hm
        simp only [Bindings.get?_set, beq_iff_eq, hleft, hright]
        exact ⟨rfl, rfl⟩
    · rw [List.getElem?_set_ne hki] at hi
      obtain ⟨a, b, ha, hb, hab⟩ := h.scopes i g hi
      refine ⟨a, b, by simp [hki, ha], by simp [hki, hb], ?_⟩
      obtain ⟨p, hp, hwithin⟩ := hab.outer
      obtain ⟨p', hp', rfl | ⟨rfl, rfl⟩⟩ := hp.repin hk (Stage.pin l n v) (Stage.pin r n' v')
      · exact { hab with outer := ⟨p', hp', hwithin⟩ }
      · exact { hab with outer := ⟨_, hp', hwithin.repin⟩ }

/-- The scope numbered `k` may have been pinned anew since `start`. -/
def Stages.Repinned (start : Stages) (k : Nat) (W : Stages) : Prop :=
  ∃ l r, start.set k (.pinned l r) <+: W

namespace Stages.Repinned

variable {start : Stages}

theorem refl (hk : start[k]? = some (.pinned l r)) : start.Repinned k start := by
  obtain ⟨hlt, hpinned⟩ := List.getElem?_eq_some_iff.mp hk
  have hself : start.set k (.pinned l r) = start := by
    rw [← hpinned, List.set_getElem_self]
  exact ⟨l, r, hself.symm ▸ List.prefix_rfl⟩

theorem stage (h : start.Repinned k W) (hk : k < start.length) :
    ∃ l r, W[k]? = some (.pinned l r) := by
  obtain ⟨l, r, more, rfl⟩ := h
  refine ⟨l, r, ?_⟩
  rw [List.getElem?_append_left (by rw [List.length_set]; exact hk), List.getElem?_set_self hk]

theorem mono (h : start.Repinned k W) (hW : W <+: W') : start.Repinned k W' := by
  obtain ⟨l, r, hstart⟩ := h
  exact ⟨l, r, hstart.trans hW⟩

theorem again (h : start.Repinned k W) (hk : k < start.length) (l r : String → Option Value) :
    start.Repinned k (W.set k (.pinned l r)) := by
  obtain ⟨_, _, more, rfl⟩ := h
  refine ⟨l, r, more, ?_⟩
  rw [List.set_append_left _ _ (by rw [List.length_set]; exact hk), List.set_set]

end Stages.Repinned

/-- What attains in a scope that is pinned does so however it is pinned. -/
theorem Attains.repinned {start : Stages} {P : State → Prop} {x y : Exec α} (hk : k < start.length)
    (h : ∀ l r, Attains hidden swaps (some k) (.pinned l r) x y) (hsteady : Steady x) :
    AttainsWhile hidden swaps P (start.Repinned k) x y := by
  refine ⟨hsteady, fun W s F hW hF _ => ?_⟩
  obtain ⟨l, r, hpinned⟩ := hW.stage hk
  exact AttainsAt.weaken (h l r W s F hpinned hF) fun W' hW' => hW.mono hW'

/-! ## The indices of a sequence -/

/-- Calls reach the predefined functions that give the indices of a sequence. -/
structure Counts (call : Call) : Prop where
  len : ∀ (s : State) (v : Value) (items : List Value), s.heap.sequence? v = some items →
    call (.builtin .len) [v] [] s =
      (Exec.charge 1 >>= fun _ => pure (.int items.length) : Exec Value) s
  range : ∀ (s : State) (n : Nat),
    call (.builtin .range) [.int n] [] s =
      (Exec.charge 1 >>= fun _ => pure (.range 0 n 1) : Exec Value) s

theorem lengthOf_apply {v : Value} {items : List Value} (h : s.heap.sequence? v = some items) :
    lengthOf v s = .ok (.int items.length) s := by
  cases v with
  | list r | tuple r =>
    cases h
    rfl
  | str text =>
    cases h
    show (pure (.int text.length) : Exec Value) s = _
    rw [List.length_map, String.length_toList]
    rfl
  | _ => cases h

theorem counts_callBy (onClosure : Closure → List Value → Keywords → Exec Value) :
    Counts fun callee args keywords => callBy onClosure (args.length + 2) callee args keywords where
  len s v items h := by
    show (Exec.charge 1 >>= fun _ => lengthOf v : Exec Value) s = _
    rw [Exec.bind_apply, Exec.bind_apply, Exec.charge_apply]
    by_cases hpaid : s.fuel < 1
    · rw [if_pos hpaid]
    · rw [if_neg hpaid]
      exact lengthOf_apply h
  range s n := rfl

theorem Range.length_indices (n : Nat) : length 0 n 1 = n := by
  unfold length
  by_cases hn : n = 0
  · simp [hn]
  · rw [if_pos (by omega)]
    omega

/-- The indices of a sequence are charged for, and they are those below its length. -/
theorem iterate_indices {n : Nat} (hn : n ≤ maxInt) :
    iterate (.range 0 n 1) =
      (Exec.charge n >>= fun _ => pure ((List.range n).map fun j => .int j)) := by
  have hmembers : (Range.members 0 n 1).map Value.int = (List.range n).map fun j => .int j := by
    rw [Range.members_eq (by decide) (decide_eq_true ⟨by unfold minInt; omega, hn⟩) (by decide),
      Range.length_indices]
    simp
  show (Exec.charge (Range.length 0 n 1) >>= fun _ =>
    pure ((Range.members 0 n 1).map .int) : Exec (List Value)) = _
  rw [Range.length_indices, hmembers]

end Machine

open Machine

namespace Iteration

/-! ## The two loops -/

section

variable (L : Iteration)

/-- The indices of the sequence. -/
def indices : Expr :=
  .call (.name "range") [.positional (.call (.name "len") [.positional (.name L.sequence)])]

/-- The loop over the indices. -/
def indexLoop (body : Block) : Stmt := .forLoop (.name L.index) L.indices body []

/-- The loop over the elements. -/
def elementLoop (body : Block) : Stmt :=
  .forLoop (.name L.element) (.name L.sequence) (Stmt.mapList id L.read body) []

/-- What the body of the loop has to be: the index is only used to read elements, and these are read
where the loop runs. -/
structure Reads (body : Block) : Prop where
  other : L.sequence ≠ L.index
  free : ∀ x ∈ Stmt.nodesList (Stmt.mapList id L.read body), x ≠ .expr (.name L.index)
  admits : ∀ x ∈ Stmt.nodesList body, L.Admits x

/-- In the scope numbered `k` the loop reaches the functions that give the indices of its sequence, which
is a list, a tuple or a text, and leaves the sequence as it is. -/
structure Spares (call : Call) (k : Nat) (body : Block) (s : State) : Prop where
  range : s.found? (some k) "range" = some (.builtin .range)
  len : s.found? (some k) "len" = some (.builtin .len)
  kept : ∃ value items, items.length ≤ maxInt ∧
    Throughout (L.Keeps k value items) (Machine.exec call (some k) (L.indexLoop body)) s

end

variable {L : Iteration} {swaps : Block → Block → Prop} {call call' : Call} {k : Nat} {body : Block}
  {value : Value} {items : List Value} {s : State}

/-- What is left of a loop is its flow. -/
def finish (left : Option Flow) : Exec Flow :=
  match left with
  | some exit => pure exit
  | none => pure .next

/-- The loop over the indices pays, and then goes through them. -/
theorem exec_indexLoop (hcounts : Counts call) (hrange : s.found? (some k) "range" = some (.builtin .range))
    (hlen : s.found? (some k) "len" = some (.builtin .len)) (hkeeps : L.Keeps k value items s)
    (hfits : items.length ≤ maxInt) :
    Machine.exec call (some k) (L.indexLoop body) s =
      (Exec.charge (8 + items.length) >>= fun _ =>
        forItems (fun v => Machine.assign call (some k) (.name L.index) v >>= fun _ =>
          Machine.execBlock call (some k) body)
          ((List.range items.length).map fun (j : Nat) => .int j) >>= finish) s := by
  rw [indexLoop, Machine.exec]
  simp only [indices, Machine.eval, Machine.evalArgs, bind_assoc, pure_bind, Exec.charge_bind_charge]
  rw [Exec.charge_lookup_apply hrange]
  simp only [Exec.charge_bind_charge]
  rw [Exec.charge_lookup_apply hlen]
  simp only [Exec.charge_bind_charge]
  rw [Exec.charge_lookup_apply hkeeps.1,
    Exec.charge_paying_apply fun fuel => hcounts.len { s with fuel } value items hkeeps.2,
    Exec.charge_paying_apply fun fuel => hcounts.range { s with fuel } items.length, iterate_indices hfits]
  simp only [bind_assoc, Exec.charge_bind_charge, pure_bind, Machine.execBlock]
  rfl

/-- The loop over the elements pays, and then goes through them. -/
theorem exec_elementLoop (hkeeps : L.Keeps k value items s) :
    Machine.exec call (some k) (L.elementLoop body) s =
      (Exec.charge (2 + items.length) >>= fun _ =>
        forItems (fun v => Machine.assign call (some k) (.name L.element) v >>= fun _ =>
          Machine.execBlock call (some k) (Stmt.mapList id L.read body)) items >>= finish) s := by
  have hiterate (fuel : Nat) : iterate value { s with fuel } =
      (Exec.charge items.length >>= fun _ => pure items : Exec _) { s with fuel } :=
    iterate_apply (s := { s with fuel }) hkeeps.2
  rw [elementLoop, Machine.exec]
  simp only [Machine.eval, bind_assoc, Exec.charge_bind_charge]
  rw [Exec.charge_lookup_apply hkeeps.1, Exec.charge_paying_apply hiterate]
  simp only [Machine.execBlock]
  rfl

/-! ## A turn -/

section

variable (hcalls : Attains.Calls L.hidden swaps call call') (hsteady : ∀ d, (lessening d).Calls call call)
  (hreads : L.Reads body) {start W : Stages} {F : Frame} (hk : k < start.length)
include hcalls hsteady hreads hk

/-- In a turn, the index gets a value in the one run and the element in the other; then both run the
body. -/
theorem turn (hfits : items.length ≤ maxInt) {j : Nat} {item : Value} (hitem : items[j]? = some item) :
    AttainsWhile L.hidden swaps (L.Keeps k value items) (start.Repinned k)
      (Machine.assign call (some k) (.name L.index) (.int j) >>= fun _ =>
        Machine.execBlock call (some k) body)
      (Machine.assign call' (some k) (.name L.element) item >>= fun _ =>
        Machine.execBlock call' (some k) (Stmt.mapList id L.read body)) := by
  have hindex : L.index ∈ L.hidden := List.mem_cons_self
  have helement : L.element ∈ L.hidden := List.mem_cons_of_mem _ List.mem_cons_self
  have hquiet : Quiet (Exec.bind (some k) L.index (.int j)) := .bindName _ _ _
  rw [Machine.assign, Machine.assign]
  refine ⟨fun d => ?_, fun W s F hW hF hP => ?_⟩
  · exact lessens_bind (lessens_quiet hquiet) fun _ => ((hsteady d).execBlock (some k) body False.elim).2
  obtain ⟨l, r, hpinned⟩ := hW.stage hk
  obtain ⟨a, b, ha, hb, hab⟩ := hF.scopes k _ hpinned
  obtain ⟨hglobal, hnonlocal⟩ := hab.own _ hindex
  obtain ⟨hglobal', hnonlocal'⟩ := hab.own _ helement
  have hleft : Exec.bind (some k) L.index (.int j) s = .ok () { s with
      scopes := s.scopes.modify k fun a => { a with vars := a.vars.set L.index (.int j) } } := by
    rw [Exec.bind_some_apply ha, if_neg hglobal, if_neg hnonlocal]
    rfl
  have hright (fuel : Nat) : Exec.bind (some k) L.element item (s.under F fuel) = .ok () (State.under { s with
      scopes := s.scopes.modify k fun a => { a with vars := a.vars.set L.index (.int j) } }
      { F with scopes := F.scopes.modify k fun a => { a with vars := a.vars.set L.element item } } fuel) := by
    rw [Exec.bind_some_apply (s := s.under F fuel) hb, if_neg (hab.globals ▸ hglobal'),
      if_neg (hab.nonlocals ▸ hnonlocal')]
    rfl
  have hF' := hF.repin hpinned hindex helement (.int j) item
  have hW' := hW.again hk (Stage.pin l L.index (.int j)) (Stage.pin r L.element item)
  have hturn : L.Turn swaps call call' items j (Stage.pin l L.index (.int j))
      (Stage.pin r L.element item) :=
    { calls := hcalls
      steady := hsteady
      other := hreads.other
      fits := hfits
      item := ⟨item, hitem, if_pos rfl⟩
      index := if_pos rfl }
  have hscope : (W.set k (.pinned (Stage.pin l L.index (.int j)) (Stage.pin r L.element item)))[k]? =
      some (.pinned (Stage.pin l L.index (.int j)) (Stage.pin r L.element item)) :=
    List.getElem?_set_self (List.getElem?_eq_some_iff.mp hpinned).1
  rw [bind_eq_catching] at hP
  have hinside := hP.next (fun _ => lessens_quiet hquiet) hleft
  refine AttainsAt.step hleft hright (AttainsAt.weaken ?_ fun W'' => hW'.mono)
  exact (hturn.execBlock hscope body hreads.free hreads.admits).attains _ _ _ List.prefix_rfl hF' hinside

/-- The loop over the elements attains the loop over the indices, if that spares its sequence. -/
theorem attains_loop (hcounts : Counts call) (hW : start.Repinned k W)
    (hF : s.frame.Akin L.hidden swaps W F) (hspares : L.Spares call k body s) :
    AttainsAt L.hidden swaps (start.Repinned k) s F (Machine.exec call (some k) (L.indexLoop body))
      (Machine.exec call' (some k) (L.elementLoop body)) := by
  obtain ⟨value, items, hfits, hkept⟩ := hspares.kept
  obtain ⟨l, r, hpinned⟩ := hW.stage hk
  have hkeeps : L.Keeps k value items s := by
    have hpaying := hkept
    rw [indexLoop, Machine.exec] at hpaying
    exact hpaying.start
  have hright (fuel : Nat) : L.Keeps k value items (s.under F fuel) := by
    have hat : W.At (some k) (.pinned l r) := hpinned
    refine ⟨(Frame.Akin.found?_eq hF hat (fun _ => ?_) fuel).trans hkeeps.1, ?_⟩
    · simp [hidden, hreads.other, L.element_ne_sequence.symm]
    · rw [← hkeeps.2]
      cases value <;> rfl
  have hturns : List.Forall₂ (fun v w => AttainsWhile L.hidden swaps (L.Keeps k value items)
      (start.Repinned k)
      (Machine.assign call (some k) (.name L.index) v >>= fun _ => Machine.execBlock call (some k) body)
      (Machine.assign call' (some k) (.name L.element) w >>= fun _ =>
        Machine.execBlock call' (some k) (Stmt.mapList id L.read body)))
      ((List.range items.length).map fun (j : Nat) => .int j) items := by
    refine List.forall₂_iff_get.mpr ⟨by simp, fun j hj hitem => ?_⟩
    rw [List.get_eq_getElem, List.getElem_map, List.getElem_range]
    exact turn hcalls hsteady hreads hk hfits (List.getElem?_eq_getElem hitem)
  have hloop := (AttainsWhile.forItems hturns).bind (f := finish) (k := finish) fun left => by
    cases left <;> exact AttainsWhile.ret _
  refine AttainsAt.paying (exec_indexLoop hcounts hspares.range hspares.len hkeeps hfits)
    (fun fuel => exec_elementLoop (hright fuel)) fun hpaid => ?_
  refine hloop.attains W _ F hW hF (hkept.paid (fun fuel => ?_) hpaid)
  exact exec_indexLoop (s := { s with fuel }) hcounts hspares.range hspares.len hkeeps hfits

end

end Iteration

end Concord

/-!
# Loops that are watched

Whether a loop leaves its sequence as it is shows in a run only. So the loop is watched: a run that comes
to it goes on as long as the loop spares its sequence (`Iteration.Spares`), and otherwise gives up as if
its fuel were used up (`Iteration.watched`). A watched run that comes to an end is the run of the program
(`Iteration.follows_watchedAt`), and the loop over elements attains it (`Iteration.attains_watchedAt`).
-/

namespace Concord

namespace Machine

deriving instance DecidableEq for Value

instance {α : Type} (r : Ending α) : Decidable (Spent r) :=
  match r with
  | .ok _ _ => isFalse nofun
  | .error (.raise _) _ => isFalse nofun
  | .error (.halt h) t =>
    decidable_of_iff (h = .fuelExhausted ∧ t.fuel = 0)
      ⟨fun ⟨hh, ht⟩ => ⟨t, by rw [hh], ht⟩, fun ⟨_, heq, ht⟩ => by cases heq; exact ⟨rfl, ht⟩⟩

instance {α : Type} (P : State → Prop) [DecidablePred P] (x : Exec α) (s : State) :
    Decidable (Throughout P x s) :=
  inferInstanceAs (Decidable (∀ fuel ≤ s.fuel, Spent (x { s with fuel }) →
    P (Ending.state (x { s with fuel }))))

/-- A step that does nothing without fuel pays. -/
theorem Paid.of_spent {α : Type} {x : Exec α}
    (h : ∀ s : State, s.fuel = 0 → x s = .error (.halt .fuelExhausted) { s with fuel := 0 }) : Paid x := by
  let y : Exec α := fun s => x { s with fuel := s.fuel + 1 }
  refine ⟨y, funext fun s => ?_⟩
  show x s = (Exec.charge 1 >>= fun _ => y : Exec α) s
  rw [Exec.bind_apply, Exec.charge_apply]
  by_cases hs : s.fuel < 1
  · rw [if_pos hs]
    exact h s (by omega)
  · rw [if_neg hs]
    show x s = x { s with fuel := s.fuel - 1 + 1 }
    rw [Nat.sub_add_cancel (by omega)]

end Machine

open Machine

namespace Iteration

variable (L : Iteration) (call : Call) (k : Nat) (body : Block)

instance (value : Value) (items : List Value) : DecidablePred (L.Keeps k value items) :=
  fun s => inferInstanceAs (Decidable (s.found? (some k) L.sequence = some value ∧
    s.heap.sequence? value = some items))

/-- A loop that leaves its sequence as it is finds it at the start. -/
theorem spares_iff (s : State) : L.Spares call k body s ↔
    (s.found? (some k) "range" = some (.builtin .range) ∧
      s.found? (some k) "len" = some (.builtin .len)) ∧
    ∃ value ∈ s.found? (some k) L.sequence, ∃ items ∈ s.heap.sequence? value, items.length ≤ maxInt ∧
      Throughout (L.Keeps k value items) (Machine.exec call (some k) (L.indexLoop body)) s := by
  constructor
  · rintro ⟨hrange, hlen, value, items, hfits, hkept⟩
    have hstart : L.Keeps k value items s := by
      have hpaying := hkept
      rw [indexLoop, Machine.exec] at hpaying
      exact hpaying.start
    exact ⟨⟨hrange, hlen⟩, value, hstart.1, items, hstart.2, hfits, hkept⟩
  · rintro ⟨⟨hrange, hlen⟩, value, -, items, -, hfits, hkept⟩
    exact ⟨hrange, hlen, value, items, hfits, hkept⟩

instance (s : State) : Decidable (L.Spares call k body s) :=
  decidable_of_iff _ (L.spares_iff call k body s).symm

/-- The loop over the indices, which gives up if it does not spare its sequence. -/
def watched : Exec Flow := fun s =>
  if L.Spares call k body s then Machine.exec call (some k) (L.indexLoop body) s else Exec.exhaust s

/-- Run a body with the loop being watched, if it is the body in which the loop stands in the hole. -/
def watchedBlock (H : Hole) (b : Block) : Exec Flow :=
  if b = H.fill (L.indexLoop body) then H.run call (some k) (L.watched call k body)
  else Machine.execBlock call (some k) b

/-- Calls with so many levels left in which the loop is watched. -/
def watchedAt (H : Hole) : Nat → Call
  | 0, callee, args, keywords => callBy (fun _ _ _ => tooDeep) (args.length + 2) callee args keywords
  | levels + 1, callee, args, keywords =>
    callBy (enterBy (fun k b => L.watchedBlock (watchedAt H levels) k body H b) (watchedAt H levels))
      (args.length + 2) callee args keywords

/-! ## Watched runs -/

variable {L k body} {call call' : Call} {H : Hole}

theorem Spares.less {s : State} (h : L.Spares call k body s) (d : Nat) :
    L.Spares call k body (s.less d) := by
  obtain ⟨value, items, hfits, hkept⟩ := h.kept
  refine ⟨h.range, h.len, value, items, hfits, fun fuel hfuel => ?_⟩
  exact hkept fuel (Nat.le_trans hfuel (Nat.sub_le _ _))

theorem paid_watched : Paid (L.watched call k body) := by
  refine Paid.of_spent fun s hs => ?_
  rw [watched]
  split
  · obtain ⟨y, hy⟩ := Simulation.paid_exec call (some k) (L.indexLoop body)
    rw [hy, Exec.bind_apply, Exec.charge_apply, if_pos (by omega)]
  · rfl

theorem lessens_watched (h : ∀ d, (lessening d).Calls call call) (d : Nat) :
    Lessens d (L.watched call k body) := by
  intro s
  by_cases hspares : L.Spares call k body s
  · simp only [watched, if_pos hspares, if_pos (hspares.less d)]
    exact ((h d).exec (some k) (L.indexLoop body) False.elim).2 s
  · rw [watched, if_neg hspares]
    refine ⟨Nat.zero_le _, fun hd => ?_⟩
    obtain rfl : d = 0 := Nat.le_zero.mp hd
    exact if_neg hspares

/-- The watched loop does what the loop does, unless it gives up. -/
theorem follows_watched (h : (Allowance.ofFuel 0).simulation.Calls call call') :
    (Allowance.ofFuel 0).Follows (L.watched call k body)
      (Machine.exec call' (some k) (L.indexLoop body)) := by
  intro s hs
  rw [watched]
  split
  · exact h.exec (some k) (L.indexLoop body) False.elim s hs
  · exact .stop ⟨rfl, rfl⟩

theorem follows_watchedBlock (h : (Allowance.ofFuel 0).simulation.Calls call call') (b : Block) :
    (Allowance.ofFuel 0).Follows (L.watchedBlock call k body H b) (Machine.execBlock call' (some k) b) := by
  rw [watchedBlock]
  split
  · next hb =>
    rw [hb, Hole.execBlock_fill]
    exact h.hole id (some k) (follows_watched h) paid_watched H
  · exact h.execBlock (some k) b False.elim

theorem lessens_watchedBlock (h : ∀ d, (lessening d).Calls call call) (b : Block) (d : Nat) :
    Lessens d (L.watchedBlock call k body H b) := by
  rw [watchedBlock]
  split
  · exact ((h d).hole id (some k) ⟨rfl, lessens_watched h d⟩ paid_watched H).2
  · exact ((h d).execBlock (some k) b False.elim).2

variable (L body H)

/-- A watched call does what the call does, unless it gives up. -/
theorem follows_watchedAt (levels : Nat) :
    (Allowance.ofFuel 0).simulation.Calls (L.watchedAt body H levels) (callAt levels) := by
  induction levels with
  | zero =>
    intro callee args keywords
    exact Simulation.callBy (fun _ _ _ _ => fun _ _ => .inr ⟨rfl, nofun⟩) _ callee args keywords
  | succ levels ih =>
    intro callee args keywords
    refine Simulation.callBy (fun c hc args keywords => ?_) _ callee args keywords
    exact ih.enterBy (fun k b _ => follows_watchedBlock ih b) c hc args keywords

theorem lessens_watchedAt (levels d : Nat) :
    (lessening d).Calls (L.watchedAt body H levels) (L.watchedAt body H levels) := by
  induction levels generalizing d with
  | zero =>
    intro callee args keywords
    exact Simulation.callBy (S := lessening d) (fun _ _ _ _ => ⟨rfl, fun _ => ⟨Nat.le_refl _, fun _ => rfl⟩⟩) _ callee args keywords
  | succ levels ih =>
    intro callee args keywords
    refine Simulation.callBy (S := lessening d) (fun c hc args keywords => ?_) _ callee args keywords
    exact (ih d).enterBy (fun k b _ => ⟨rfl, lessens_watchedBlock ih b d⟩) c hc args keywords

theorem counts_watchedAt (levels : Nat) : Counts (L.watchedAt body H levels) := by
  cases levels with
  | zero => exact counts_callBy _
  | succ levels => exact counts_callBy _

end Iteration

/-! ## A call with the other loop -/

namespace Machine

variable {α : Type} {hidden : List String} {swaps : Block → Block → Prop} {env : Env} {g : Stage}

/-- What attains a step attains one that gives up earlier. -/
theorem Attains.of_follows {x y z : Exec α} (h : (Allowance.ofFuel 0).Follows x y)
    (hy : Attains hidden swaps env g y z) : Attains hidden swaps env g x z := by
  intro W s F hat hF
  obtain hspent | heq := h.ends s
  · exact .inl hspent
  · have hattains := hy W s F hat hF
    unfold AttainsAt at hattains ⊢
    rwa [heq] at hattains

theorem AttainsWhile.deepening {P : State → Prop} {Q : Stages → Prop} {x y : Exec α}
    (hP : ∀ t depth, P { t with depth } → P t) (h : AttainsWhile hidden swaps P Q x y) :
    AttainsWhile hidden swaps P Q (deeper x) (deeper y) := by
  refine ⟨fun d => lessens_deeper (h.steady d), ?_⟩
  rw [show deeper x = _ from funext (deeper_apply x), show deeper y = _ from funext (deeper_apply y)]
  intro W s F hQ hF hthroughout
  have hinside := hthroughout.changed (fun t => { t with depth := t.depth + 1 })
    (fun t => { t with depth := t.depth - 1 }) (fun _ _ => rfl) rfl (fun _ => rfl)
    fun t => hP t (t.depth - 1)
  exact AttainsAt.changed (fun t => { t with depth := t.depth + 1 })
    (fun t => { t with depth := t.depth - 1 }) id id (h.attains W _ F hQ hF hinside) (fun _ _ _ => rfl)
    (fun _ _ _ => rfl) (fun _ => rfl) fun _ _ _ hF => hF

/-- In a new scope that is pinned, in which both runs start with the same variables. -/
theorem Attains.pinnedScope (vars : Bindings) {f j : Nat → Exec α}
    (h : ∀ (start : Stages) (k : Nat) (l r : String → Option Value), start[k]? = some (.pinned l r) →
      AttainsIn hidden swaps (start.Repinned k) (f k) (j k)) :
    Attains hidden swaps env g (Exec.newScope { vars, parent := env } >>= f)
      (Exec.newScope { vars, parent := env } >>= j) := by
  intro W s F hat hF
  let t : State := { s with scopes := s.scopes.push { vars, parent := env } }
  let F' : Frame := { F with scopes := F.scopes.push { vars, parent := env } }
  have hpush : t.frame.Akin hidden swaps (W ++ [.pinned vars.get? vars.get?]) F' := by
    refine hF.pushScope hat (show Stage.Within (.pinned vars.get? vars.get?) g from trivial) (by simp) ?_
      nofun
    rintro _ _ ⟨⟩ n _
    exact ⟨rfl, rfl⟩
  have hleft : s.scopes.size = W.length := hF.left
  have hsize : F.scopes.size = s.scopes.size := hF.right.trans hF.left.symm
  have hnew : (W ++ [Stage.pinned vars.get? vars.get?])[s.scopes.size]? =
      some (.pinned vars.get? vars.get?) := by
    rw [hleft]
    exact List.getElem?_concat_length
  have hrun := (h _ s.scopes.size _ _ hnew).attains _ t F' (.refl hnew) hpush fun _ _ _ => trivial
  refine AttainsAt.step (a := s.scopes.size) (t := t) (b := s.scopes.size) rfl (fun fuel => ?_)
    (hrun.weaken ?_)
  · exact congrArg (EStateM.Result.ok · _) hsize
  · rintro W' ⟨l, r, hW'⟩
    -- Only the new scope is pinned anew.
    rw [hleft, List.set_append_right _ _ (Nat.le_refl _), Nat.sub_self, List.set_cons_zero] at hW'
    exact (List.prefix_append W _).trans hW'

end Machine

/-- Bodies around a spot that differ in what stands there. -/
def Spot.Differ (s s' : Stmt) : Spot → Block → Block → Prop
  | own H, b, b' => b = H.fill s ∧ b' = H.fill s'
  | inner H f P, b, b' =>
    b = (inner H f P).fill s ∧ b' = (inner H f P).fill s' ∨ P.Differ s s' b b'

theorem Spot.differ_fill {s s' : Stmt} (P : Spot) : P.Differ s s' (P.fill s) (P.fill s') := by
  cases P with
  | own H => exact ⟨rfl, rfl⟩
  | inner H f P => exact .inl ⟨rfl, rfl⟩

namespace Iteration

variable {L : Iteration} {swaps : Block → Block → Prop} {call call' : Call} {k : Nat} {body : Block}
  {H : Hole}

section

variable (hcalls : Attains.Calls L.hidden swaps call call') (hsteady : ∀ d, (lessening d).Calls call call)
include hcalls hsteady

/-- In the scope of a call, the body with the loop over elements attains the one with the watched loop. -/
theorem attains_hole (hcounts : Counts call) (hreads : L.Reads body)
    (hoff : ∀ x ∈ Block.nodes (H.fill .pass), x.avoids L.hidden = true) {start : Stages}
    {l r : String → Option Value} (hk : start[k]? = some (.pinned l r)) :
    AttainsIn L.hidden swaps (start.Repinned k) (H.run call (some k) (L.watched call k body))
      (Machine.execBlock call' (some k) (H.fill (L.elementLoop body))) := by
  have hlt : k < start.length := (List.getElem?_eq_some_iff.mp hk).1
  have haround : Around L.hidden swaps (start.Repinned k) (fun g => ∃ l r, g = .pinned l r) k call call' :=
    { calls := hcalls
      steady := hsteady
      stage := fun W hW => by
        obtain ⟨l, r, hpinned⟩ := hW.stage hlt
        exact ⟨_, ⟨l, r, rfl⟩, hpinned⟩
      mono := fun _ _ => .mono }
  have hloop : AttainsIn L.hidden swaps (start.Repinned k) (L.watched call k body)
      (Machine.exec call' (some k) (L.elementLoop body)) := by
    refine ⟨lessens_watched hsteady, fun W s F hW hF _ => ?_⟩
    by_cases hspares : L.Spares call k body s
    · have hattains := attains_loop hcalls hsteady hreads hlt hcounts hW hF hspares
      unfold AttainsAt at hattains ⊢
      rw [watched, if_pos hspares]
      exact hattains
    · unfold AttainsAt
      rw [watched, if_neg hspares]
      exact .inl ⟨{ s with fuel := 0 }, rfl, rfl⟩
  rw [Hole.execBlock_fill]
  refine haround.hole H (s := .pass) ?_ hloop paid_watched
  rintro x hx _ ⟨l, r, rfl⟩
  exact hoff x hx

/-- Each body around the spot attains its counterpart in a call. -/
theorem attains_spot (hcounts : Counts call) (hreads : L.Reads body)
    (hoff : ∀ x ∈ Block.nodes (H.fill .pass), x.avoids L.hidden = true) (P : Spot) (hole : P.hole = H)
    (hswaps : ∀ b b', P.Differ (L.indexLoop body) (L.elementLoop body) b b' → swaps b b') {b b' : Block}
    (hb : P.Differ (L.indexLoop body) (L.elementLoop body) b b') (env : Env) (vars : Bindings) :
    Attains L.hidden swaps env .apart
      (Exec.newScope { vars, parent := env } >>= fun k =>
        deeper (L.watchedBlock call k body H b >>= Flow.result))
      (Exec.newScope { vars, parent := env } >>= fun k =>
        deeper (Machine.execBlock call' (some k) b' >>= Flow.result)) := by
  induction P with
  | own K =>
    obtain rfl : K = H := hole
    obtain ⟨rfl, rfl⟩ := hb
    refine Attains.pinnedScope vars fun start k l r hk => .deepening (fun _ _ => id) ?_
    rw [watchedBlock, if_pos rfl]
    refine (attains_hole hcalls hsteady hcounts hreads hoff hk).bind fun flow => ?_
    cases flow <;> exact .ret _
  | inner K f P ih =>
    obtain ⟨rfl, rfl⟩ | hb := hb
    · refine Attains.newScope (show Stage.apart.Opens .apart from rfl) vars fun k =>
        .deepening (.bind ?_ Attains.result)
      -- Apart from the definition in it, this body is the same in both runs.
      refine .of_follows (follows_watchedBlock (fun _ _ _ => .refl _) _) ?_
      intro W s F hat hF
      have haround : Around L.hidden swaps (W <+: ·) (· = .apart) k call call' :=
        { calls := hcalls
          steady := hsteady
          stage := fun W' hW => ⟨_, rfl, Stages.At.mono hat hW⟩
          mono := fun _ _ => List.IsPrefix.trans }
      have hdefine : AttainsIn L.hidden swaps (W <+: ·)
          (Machine.exec call (some k) (.define { f with body := P.fill (L.indexLoop body) }))
          (Machine.exec call' (some k) (.define { f with body := P.fill (L.elementLoop body) })) := by
        refine haround.attains ?_ fun d => ((hsteady d).exec (some k) _ False.elim).2
        rintro _ rfl
        have hname : Stage.apart.Takes L.hidden f.name := nofun
        have hcode : Code.Akin L.hidden swaps .apart (.block (P.fill (L.indexLoop body)))
            (.block (P.fill (L.elementLoop body))) :=
          .inr ⟨_, _, hswaps _ _ (.inr P.differ_fill), rfl, rfl⟩
        exact Attains.define hname (hcalls.evalParams (some k) f.params fun _ _ => rfl) hcode
      rw [Spot.fill, Spot.fill, Hole.execBlock_fill, Hole.execBlock_fill]
      refine (haround.hole (s := .pass) K ?_ hdefine (Simulation.paid_exec ..)).attains W s F List.prefix_rfl
        hF fun _ _ _ => trivial
      rintro x _ _ rfl
      rfl
    · exact ih hole (fun b b' hb => hswaps b b' (.inr hb)) hb

end

/-- Calls in the program with the loop over elements attain the watched calls. -/
theorem attains_watchedAt {P : Spot} (hreads : L.Reads body)
    (hoff : ∀ x ∈ Block.nodes (P.hole.fill .pass), x.avoids L.hidden = true) (levels : Nat) :
    Attains.Calls L.hidden (P.Differ (L.indexLoop body) (L.elementLoop body))
      (L.watchedAt body P.hole levels) (callAt levels) := by
  induction levels with
  | zero =>
    intro callee args keywords
    exact Attains.callBy (fun _ _ _ _ _ _ _ _ _ => Attains.tooDeep) _ callee args keywords
  | succ levels ih =>
    intro callee args keywords
    refine Attains.callBy ?_ _ callee args keywords
    intro c d g hname hparams henv hcode args keywords
    refine ih.enterBy (fun g k b hb => ?_) (fun b b' hb env vars => ?_) hname hparams henv hcode args keywords
    · exact .of_follows (follows_watchedBlock (fun _ _ _ => .refl _) b) (ih.execBlock (some k) b hb)
    · exact attains_spot ih (lessens_watchedAt L body P.hole levels) (counts_watchedAt L body P.hole levels)
        hreads hoff P rfl (fun _ _ => id) hb env vars

end Iteration

end Concord
