import Concord.Proofs.Machine.Beside
import Concord.Proofs.Machine.Budget

/-!
# An expression evaluated later

An expression that calls nothing and has no comprehensions binds no names and changes no containers; it
only makes new ones. So it may as well be evaluated in a state that has grown since: as long as the fuel
lasts it has the same value there, up to the places of what it makes itself.

Main statement: `Redoes.eval`.
-/

namespace Concord

namespace Expr

/-- No comprehension occurs in the expression. -/
def isCompFree (e : Expr) : Bool := !e.subterms.any (· matches .comp _ _ _ _)

/-- Neither a call nor a comprehension. -/
def isDirect : Expr → Bool
  | .call _ _ | .comp _ _ _ _ => false
  | _ => true

/-- All of the expressions are direct. -/
def Direct (es : List Expr) : Prop := ∀ e ∈ es, e.isDirect = true

theorem direct_subterms {e : Expr} (hcall : e.isCallFree = true) (hcomp : e.isCompFree = true) :
    Direct e.subterms := by
  intro d hd
  simp only [isCallFree, isCompFree, Bool.not_eq_true', List.any_eq_false] at hcall hcomp
  cases d with
  | call f args => exact absurd rfl (hcall _ hd)
  | comp k a v cs => exact absurd rfl (hcomp _ hd)
  | _ => rfl

namespace Direct

variable {e : Expr} {es es' : List Expr}

theorem left (h : Direct (es ++ es')) : Direct es := (List.forall_mem_append.mp h).1

theorem right (h : Direct (es ++ es')) : Direct es' := (List.forall_mem_append.mp h).2

theorem head (h : Direct (e :: es)) : e.isDirect = true := (List.forall_mem_cons.mp h).1

theorem tail (h : Direct (e :: es)) : Direct es := (List.forall_mem_cons.mp h).2

end Direct

end Expr

namespace Machine

variable {α β γ δ : Type}

/-- The step stops without an outcome. -/
def Halts (x : Exec α) (s : State) : Prop := ∃ h t, x s = .error (.halt h) t

/-- Whatever the step `x` gets done in a run from `b`, the step `y` gets done in a run from `e`, unless it
halts; `f` gives a result of the one as it is in the other. -/
def Redoes (b e : State) (f : β → α) (y : Exec α) (x : Exec β) : Prop :=
  ∀ s t, Beside b e s t → ∀ c t', x t = .ok c t' →
    Halts y s ∨ ∃ s', y s = .ok (f c) s' ∧ Beside b e s' t'

namespace Redoes

variable {b e : State} {f : β → α} {g : δ → γ} {y : Exec α} {x : Exec β}

/-! ## Rules -/

theorem ret {a : α} {c : β} (h : a = f c) : Redoes b e f (pure a) (pure c) := by
  rintro s t hst _ _ ⟨⟩
  exact .inr ⟨s, h ▸ rfl, hst⟩

theorem throw (i : Signal) : Redoes b e f y (throw i) := nofun

theorem bind {k : α → Exec γ} {l : β → Exec δ} (h : Redoes b e f y x)
    (hk : ∀ c, Redoes b e g (k (f c)) (l c)) : Redoes b e g (y >>= k) (x >>= l) := by
  intro s t hst c t' hrun
  rw [Exec.bind_apply] at hrun
  cases hx : x t with
  | error _ _ => rw [hx] at hrun; cases hrun
  | ok c₁ t₁ =>
    rw [hx] at hrun
    unfold Halts
    rw [Exec.bind_apply]
    obtain ⟨i, s', hy⟩ | ⟨s₁, hy, hst₁⟩ := h s t hst c₁ t₁ hx
    · rw [hy]
      exact .inl ⟨i, s', rfl⟩
    · rw [hy]
      exact hk c₁ s₁ t₁ hst₁ c t' hrun

theorem foldlM {k : γ → α → Exec γ} {l : δ → β → Exec δ}
    (h : ∀ d c, Redoes b e g (k (g d) (f c)) (l d c)) (d : δ) (cs : List β) :
    Redoes b e g ((cs.map f).foldlM k (g d)) (cs.foldlM l d) := by
  induction cs generalizing d with
  | nil => exact ret rfl
  | cons c cs ih =>
    rw [List.map_cons, List.foldlM_cons, List.foldlM_cons]
    exact (h d c).bind ih

theorem lift {r : Except Signal α} {r' : Except Signal β} (h : r = r'.map f) :
    Redoes b e f (liftM r) (liftM r') := by
  subst h
  cases r' with
  | error i => exact throw i
  | ok c => exact ret rfl

/-- A result that is the same in both runs. -/
theorem liftSame (r : Except Signal α) : Redoes b e id (liftM r) (liftM r) := by
  cases r with
  | error i => exact throw i
  | ok a => exact ret rfl

theorem charge (n : Nat) : Redoes b e id (Exec.charge n) (Exec.charge n) := by
  intro s t hst c t' hx
  unfold Halts
  rw [Exec.charge_apply] at hx ⊢
  by_cases hfuel : s.fuel < n
  · rw [if_pos hfuel]
    exact .inl ⟨_, _, rfl⟩
  · have hle := hst.fuel
    rw [if_neg (by omega)] at hx
    cases hx
    rw [if_neg hfuel]
    refine .inr ⟨_, rfl, ?_⟩
    exact { hst with
      first := hst.first.spend n
      second := hst.second.spend n
      fuel := Nat.sub_le_sub_right hle n }

/-! ## The heap -/

theorem ofHeap {q : Heap → α} {q' : Heap → β}
    (h : ∀ h g : Heap, h.Moved (.between b e) g → g.containers ≤ h.containers → q h = f (q' g)) :
    Redoes b e f (Exec.ofHeap q) (Exec.ofHeap q') := by
  rintro s t hst _ _ ⟨⟩
  exact .inr ⟨s, congrArg (EStateM.Result.ok · s) (h _ _ hst.moved hst.containers_le), hst⟩

theorem truthy (v : Value) : Redoes b e id (Exec.truthy (v.moved (.between b e))) (Exec.truthy v) :=
  ofHeap fun _ _ H _ => H.truthy_eq v

theorem hashable (v : Value) : Redoes b e id (Exec.ofHeap (·.hashable (v.moved (.between b e))))
    (Exec.ofHeap (·.hashable v)) :=
  ofHeap fun _ _ H hle => H.hashable_eq hle v

theorem listItems (r : Ref) : Redoes b e (List.map (·.moved (.between b e)))
    (Exec.ofHeap (·.list ((Relocation.between b e).list r))) (Exec.ofHeap (·.list r)) :=
  ofHeap fun _ _ H _ => H.list r

theorem tupleItems (r : Ref) : Redoes b e (List.map (·.moved (.between b e)))
    (Exec.ofHeap (·.tuple ((Relocation.between b e).tuple r))) (Exec.ofHeap (·.tuple r)) :=
  ofHeap fun _ _ H _ => H.tuple r

theorem newList (items : List Value) :
    Redoes b e (·.moved (.between b e)) (Exec.newList (items.map (·.moved (.between b e))))
      (Exec.newList items) := by
  rintro s t hst _ _ ⟨⟩
  refine .inr ⟨_, congrArg (EStateM.Result.ok · _) ?_, ?_⟩
  · exact congrArg Value.list hst.lists.place_size.symm
  · exact { hst with
      first := { hst.first with heap := { hst.first.heap with lists := hst.first.heap.lists.push _ } }
      second := { hst.second with heap := { hst.second.heap with lists := hst.second.heap.lists.push _ } }
      lists := hst.lists.push items }

theorem newTuple (items : List Value) :
    Redoes b e (·.moved (.between b e)) (Exec.newTuple (items.map (·.moved (.between b e))))
      (Exec.newTuple items) := by
  rintro s t hst _ _ ⟨⟩
  refine .inr ⟨_, congrArg (EStateM.Result.ok · _) ?_, ?_⟩
  · exact congrArg Value.tuple hst.tuples.place_size.symm
  · exact { hst with
      first := { hst.first with heap := { hst.first.heap with tuples := hst.first.heap.tuples.push _ } }
      second := {
        hst.second with heap := { hst.second.heap with tuples := hst.second.heap.tuples.push _ } }
      tuples := hst.tuples.push items }

theorem newSet (members : List Value) :
    Redoes b e (·.moved (.between b e)) (Exec.newSet (members.map (·.moved (.between b e))))
      (Exec.newSet members) := by
  rintro s t hst _ _ ⟨⟩
  refine .inr ⟨_, congrArg (EStateM.Result.ok · _) ?_, ?_⟩
  · exact congrArg Value.set hst.sets.place_size.symm
  · exact { hst with
      first := { hst.first with heap := { hst.first.heap with sets := hst.first.heap.sets.push _ } }
      second := { hst.second with heap := { hst.second.heap with sets := hst.second.heap.sets.push _ } }
      sets := hst.sets.push members }

theorem newDict (entries : Entries) :
    Redoes b e (·.moved (.between b e)) (Exec.newDict (entries.map (entryMoved (.between b e))))
      (Exec.newDict entries) := by
  rintro s t hst _ _ ⟨⟩
  refine .inr ⟨_, congrArg (EStateM.Result.ok · _) ?_, ?_⟩
  · exact congrArg Value.dict hst.dicts.place_size.symm
  · exact { hst with
      first := { hst.first with heap := { hst.first.heap with dicts := hst.first.heap.dicts.push _ } }
      second := { hst.second with heap := { hst.second.heap with dicts := hst.second.heap.dicts.push _ } }
      dicts := hst.dicts.push entries }

/-- Nothing looks into functions, so it does not matter what their defaults are. -/
theorem newClosure (c c' : Closure) :
    Redoes b e (·.moved (.between b e)) (Exec.newClosure c') (Exec.newClosure c) := by
  rintro s t hst _ _ ⟨⟩
  refine .inr ⟨_, congrArg (EStateM.Result.ok · _) ?_, ?_⟩
  · exact congrArg Value.function ((movedRef_of_le hst.first.heap.closures).trans hst.closures.symm).symm
  · have hfirst : b.heap.closures.size ≤ (t.heap.closures.push c).size := by
      rw [Array.size_push]
      exact Nat.le_succ_of_le hst.first.heap.closures
    have hsecond : e.heap.closures.size ≤ (s.heap.closures.push c').size := by
      rw [Array.size_push]
      exact Nat.le_succ_of_le hst.second.heap.closures
    have hsize := hst.closures
    exact { hst with
      first := { hst.first with heap := { hst.first.heap with closures := hfirst } }
      second := { hst.second with heap := { hst.second.heap with closures := hsecond } }
      closures := by
        simp only [Array.size_push]
        omega }

/-- A name stands for the same in both runs. -/
theorem lookup (hb : b.Grounded) (he : b.Grown e) (env : Env) (name : String) :
    Redoes b e (·.moved (.between b e)) (Exec.lookup env name) (Exec.lookup env name) := by
  intro s t hst v t' hx
  have hbase : Exec.lookup env name b = .ok v b ∧ t' = t := by
    unfold Exec.lookup at hx ⊢
    dsimp only at hx ⊢
    rw [hst.first.scopes, hst.first.globals] at hx
    split at hx
    · cases hx
      exact ⟨rfl, rfl⟩
    · cases hx
  obtain ⟨hv, rfl⟩ := hbase
  have hmoved : v.moved (.between b e) = v :=
    (hb.lookup hv).elim (fun hhas => hhas.moved_eq e) Value.moved_of_predefined?
  refine .inr ⟨s, ?_, hst⟩
  unfold Exec.lookup at hv ⊢
  dsimp only at hv ⊢
  rw [hst.second.scopes, hst.second.globals, he.scopes, he.globals, hmoved]
  split at hv
  · cases hv
    rfl
  · cases hv

/-! ## Operators -/

theorem repeatSequence (items : Value) (times : Int) :
    Redoes b e (·.moved (.between b e)) (repeatSequence (items.moved (.between b e)) times)
      (repeatSequence items times) := by
  cases items with
  | str s => exact (liftSame (repeated s.toList times)).bind fun cs => ret rfl
  | list r =>
    exact (listItems r).bind fun items =>
      (lift (repeated_map _ items times)).bind fun items => newList items
  | tuple r =>
    exact (tupleItems r).bind fun items =>
      (lift (repeated_map _ items times)).bind fun items => newTuple items
  | _ => exact ret rfl

theorem sequenceOp (op : BinOp) (left right : Value) :
    Redoes b e (·.moved (.between b e))
      (sequenceOp op (left.moved (.between b e)) (right.moved (.between b e)))
      (sequenceOp op left right) := by
  cases op with
  | add =>
    cases left with
    | str a =>
      cases right with
      | str b => exact ret rfl
      | _ => exact throw _
    | list r =>
      cases right with
      | list q =>
        refine (ofHeap fun h g H _ => ?_).bind fun items => newList items
        rw [H.list, H.list, List.map_append]
      | _ => exact throw _
    | tuple r =>
      cases right with
      | tuple q =>
        refine (ofHeap fun h g H _ => ?_).bind fun items => newTuple items
        rw [H.tuple, H.tuple, List.map_append]
      | _ => exact throw _
    | _ => exact throw _
  | mul =>
    unfold Machine.sequenceOp
    dsimp only
    rw [repetition?_moved]
    cases repetition? left right with
    | none => exact throw _
    | some p =>
      obtain ⟨items, times⟩ := p
      cases times with
      | int times => exact repeatSequence items times
      | float x => exact throw _
  | sub =>
    cases left with
    | set r =>
      cases right with
      | set q =>
        refine (ofHeap fun h g H hle => ?_).bind fun members => newSet members
        simp only [H.set, List.filter_map, List.any_map, Function.comp_def, H.equal_eq hle]
      | _ => exact throw _
    | _ => exact throw _
  | mod => cases left <;> exact throw _
  | _ => exact throw _

theorem binary (op : BinOp) (left right : Value) :
    Redoes b e (·.moved (.between b e))
      (binary op (left.moved (.between b e)) (right.moved (.between b e))) (binary op left right) := by
  unfold Machine.binary
  rw [Value.number?_moved, Value.number?_moved]
  split
  case h_1 m n _ _ =>
    cases hv : numberOp op m n with
    | error i => exact throw i
    | ok v => exact ret (Value.moved_of_numberOp hv).symm
  · exact sequenceOp op left right

theorem unary (op : UnaryOp) (operand : Value) :
    Redoes b e (·.moved (.between b e)) (unary op (operand.moved (.between b e))) (unary op operand) := by
  unfold Machine.unary
  rw [Value.number?_moved]
  split
  · exact (truthy operand).bind fun b => ret rfl
  · refine lift ?_
    unfold checked
    split <;> rfl
  · exact ret rfl
  · exact ret rfl
  · exact ret rfl
  · exact ret rfl
  · exact throw _

/-- Asking whether an item is among others. -/
theorem among {items items' : Heap → List Value} (item : Value)
    (h : ∀ h g : Heap, h.Moved (.between b e) g → items h = (items' g).map (·.moved (.between b e))) :
    Redoes b e id (Exec.ofHeap fun h => (items h).any (h.equal · (item.moved (.between b e))))
      (Exec.ofHeap fun h => (items' h).any (h.equal · item)) :=
  ofHeap fun h' g H hle => by
    rw [h h' g H]
    exact Heap.any_equal_moved (H.equal_eq hle) _ item

theorem contains (container item : Value) :
    Redoes b e id (contains (container.moved (.between b e)) (item.moved (.between b e)))
      (contains container item) := by
  cases container with
  | str text =>
    cases item with
    | str part => exact ret rfl
    | _ => exact throw _
  | list r => exact among item fun h g H => H.list r
  | set r => exact among item fun h g H => H.set r
  | tuple r => exact among item fun h g H => H.tuple r
  | dict r => exact among item fun h g H => (congrArg _ (H.dict r)).trans (keys_moved _)
  | range start stop step =>
    unfold Machine.contains
    dsimp only [Value.moved]
    rw [Value.int?_moved]
    split <;> exact ret rfl
  | _ => exact throw _

theorem ordered (left right : Value) (p : Ordering → Bool) :
    Redoes b e id
      (do return p (← Exec.raising (← Exec.ofHeap
        (·.order (left.moved (.between b e)) (right.moved (.between b e))))))
      (do return p (← Exec.raising (← Exec.ofHeap (·.order left right)))) := by
  intro s t hst c t' hx
  rw [Exec.bind_apply] at hx
  dsimp only [Exec.ofHeap] at hx
  cases ho : t.heap.order left right with
  | error i => rw [ho] at hx; cases hx
  | ok o =>
    rw [ho] at hx
    cases hx
    refine .inr ⟨s, ?_, hst⟩
    rw [Exec.bind_apply]
    dsimp only [Exec.ofHeap]
    rw [hst.moved.order_eq_ok hst.containers_le ho]
    rfl

theorem compareValues (op : CmpOp) (left right : Value) :
    Redoes b e id (compareValues op (left.moved (.between b e)) (right.moved (.between b e)))
      (compareValues op left right) := by
  have hequal : Redoes b e id
      (Exec.ofHeap (·.equal (left.moved (.between b e)) (right.moved (.between b e))))
      (Exec.ofHeap (·.equal left right)) := ofHeap fun h g H hle => H.equal_eq hle left right
  cases op with
  | eq => exact hequal
  | notEq => exact hequal.bind fun b => ret rfl
  | lt | ltEq | gt | gtEq => exact ordered left right _
  | same => exact ret (Value.identical_moved left right)
  | notSame => exact ret (congrArg not (Value.identical_moved left right))
  | member => exact contains right left
  | notMember => exact (contains right left).bind fun b => ret rfl

/-! ## Items -/

theorem charged (items : List β) (k : β → α) :
    Redoes b e (List.map k) (Exec.charge (items.map k).length >>= fun _ => pure (items.map k))
      (Exec.charge items.length >>= fun _ => pure items) := by
  rw [List.length_map]
  exact (charge items.length).bind fun _ => ret rfl

theorem iterate (v : Value) :
    Redoes b e (List.map (·.moved (.between b e))) (iterate (v.moved (.between b e))) (iterate v) := by
  cases v with
  | list r => exact (listItems r).bind fun items => charged items _
  | set r => exact (ofHeap fun h g H _ => H.set r).bind fun items => charged items _
  | tuple r => exact (tupleItems r).bind fun items => charged items _
  | dict r =>
    exact (ofHeap fun h g H _ => (congrArg _ (H.dict r)).trans (keys_moved _)).bind fun items =>
      charged items _
  | str s =>
    have hchars := charged (b := b) (e := e) (s.toList.map fun c => Value.str c.toString)
      (·.moved (.between b e))
    rw [← chars_moved] at hchars
    exact hchars
  | range start stop step => exact (charge _).bind fun _ => ret (by simp)
  | _ => exact throw _

theorem getItem (container index : Value) :
    Redoes b e (·.moved (.between b e))
      (getItem (container.moved (.between b e)) (index.moved (.between b e)))
      (getItem container index) := by
  cases container with
  | list r => exact (listItems r).bind fun items => lift (itemAt_moved items index _)
  | tuple r => exact (tupleItems r).bind fun items => lift (itemAt_moved items index _)
  | str s =>
    refine lift ?_
    rw [← itemAt_moved, ← chars_moved]
  | range start stop step =>
    unfold Machine.getItem
    dsimp only [Value.moved]
    rw [position_moved]
    exact (liftSame _).bind fun place => ret rfl
  | dict r =>
    refine (ofHeap fun h g H hle => ?_).bind (f := Option.map (·.moved (.between b e))) fun found => ?_
    · exact (congrArg (h.valueOf? · _) (H.dict r)).trans
        (Heap.valueOf?_moved (H.equal_eq hle) _ index)
    · cases found with
      | some v => exact ret rfl
      | none => exact nofun
  | _ => exact throw _

theorem boundOf (v : Option Value) :
    Redoes b e id (liftM (boundOf (v.map (·.moved (.between b e))))) (liftM (boundOf v)) := by
  rw [boundOf_moved]
  exact liftSame _

theorem getSlice (container : Value) (lower upper step : Option Int) :
    Redoes b e (·.moved (.between b e)) (getSlice (container.moved (.between b e)) lower upper step)
      (getSlice container lower upper step) := by
  cases container with
  | list r =>
    exact (listItems r).bind fun items =>
      (lift (sliceItems_map _ items lower upper step)).bind fun items => newList items
  | tuple r =>
    exact (tupleItems r).bind fun items =>
      (lift (sliceItems_map _ items lower upper step)).bind fun items => newTuple items
  | str s => exact (liftSame _).bind fun cs => ret rfl
  | _ => exact throw _

/-! ## Keys and members -/

theorem insertEntry (entries : Entries) (key value : Value) :
    Redoes b e (List.map (entryMoved (.between b e)))
      (insertEntry (entries.map (entryMoved (.between b e))) (key.moved (.between b e))
        (value.moved (.between b e)))
      (insertEntry entries key value) := by
  refine (hashable key).bind fun holds => ?_
  cases holds with
  | true => exact ofHeap fun h g H hle => Heap.insertEntry_moved (H.equal_eq hle) key value entries
  | false => exact throw _

theorem makeSet (items : List Value) :
    Redoes b e (·.moved (.between b e)) (makeSet (items.map (·.moved (.between b e))))
      (makeSet items) := by
  refine bind (foldlM (g := List.map (·.moved (.between b e))) (fun members item => ?_) [] items)
    fun members => newSet members
  refine (hashable item).bind fun holds => ?_
  cases holds with
  | true => exact ofHeap fun h g H hle => Heap.insertMember_moved (H.equal_eq hle) members item
  | false => exact throw _

/-! ## Expressions -/

section

variable (call : Call) (env : Env)

mutual

/-- An expression without calls and comprehensions has the same value later on. -/
theorem eval (hb : b.Grounded) (he : b.Grown e) : (a : Expr) → Expr.Direct a.subterms →
    Redoes b e (·.moved (.between b e)) (Machine.eval call env a) (Machine.eval call env a)
  | .name m, _ => by
    rw [Machine.eval]
    exact (charge 1).bind fun _ => lookup hb he env m
  | .int _, _ | .float _, _ | .bool _, _ | .none, _ => by
    rw [Machine.eval]
    exact (charge 1).bind fun _ => ret rfl
  | .str lit, _ => by
    rw [Machine.eval]
    refine (charge 1).bind fun _ => ?_
    split
    · exact throw _
    · exact ret rfl
  | .bin op l r, ha => by
    rw [Machine.eval]
    exact (charge 1).bind fun _ => (eval hb he l ha.tail.left).bind fun v =>
      (eval hb he r ha.tail.right).bind fun w => binary op v w
  | .unary op a, ha => by
    rw [Machine.eval]
    exact (charge 1).bind fun _ => (eval hb he a ha.tail).bind fun v => unary op v
  | .logic op l r, ha => by
    rw [Machine.eval]
    refine (charge 1).bind fun _ => (eval hb he l ha.tail.left).bind fun v =>
      (truthy v).bind fun holds => ?_
    dsimp only [id]
    split
    · exact ret rfl
    · exact eval hb he r ha.tail.right
  | .compare l links, ha => by
    rw [Machine.eval]
    exact (charge 1).bind fun _ => (eval hb he l ha.tail.left).bind fun v =>
      evalLinks hb he v links ha.tail.right
  | .call _ _, ha => nomatch ha.head
  | .attribute a _, ha => by
    rw [Machine.eval]
    exact (charge 1).bind fun _ => (eval hb he a ha.tail).bind fun v => ret rfl
  | .subscript a i, ha => by
    have hvalue := eval hb he a ha.tail.left
    have hindex := eval hb he i ha.tail.right
    cases i with
    | slice l u w =>
      have hparts := ha.tail.right.tail
      have hl := evalOption hb he l hparts.left
      have hu := evalOption hb he u hparts.right.left
      have hw := evalOption hb he w hparts.right.right
      rw [Machine.eval]
      exact (charge 1).bind fun _ => hvalue.bind fun v =>
        hl.bind fun l => (boundOf l).bind fun l => hu.bind fun u => (boundOf u).bind fun u =>
        hw.bind fun w => (boundOf w).bind fun w => getSlice v l u w
    | _ =>
      -- The equation of `eval` for this case asks for indices that are no slices.
      rw [Simulation.eval_subscript call env]
      · exact (charge 1).bind fun _ => hvalue.bind fun v => hindex.bind fun i => getItem v i
      · simp
  | .slice _ _ _, _ | .starred _, _ | .verbatim _, _ => by
    rw [Machine.eval]
    exact (charge 1).bind fun _ => throw _
  | .list items, ha => by
    rw [Machine.eval]
    exact (charge 1).bind fun _ => (evalItems hb he items ha.tail).bind fun vs => newList vs
  | .tuple items, ha => by
    rw [Machine.eval]
    exact (charge 1).bind fun _ => (evalItems hb he items ha.tail).bind fun vs => newTuple vs
  | .set items, ha => by
    rw [Machine.eval]
    exact (charge 1).bind fun _ => (evalItems hb he items ha.tail).bind fun vs => makeSet vs
  | .dict entries, ha => by
    rw [Machine.eval]
    exact (charge 1).bind fun _ => (evalEntries hb he [] entries ha.tail).bind fun es => newDict es
  | .comp _ _ _ _, ha => nomatch ha.head
  | .ifExp t a a', ha => by
    rw [Machine.eval]
    refine (charge 1).bind fun _ => (eval hb he t ha.tail.left).bind fun v =>
      (truthy v).bind fun holds => ?_
    dsimp only [id]
    split
    · exact eval hb he a ha.tail.right.left
    · exact eval hb he a' ha.tail.right.right
  | .lambda params body, ha => by
    rw [Machine.eval]
    exact (charge 1).bind fun _ => (evalParams hb he params ha.tail.left).bind fun ps => newClosure _ _
termination_by structural x => x

theorem evalOption (hb : b.Grounded) (he : b.Grown e) : (o : Option Expr) →
    Expr.Direct (Expr.subtermsOption o) →
    Redoes b e (Option.map (·.moved (.between b e))) (Machine.evalOption call env o)
      (Machine.evalOption call env o)
  | none, _ => by
    rw [Machine.evalOption]
    exact ret rfl
  | some a, ha => by
    rw [Machine.evalOption]
    exact (eval hb he a ha).bind fun v => ret rfl
termination_by structural x => x

theorem evalItems (hb : b.Grounded) (he : b.Grown e) : (es : List Expr) →
    Expr.Direct (Expr.subtermsList es) →
    Redoes b e (List.map (·.moved (.between b e))) (Machine.evalItems call env es)
      (Machine.evalItems call env es)
  | [], _ => by
    rw [Machine.evalItems]
    exact ret rfl
  | a :: es, ha => by
    have hitem := eval hb he a ha.left
    have hrest := evalItems hb he es ha.right
    cases a with
    | starred inner =>
      have hinner := eval hb he inner ha.left.tail
      rw [Machine.evalItems]
      exact hinner.bind fun v => (iterate v).bind fun vs => hrest.bind fun ws => ret (by simp)
    | _ =>
      rw [Machine.evalItems]
      · exact hitem.bind fun v => hrest.bind fun vs => ret rfl
      · simp
termination_by structural x => x

theorem evalLinks (hb : b.Grounded) (he : b.Grown e) (left : Value) : (ls : List (CmpOp × Expr)) →
    Expr.Direct (Expr.subtermsLinks ls) →
    Redoes b e (·.moved (.between b e))
      (Machine.evalLinks call env (left.moved (.between b e)) ls) (Machine.evalLinks call env left ls)
  | [], _ => by
    rw [Machine.evalLinks, Machine.evalLinks]
    exact ret rfl
  | (op, a) :: ls, ha => by
    rw [Machine.evalLinks, Machine.evalLinks]
    refine (eval hb he a ha.left).bind fun right => (compareValues op left right).bind fun holds => ?_
    dsimp only [id]
    split
    · exact evalLinks hb he right ls ha.right
    · exact ret rfl
termination_by structural x => x

theorem evalEntries (hb : b.Grounded) (he : b.Grown e) (done : Entries) : (es : List (Expr × Expr)) →
    Expr.Direct (Expr.subtermsEntries es) →
    Redoes b e (List.map (entryMoved (.between b e)))
      (Machine.evalEntries call env (done.map (entryMoved (.between b e))) es)
      (Machine.evalEntries call env done es)
  | [], _ => by
    rw [Machine.evalEntries, Machine.evalEntries]
    exact ret rfl
  | (key, value) :: es, ha => by
    rw [Machine.evalEntries, Machine.evalEntries]
    exact (eval hb he key ha.left).bind fun key => (eval hb he value ha.right.left).bind fun value =>
      (insertEntry done key value).bind fun done => evalEntries hb he done es ha.right.right
termination_by structural x => x

theorem evalParams (hb : b.Grounded) (he : b.Grown e) : (ps : List Param) →
    Expr.Direct (Expr.subtermsParams ps) →
    Redoes b e (List.map fun p => (p.1, p.2.map (·.moved (.between b e))))
      (Machine.evalParams call env ps) (Machine.evalParams call env ps)
  | [], _ => by
    rw [Machine.evalParams]
    exact ret rfl
  | ⟨name, kind, default, note⟩ :: ps, ha => by
    rw [Machine.evalParams]
    exact (evalOption hb he default ha.left).bind fun v =>
      (evalParams hb he ps ha.right).bind fun _ => ret rfl
termination_by structural x => x

end

end

end Redoes

end Machine

end Concord
