import Concord.Proofs.Machine.Budget
import Concord.Proofs.Machine.Renumbered
import Concord.Machine.Eval

/-!
# Runs that keep pace

Two runs do the same work, one of them with a list more on its heap. A `Pace` is a relation of their
states that work on values and fuel keep up. `Pace.Step` says that whatever one run gets done, the other
gets done too, with the same result up to the places of lists.

Comparisons answer alike as long as the heap is small. The number of containers is bounded along with
the fuel: a step `from c to d` starts with room for `c` containers besides those that the fuel can pay
for, and leaves room for `d`. Every unit of fuel spent makes room for a container.
-/

namespace Concord.Machine

variable {α β γ δ : Type}

/-- There is room for `c` containers besides those that the fuel can pay for. -/
def State.Room (c : Nat) (s : State) : Prop := s.heap.containers + s.fuel + c ≤ 0x80000000

/-- A relation of the states of two runs, of which one has a list more, that looks at no more of heap
and fuel than it has to. -/
structure Pace (n : Nat) (built : List Value) where
  Rel : State → State → Prop
  fuel : ∀ {s t : State}, Rel s t → s.fuel ≤ t.fuel
  heap : ∀ {s t : State}, Rel s t → s.heap.WithList n built t.heap
  work : ∀ {s t : State} {h g : Heap} {u w : Nat}, Rel s t → h.WithList n built g → u ≤ w →
    Rel { s with heap := h, fuel := u } { t with heap := g, fuel := w }

namespace Pace

variable {n : Nat} {built : List Value} (P : Pace n built) {c d e : Nat}

/-- What the first step gets done, the second one gets done too; `f` gives a result of the second run as
it is in the first. -/
def Step (c d : Nat) (f : β → α) (y : Exec α) (x : Exec β) : Prop :=
  ∀ s t, P.Rel s t → s.Room c → ∀ a s', y s = .ok a s' →
    ∃ b t', x t = .ok b t' ∧ a = f b ∧ P.Rel s' t' ∧ s'.Room d

variable {P} {f : β → α} {g : δ → γ} {y : Exec α} {x : Exec β}

/-! ## Rules -/

theorem ret {a : α} {b : β} (h : a = f b) : P.Step c c f (pure a) (pure b) := by
  intro s t hst hroom a' s' hy
  cases hy
  exact ⟨b, t, rfl, h, hst, hroom⟩

/-- A result for which there was room to make a container. -/
theorem spare {a : α} {b : β} (h : a = f b) : P.Step (c + 1) c f (pure a) (pure b) := by
  intro s t hst hroom a' s' hy
  cases hy
  exact ⟨b, t, rfl, h, hst, Nat.le_of_succ_le hroom⟩

theorem throw (e : Signal) : P.Step c d f (throw e) x := nofun

theorem Step.bind {k : α → Exec γ} {l : β → Exec δ} (h : P.Step c d f y x)
    (hk : ∀ b, P.Step d e g (k (f b)) (l b)) : P.Step c e g (y >>= k) (x >>= l) := by
  intro s t hst hroom a s₂ hrun
  rw [Exec.bind_apply] at hrun ⊢
  cases hy : y s with
  | error _ _ => rw [hy] at hrun; cases hrun
  | ok a₁ s₁ =>
    rw [hy] at hrun
    obtain ⟨b, t₁, hx, rfl, hst₁, hroom₁⟩ := h s t hst hroom a₁ s₁ hy
    rw [hx]
    exact hk b s₁ t₁ hst₁ hroom₁ a s₂ hrun

/-- Less room may be left. -/
theorem Step.leave (h : P.Step c d f y x) (hle : e ≤ d) : P.Step c e f y x := by
  intro s t hst hroom a s' hy
  obtain ⟨b, t', hx, ha, hst', hroom'⟩ := h s t hst hroom a s' hy
  exact ⟨b, t', hx, ha, hst', Nat.le_trans (Nat.add_le_add_left hle _) hroom'⟩

theorem mapM {k : α → Exec γ} {l : β → Exec δ} (h : ∀ b, P.Step c c g (k (f b)) (l b)) (bs : List β) :
    P.Step c c (List.map g) ((bs.map f).mapM k) (bs.mapM l) := by
  induction bs with
  | nil => exact ret rfl
  | cons b bs ih =>
    rw [List.map_cons, List.mapM_cons, List.mapM_cons]
    exact (h b).bind fun d => ih.bind fun ds => ret rfl

theorem foldlM {k : γ → α → Exec γ} {l : δ → β → Exec δ}
    (h : ∀ d b, P.Step c c g (k (g d) (f b)) (l d b)) (d : δ) (bs : List β) :
    P.Step c c g ((bs.map f).foldlM k (g d)) (bs.foldlM l d) := by
  induction bs generalizing d with
  | nil => exact ret rfl
  | cons b bs ih =>
    rw [List.map_cons, List.foldlM_cons, List.foldlM_cons]
    exact (h d b).bind ih

theorem ofExcept {r : Except Signal α} {r' : Except Signal β}
    (h : ∀ a, r = .ok a → ∃ b, r' = .ok b ∧ a = f b) :
    P.Step c c f (Exec.ofExcept r) (Exec.ofExcept r') := by
  cases r with
  | error e => exact throw e
  | ok a =>
    obtain ⟨b, hb, hab⟩ := h a rfl
    rw [hb]
    exact ret hab

/-- A result that is the same in both runs. -/
theorem same (r : Except Signal α) : P.Step c c id (Exec.ofExcept r) (Exec.ofExcept r) :=
  ofExcept fun a ha => ⟨a, ha, rfl⟩

theorem charge (k : Nat) : P.Step c (c + k) id (Exec.charge k) (Exec.charge k) := by
  intro s t hst hroom a s' hy
  rw [Exec.charge_apply] at hy ⊢
  by_cases hfuel : s.fuel < k
  · rw [if_pos hfuel] at hy
    cases hy
  · rw [if_neg hfuel] at hy
    cases hy
    have hle := P.fuel hst
    rw [if_neg (by omega)]
    refine ⟨(), _, rfl, rfl, P.work hst (P.heap hst) (Nat.sub_le_sub_right hle k), ?_⟩
    unfold State.Room at hroom ⊢
    dsimp only
    omega

/-! ## The heap -/

theorem small {s t : State} (hst : P.Rel s t) (hroom : s.Room c) : t.heap.Small := by
  have hcontainers := (P.heap hst).containers_eq
  unfold State.Room at hroom
  unfold Heap.Small
  omega

theorem ofHeap {q : Heap → α} {q' : Heap → β}
    (h : ∀ h g : Heap, h.WithList n built g → g.Small → q h = f (q' g)) :
    P.Step c c f (Exec.ofHeap q) (Exec.ofHeap q') := by
  intro s t hst hroom a s' hy
  cases hy
  exact ⟨_, t, rfl, h _ _ (P.heap hst) (small hst hroom), hst, hroom⟩

/-- A change of the heaps that does not make containers. -/
theorem onHeap {k l : Heap → Heap}
    (h : ∀ h g : Heap, h.WithList n built g → (k h).WithList n built (l g))
    (hsize : ∀ h, (k h).containers = h.containers) :
    P.Step c c id (Exec.onHeap k) (Exec.onHeap l) := by
  intro s t hst hroom a s' hy
  cases hy
  refine ⟨(), _, rfl, rfl, P.work hst (h _ _ (P.heap hst)) (P.fuel hst), ?_⟩
  unfold State.Room at hroom ⊢
  dsimp only
  rwa [hsize]

theorem truthy (v : Value) : P.Step c c id (Exec.truthy (v.past n)) (Exec.truthy v) :=
  ofHeap fun _ _ H _ => H.truthy_eq v

theorem newList (items : List Value) :
    P.Step (c + 1) c (·.past n) (Exec.newList (items.map (·.past n))) (Exec.newList items) := by
  intro s t hst hroom a s' hy
  cases hy
  refine ⟨_, _, rfl, ?_, P.work hst ((P.heap hst).pushList items) (P.fuel hst), ?_⟩
  · exact congrArg Value.list (P.heap hst).pastRef_size.symm
  · unfold State.Room Heap.containers at hroom ⊢
    simp only [Array.size_push]
    omega

theorem newTuple (items : List Value) :
    P.Step (c + 1) c (·.past n) (Exec.newTuple (items.map (·.past n))) (Exec.newTuple items) := by
  intro s t hst hroom a s' hy
  cases hy
  refine ⟨_, _, rfl, ?_, P.work hst ((P.heap hst).pushTuple items) (P.fuel hst), ?_⟩
  · exact congrArg Value.tuple (P.heap hst).tuples
  · unfold State.Room Heap.containers at hroom ⊢
    simp only [Array.size_push]
    omega

theorem newSet (members : List Value) :
    P.Step (c + 1) c (·.past n) (Exec.newSet (members.map (·.past n))) (Exec.newSet members) := by
  intro s t hst hroom a s' hy
  cases hy
  refine ⟨_, _, rfl, ?_, P.work hst ((P.heap hst).pushSet members) (P.fuel hst), ?_⟩
  · exact congrArg Value.set (P.heap hst).sets
  · unfold State.Room Heap.containers at hroom ⊢
    simp only [Array.size_push]
    omega

theorem newDict (entries : Entries) :
    P.Step (c + 1) c (·.past n) (Exec.newDict (entries.map (entryPast n))) (Exec.newDict entries) := by
  intro s t hst hroom a s' hy
  cases hy
  refine ⟨_, _, rfl, ?_, P.work hst ((P.heap hst).pushDict entries) (P.fuel hst), ?_⟩
  · exact congrArg Value.dict (P.heap hst).dicts
  · unfold State.Room Heap.containers at hroom ⊢
    simp only [Array.size_push]
    omega

theorem setList (r : Ref) (items : List Value) :
    P.Step c c id (Exec.setList (pastRef n r) (items.map (·.past n))) (Exec.setList r items) :=
  onHeap (fun _ _ H => H.setList r items) fun h => by simp [Heap.containers]

theorem setDict (r : Ref) (entries : Entries) :
    P.Step c c id (Exec.setDict r (entries.map (entryPast n))) (Exec.setDict r entries) :=
  onHeap (fun _ _ H => H.setDict r entries) fun h => by simp [Heap.containers]

/-! ## Results without a state -/

theorem lift {r : Except Signal α} {r' : Except Signal β} (h : r = r'.map f) :
    P.Step c c f (liftM r) (liftM r') := by
  subst h
  cases r' with
  | error e => exact throw e
  | ok b => exact ret rfl

theorem liftSame (r : Except Signal α) : P.Step c c id (liftM r) (liftM r) := same r

theorem position_past (index : Value) (len : Nat) (message : String) :
    position (index.past n) len message = position index len message := by
  rw [Value.past_eq_moved, position_moved]

theorem itemAt_past (items : List Value) (index : Value) (message : String) :
    itemAt (items.map (·.past n)) (index.past n) message =
      (itemAt items index message).map (·.past n) := by
  rw [Value.past_eq_moved]
  exact itemAt_moved items index message

theorem boundOf_past (v : Option Value) : boundOf (v.map (·.past n)) = boundOf v := by
  rw [Value.past_eq_moved]
  exact boundOf_moved v

/-- Numbers are the same in both runs. -/
theorem past_of_numberOp {op : BinOp} {a b : Number} {v : Value} (h : numberOp op a b = .ok v) :
    v.past n = v := by
  rw [Value.past_eq_moved, Value.moved_of_numberOp h]

theorem repetition?_past (left right : Value) :
    repetition? (left.past n) (right.past n) =
      (repetition? left right).map fun p => (p.1.past n, p.2) := by
  rw [Value.past_eq_moved, repetition?_moved]

/-! ## Operators -/

theorem repeatSequence (items : Value) (times : Int) :
    P.Step (c + 1) c (·.past n) (repeatSequence (items.past n) times) (repeatSequence items times) := by
  have hstay : P.Step (c + 1) c (·.past n) (pure (items.past n)) (pure items) := spare rfl
  cases items with
  | str s =>
    exact (liftSame (repeated s.toList times)).bind fun cs => spare rfl
  | list r =>
    exact (ofHeap fun _ _ H _ => H.list r).bind fun items =>
      (lift (repeated_map _ items times)).bind fun items => newList items
  | tuple r =>
    exact (ofHeap fun _ _ H _ => H.tuple r).bind fun items =>
      (lift (repeated_map _ items times)).bind fun items => newTuple items
  | _ => exact hstay

theorem sequenceOp (op : BinOp) (left right : Value) :
    P.Step (c + 1) c (·.past n) (sequenceOp op (left.past n) (right.past n))
      (sequenceOp op left right) := by
  cases op with
  | add =>
    cases left with
    | str a =>
      cases right with
      | str b => exact spare rfl
      | _ => exact throw _
    | list r =>
      cases right with
      | list q =>
        refine (ofHeap fun h g H _ => ?_).bind fun items => newList items
        rw [H.list, H.list, List.map_append]
      | _ => exact throw _
    | tuple r =>
      cases right with
      | tuple q =>
        refine (ofHeap fun h g H _ => ?_).bind fun items => newTuple items
        rw [H.tuple, H.tuple, List.map_append]
      | _ => exact throw _
    | _ => exact throw _
  | mul =>
    unfold Machine.sequenceOp
    dsimp only
    rw [repetition?_past]
    cases repetition? left right with
    | none => exact throw _
    | some p =>
      obtain ⟨items, times⟩ := p
      cases times with
      | int times => exact repeatSequence items times
      | float x => exact throw _
  | sub =>
    cases left with
    | set r =>
      cases right with
      | set q =>
        refine (ofHeap fun h g H hs => ?_).bind fun members => newSet members
        simp only [H.set, List.filter_map, List.any_map, Function.comp_def, H.equal_eq hs]
      | _ => exact throw _
    | _ => exact throw _
  | mod => cases left <;> exact throw _
  | _ => exact throw _

theorem binary (op : BinOp) (left right : Value) :
    P.Step (c + 1) c (·.past n) (binary op (left.past n) (right.past n)) (binary op left right) := by
  unfold Machine.binary
  rw [Value.number?_past, Value.number?_past]
  split
  · exact (ofExcept fun v hv => ⟨v, hv, (past_of_numberOp hv).symm⟩).leave c.le_succ
  · exact sequenceOp op left right

theorem unary (op : UnaryOp) (operand : Value) :
    P.Step c c (·.past n) (unary op (operand.past n)) (unary op operand) := by
  unfold Machine.unary
  rw [Value.number?_past]
  split
  · exact (truthy operand).bind fun b => ret rfl
  · refine lift ?_
    unfold checked
    split <;> rfl
  · exact ret rfl
  · exact ret rfl
  · exact ret rfl
  · exact ret rfl
  · exact throw _

theorem among {items items' : Heap → List Value} (item : Value)
    (h : ∀ h g : Heap, h.WithList n built g → items h = (items' g).map (·.past n)) :
    P.Step c c id (Exec.ofHeap fun h => (items h).any (h.equal · (item.past n)))
      (Exec.ofHeap fun g => (items' g).any (g.equal · item)) :=
  ofHeap fun h' g H hs => by rw [h h' g H, H.any_equal_eq hs]; rfl

theorem keys_past (entries : Entries) :
    (entries.map (entryPast n)).map (·.1) = (entries.map (·.1)).map (·.past n) := by
  simp [entryPast]

theorem contains (container item : Value) :
    P.Step c c id (contains (container.past n) (item.past n)) (contains container item) := by
  cases container with
  | str text =>
    cases item with
    | str part => exact ret rfl
    | _ => exact throw _
  | list r => exact among item fun h g H => H.list r
  | set r => exact among item fun h g H => H.set r
  | tuple r => exact among item fun h g H => H.tuple r
  | dict r => exact among item fun h g H => (congrArg _ (H.dict r)).trans (keys_past _)
  | range start stop step =>
    unfold Machine.contains
    dsimp only [Value.past_range]
    rw [Value.int?_past]
    split <;> exact ret rfl
  | _ => exact throw _

theorem ordered (left right : Value) (p : Ordering → Bool) :
    P.Step c c id
      (do return p (← Exec.raising (← Exec.ofHeap (·.order (left.past n) (right.past n)))))
      (do return p (← Exec.raising (← Exec.ofHeap (·.order left right)))) := by
  intro s t hst hroom b s' hy
  rw [Exec.bind_apply] at hy ⊢
  dsimp only [Exec.ofHeap] at hy ⊢
  cases ho : s.heap.order (left.past n) (right.past n) with
  | error e => rw [ho] at hy; cases hy
  | ok o =>
    rw [ho] at hy
    cases hy
    rw [(P.heap hst).order_eq_ok (small hst hroom) ho]
    exact ⟨p o, t, rfl, rfl, hst, hroom⟩

theorem compareValues (op : CmpOp) (left right : Value) :
    P.Step c c id (compareValues op (left.past n) (right.past n)) (compareValues op left right) := by
  have hequal : P.Step c c id (Exec.ofHeap (·.equal (left.past n) (right.past n)))
      (Exec.ofHeap (·.equal left right)) := ofHeap fun h g H hs => H.equal_eq hs left right
  cases op with
  | eq => exact hequal
  | notEq => exact hequal.bind fun b => ret rfl
  | lt | ltEq | gt | gtEq => exact ordered left right _
  | same => exact ret (Value.identical_past n left right)
  | notSame => exact ret (congrArg not (Value.identical_past n left right))
  | member => exact contains right left
  | notMember => exact (contains right left).bind fun b => ret rfl

/-! ## Items -/

/-- The characters of a text are the same in both runs. -/
theorem chars_past (s : String) : (s.toList.map fun c => Value.str c.toString) =
    (s.toList.map fun c => Value.str c.toString).map (·.past n) := by
  rw [List.map_map]
  rfl

theorem charged (items : List α) (k : β → α) (items' : List β) (h : items = items'.map k) :
    P.Step c c (List.map k) (Exec.charge items.length >>= fun _ => pure items)
      (Exec.charge items'.length >>= fun _ => pure items') := by
  subst h
  rw [List.length_map]
  exact (charge items'.length).bind fun _ => (ret rfl).leave (Nat.le_add_right _ _)

theorem iterate (v : Value) :
    P.Step c c (List.map (·.past n)) (iterate (v.past n)) (iterate v) := by
  cases v with
  | list r => exact (ofHeap fun h g H _ => H.list r).bind fun items => charged _ _ items rfl
  | set r => exact (ofHeap fun h g H _ => H.set r).bind fun items => charged _ _ items rfl
  | tuple r => exact (ofHeap fun h g H _ => H.tuple r).bind fun items => charged _ _ items rfl
  | dict r =>
    exact (ofHeap fun h g H _ => (congrArg _ (H.dict r)).trans (keys_past _)).bind fun items =>
      charged _ _ items rfl
  | str s => exact charged _ _ _ (chars_past s)
  | range start stop step =>
    exact (charge _).bind fun _ => (ret (by simp)).leave (Nat.le_add_right _ _)
  | _ => exact throw _

theorem unpack (targets : List Expr) (v : Value) :
    P.Step c c (List.map (·.past n)) (unpack targets (v.past n)) (unpack targets v) := by
  unfold Machine.unpack
  split
  · exact throw _
  · refine (iterate v).bind fun values => ?_
    rw [List.length_map]
    split
    · exact throw _
    · exact ret rfl

theorem getItem (container index : Value) :
    P.Step c c (·.past n) (getItem (container.past n) (index.past n)) (getItem container index) := by
  cases container with
  | list r => exact (ofHeap fun h g H _ => H.list r).bind fun items => lift (itemAt_past items index _)
  | tuple r => exact (ofHeap fun h g H _ => H.tuple r).bind fun items => lift (itemAt_past items index _)
  | str s =>
    refine lift ?_
    rw [← itemAt_past, ← chars_past]
  | range start stop step =>
    unfold Machine.getItem
    dsimp only [Value.past_range]
    rw [position_past]
    exact (liftSame _).bind fun place => ret rfl
  | dict r =>
    refine (ofHeap fun h g H hs => ?_).bind (f := Option.map (·.past n)) fun found => ?_
    · exact (congrArg (h.valueOf? · _) (H.dict r)).trans (H.valueOf?_eq hs _ index)
    · cases found with
      | some v => exact ret rfl
      | none => exact nofun
  | _ => exact throw _

theorem getSlice (container : Value) (lower upper step : Option Int) :
    P.Step (c + 1) c (·.past n) (getSlice (container.past n) lower upper step)
      (getSlice container lower upper step) := by
  cases container with
  | list r =>
    exact (ofHeap fun h g H _ => H.list r).bind fun items =>
      (lift (sliceItems_map _ items lower upper step)).bind fun items => newList items
  | tuple r =>
    exact (ofHeap fun h g H _ => H.tuple r).bind fun items =>
      (lift (sliceItems_map _ items lower upper step)).bind fun items => newTuple items
  | str s =>
    exact (liftSame _).bind fun cs => spare rfl
  | _ => exact throw _

/-! ## Keys and members -/

theorem hashable (v : Value) :
    P.Step c c id (Exec.ofHeap (·.hashable (v.past n))) (Exec.ofHeap (·.hashable v)) :=
  ofHeap fun _ _ H _ => H.hashable_eq v

theorem insertEntry (entries : Entries) (key value : Value) :
    P.Step c c (List.map (entryPast n))
      (insertEntry (entries.map (entryPast n)) (key.past n) (value.past n))
      (insertEntry entries key value) := by
  refine (hashable key).bind fun b => ?_
  cases b with
  | true => exact ofHeap fun h g H hs => H.insertEntry_eq hs key value entries
  | false => exact throw _

theorem makeSet (items : List Value) :
    P.Step (c + 1) c (·.past n) (makeSet (items.map (·.past n))) (makeSet items) := by
  refine Step.bind (foldlM (g := List.map (·.past n)) (fun members item => ?_) [] items)
    fun members => newSet members
  refine (hashable item).bind fun b => ?_
  cases b with
  | true => exact ofHeap fun h g H hs => H.insertMember_eq hs members item
  | false => exact throw _

theorem setItem (container index value : Value) :
    P.Step c c id (setItem (container.past n) (index.past n) (value.past n))
      (setItem container index value) := by
  cases container with
  | list r =>
    refine (ofHeap fun h g H _ => H.list r).bind fun items => ?_
    rw [position_past, List.length_map]
    refine (liftSame _).bind fun place => ?_
    rw [id, ← List.map_set]
    exact setList r _
  | dict r =>
    exact (ofHeap fun h g H _ => H.dict r).bind fun entries =>
      (insertEntry entries index value).bind fun entries => setDict r entries
  | _ => exact throw _

/-- A produced element in a run with one list more. -/
def producedPast (n : Nat) (p : Value × Option Value) : Value × Option Value :=
  (p.1.past n, p.2.map (·.past n))

theorem comprehended (kind : CompKind) (produced : List (Value × Option Value)) :
    P.Step (c + 1) c (·.past n) (comprehended kind (produced.map (producedPast n)))
      (comprehended kind produced) := by
  have hfirst : (produced.map (producedPast n)).map (·.1) = (produced.map (·.1)).map (·.past n) := by
    simp [producedPast]
  cases kind with
  | list | generator =>
    unfold Machine.comprehended
    rw [hfirst]
    exact newList _
  | set =>
    unfold Machine.comprehended
    rw [hfirst]
    exact makeSet _
  | dict =>
    refine Step.bind (foldlM (f := producedPast n) (g := List.map (entryPast n))
      (fun entries p => ?_) [] produced) fun entries => newDict entries
    obtain ⟨key, value⟩ := p
    have hvalue : (value.map (·.past n)).getD .none = (value.getD .none).past n := by
      cases value <;> rfl
    dsimp only [producedPast]
    rw [hvalue]
    exact insertEntry entries key _

end Pace

end Concord.Machine
