import Concord.Proofs.Machine.Budget
import Concord.Proofs.Machine.Key

/-!
# States with sound containers

In a sound state (`State.Sound`) the members of every set and the keys of every dictionary may stand there
and are distinct, and every value that can be reached refers to tuples that have been made. A dictionary
of the arguments that a call passes by name has the names as its keys, so these are distinct only in
programs whose calls name every argument once; such programs are `strict`.

`Yields` says that a step keeps states sound and what holds of its result. Tuples are all that has to be
followed from one value to the next: lists, sets and dictionaries are no keys.
-/

namespace Concord

/-- The name by which an argument is passed. -/
def ArgOf.keyword? {ε : Type} : ArgOf ε → Option String
  | .keyword n _ => some n
  | _ => none

/-- A call names every argument once. -/
def Expr.namesOnce : Expr → Bool
  | .call _ args => decide (args.filterMap ArgOf.keyword?).Nodup
  | _ => true

/-- If `strict`, the calls among these expressions name every argument once. -/
def NamesOnce (strict : Prop) (es : List Expr) : Prop := strict → ∀ e ∈ es, e.namesOnce = true

/-- If `strict`, the calls among these parts of a program name every argument once. -/
def PartsNameOnce (strict : Prop) (xs : List Node) : Prop :=
  strict → ∀ e, Node.expr e ∈ xs → e.namesOnce = true

section

variable {strict : Prop} {e : Expr} {es es' : List Expr} {xs ys : List Node}

theorem namesOnce_cons : NamesOnce strict (e :: es) ↔ (strict → e.namesOnce = true) ∧ NamesOnce strict es := by
  simp only [NamesOnce, List.forall_mem_cons, imp_and]

theorem namesOnce_append : NamesOnce strict (es ++ es') ↔ NamesOnce strict es ∧ NamesOnce strict es' := by
  simp only [NamesOnce, List.forall_mem_append, imp_and]

theorem partsNameOnce_exprNodes : PartsNameOnce strict (Stmt.exprNodes es) ↔ NamesOnce strict es := by
  simp [PartsNameOnce, NamesOnce, Stmt.exprNodes]

theorem partsNameOnce_append :
    PartsNameOnce strict (xs ++ ys) ↔ PartsNameOnce strict xs ∧ PartsNameOnce strict ys := by
  simp only [PartsNameOnce, List.mem_append, or_imp, forall_and]

theorem partsNameOnce_stmt {s : Stmt} : PartsNameOnce strict (.stmt s :: xs) ↔ PartsNameOnce strict xs := by
  simp [PartsNameOnce]

end

namespace Machine

variable {α β : Type}

/-! ## Facts about results -/

/-- What holds of a result in a heap and goes on to hold in all later ones. -/
structure Fact (α : Type) where
  Holds : Heap → α → Prop
  mono : ∀ {h k : Heap} {a : α}, Holds h a → h.Before k → Holds k a

/-- A fact that says nothing. -/
@[reducible] def Fact.nothing (α : Type) : Fact α := ⟨fun _ _ => True, fun _ _ => trivial⟩

/-- Results in which tuples may stand. -/
class Tracked (α : Type) where
  backed : Fact α

/-- The tuples in the result have been made. -/
def Backed [Tracked α] (h : Heap) (a : α) : Prop := (Tracked.backed : Fact α).Holds h a

theorem Backed.mono [Tracked α] {h k : Heap} {a : α} (ha : Backed h a) (hle : h.Before k) : Backed k a :=
  Tracked.backed.mono ha hle

instance : Tracked Value := ⟨⟨fun h v => v.Within h.tuples.size, fun hv hle => hv.mono hle.size_le⟩⟩

instance [Tracked α] : Tracked (List α) :=
  ⟨⟨fun h as => ∀ a ∈ as, Backed h a, fun has hle a ha => (has a ha).mono hle⟩⟩

instance [Tracked α] : Tracked (Option α) :=
  ⟨⟨fun h o => ∀ a ∈ o, Backed h a, fun ho hle a ha => (ho a ha).mono hle⟩⟩

instance [Tracked α] [Tracked β] : Tracked (α × β) :=
  ⟨⟨fun h p => Backed h p.1 ∧ Backed h p.2, fun hp hle => ⟨hp.1.mono hle, hp.2.mono hle⟩⟩⟩

instance : Tracked Unit := ⟨.nothing _⟩
instance : Tracked Bool := ⟨.nothing _⟩
instance : Tracked Nat := ⟨.nothing _⟩
instance : Tracked Int := ⟨.nothing _⟩
instance : Tracked String := ⟨.nothing _⟩
instance : Tracked Ordering := ⟨.nothing _⟩
instance : Tracked Param := ⟨.nothing _⟩

instance : Tracked Flow :=
  ⟨⟨fun h flow => ∀ v, flow = .ret v → Backed h v, fun hflow hle v hv => (hflow v hv).mono hle⟩⟩

variable {h k : Heap}

theorem backed_nil [Tracked α] : Backed h ([] : List α) := nofun

theorem backed_cons [Tracked α] {a : α} {as : List α} : Backed h (a :: as) ↔ Backed h a ∧ Backed h as :=
  List.forall_mem_cons

theorem backed_append [Tracked α] {as bs : List α} : Backed h (as ++ bs) ↔ Backed h as ∧ Backed h bs :=
  List.forall_mem_append

theorem Backed.sub [Tracked α] {as bs : List α} (has : Backed h as) (hsub : bs ⊆ as) : Backed h bs :=
  fun b hb => has b (hsub hb)

theorem Backed.getD [Tracked α] {as : List α} (has : Backed h as) (i : Nat) {a : α} (ha : Backed h a) :
    Backed h (as[i]?.getD a) := by
  cases hi : as[i]? with
  | none => exact ha
  | some b => exact has b (List.mem_of_getElem? hi)

theorem backed_none [Tracked α] : Backed h (none : Option α) := nofun

theorem backed_some [Tracked α] {a : α} : Backed h (some a) ↔ Backed h a :=
  ⟨fun hs => hs a rfl, fun ha _ hb => by cases hb; exact ha⟩

/-! ## Sound states -/

/-- The entries of a dictionary: distinct keys, and values. -/
structure Entered (strict : Prop) (h : Heap) (entries : Entries) : Prop where
  keys : h.Distinct strict (entries.map Prod.fst)
  values : Backed h (entries.map Prod.snd)

/-- What a function keeps. -/
structure Closure.Sound (strict : Prop) (h : Heap) (c : Closure) : Prop where
  params : Backed h c.params
  code : match c.code with
    | .block body => PartsNameOnce strict (Block.nodes body)
    | .expr e => NamesOnce strict e.subterms

structure Heap.Sound (strict : Prop) (h : Heap) : Prop where
  layered : Layered h.tuples
  lists : ∀ r, Backed h (h.list r)
  sets : ∀ r, h.Distinct True (h.set r)
  dicts : ∀ r, Entered strict h (h.dict r)
  closures : ∀ (r : Ref) (c : Closure), h.closures[r]? = some c → c.Sound strict h

/-- Sets and dictionaries have distinct members and keys, and all tuples that values refer to are there. -/
structure State.Sound (strict : Prop) (s : State) : Prop where
  heap : s.heap.Sound strict
  globals : Backed s.heap s.globals
  scopes : ∀ (i : Nat) (scope : Scope), s.scopes[i]? = some scope → Backed s.heap scope.vars

theorem Entered.mono {strict : Prop} {entries : Entries} (he : Entered strict h entries) (hle : h.Before k) :
    Entered strict k entries := ⟨he.keys.mono hle, he.values.mono hle⟩

/-- The keys are distinct. -/
@[reducible] def Fact.distinct (strict : Prop) : Fact (List Value) := ⟨Heap.Distinct strict, Heap.Distinct.mono⟩

/-- The entries are those of a dictionary. -/
@[reducible] def Fact.entered (strict : Prop) : Fact Entries := ⟨Entered strict, Entered.mono⟩

theorem Entered.nil {strict : Prop} : Entered strict h [] := ⟨.nil, backed_nil⟩

theorem Entered.backed {strict : Prop} {entries : Entries} (he : Entered strict h entries) :
    Backed h entries := by
  intro e hmem
  exact ⟨(he.keys.key _ (List.mem_map_of_mem hmem)).within, he.values _ (List.mem_map_of_mem hmem)⟩

theorem Heap.Distinct.backed {strict : Prop} {keys : List Value} (hd : h.Distinct strict keys) :
    Backed h keys := fun v hv => (hd.key v hv).within

theorem Closure.Sound.mono {strict : Prop} {c : Closure} (hc : c.Sound strict h) (hle : h.Before k) :
    c.Sound strict k := ⟨hc.params.mono hle, hc.code⟩

namespace Heap.Sound

variable {strict : Prop}

theorem before (hs : h.Sound strict) : h.Before h := .refl hs.layered

theorem tuples (hs : h.Sound strict) (r : Ref) : Backed h (h.tuple r) := by
  intro v hv
  by_cases hr : r < h.tuples.size
  · exact (hs.before.items hr v hv).mono (Nat.le_of_lt hr)
  · rw [tuple, Array.getElem?_eq_none (Nat.le_of_not_lt hr)] at hv
    cases hv

/-- A later heap is sound, if what is in its containers was there before or is sound itself. -/
theorem next (hs : h.Sound strict) (hle : h.Before k)
    (lists : ∀ r, k.list r = h.list r ∨ Backed k (k.list r))
    (sets : ∀ r, k.set r = h.set r ∨ k.Distinct True (k.set r))
    (dicts : ∀ r, k.dict r = h.dict r ∨ Entered strict k (k.dict r))
    (closures : ∀ (r : Ref) (c : Closure), k.closures[r]? = some c →
      h.closures[r]? = some c ∨ c.Sound strict k) : k.Sound strict where
  layered := hle.layered
  lists r := by
    rcases lists r with hr | hr
    · rw [hr]
      exact (hs.lists r).mono hle
    · exact hr
  sets r := by
    rcases sets r with hr | hr
    · rw [hr]
      exact (hs.sets r).mono hle
    · exact hr
  dicts r := by
    rcases dicts r with hr | hr
    · rw [hr]
      exact (hs.dicts r).mono hle
    · exact hr
  closures r c hc := by
    rcases closures r c hc with hr | hr
    · exact (hs.closures r c hr).mono hle
    · exact hr

end Heap.Sound

/-- What a store holds when one thing is added. -/
theorem getD_push {xs : Array α} {x d : α} (r : Nat) :
    (xs.push x)[r]?.getD d = xs[r]?.getD d ∨ (xs.push x)[r]?.getD d = x := by
  rw [Array.getElem?_push]
  split
  · exact .inr rfl
  · exact .inl rfl

/-- What a store holds when one thing is changed. -/
theorem getD_setIfInBounds {xs : Array α} {x d : α} {i : Nat} (r : Nat) :
    (xs.setIfInBounds i x)[r]?.getD d = xs[r]?.getD d ∨ (xs.setIfInBounds i x)[r]?.getD d = x := by
  rw [Array.getElem?_setIfInBounds]
  split
  · split
    · exact .inr rfl
    · rename_i hi hr
      rw [Array.getElem?_eq_none (by omega)]
      exact .inl rfl
  · exact .inl rfl

/-- A new tuple holds what was there before it. -/
theorem before_pushTuple {items : List Value} (hitems : Backed h items) (hlayered : Layered h.tuples) :
    h.Before { h with tuples := h.tuples.push items } := by
  refine ⟨(Persists.refl _).push _, fun r items' hr v hv => ?_⟩
  rw [Array.getElem?_push] at hr
  split at hr
  · rename_i hnew
    cases hr
    rw [hnew]
    exact hitems v hv
  · exact hlayered r items' hr v hv

theorem State.Sound.next {strict : Prop} {s t : State} (hs : s.Sound strict) (hle : s.heap.Before t.heap)
    (heap : t.heap.Sound strict) (globals : t.globals = s.globals ∨ Backed t.heap t.globals)
    (scopes : ∀ (i : Nat) (scope : Scope), t.scopes[i]? = some scope →
      s.scopes[i]? = some scope ∨ Backed t.heap scope.vars) : t.Sound strict where
  heap := heap
  globals := by
    rcases globals with hg | hg
    · rw [hg]
      exact hs.globals.mono hle
    · exact hg
  scopes i scope hi := by
    rcases scopes i scope hi with hscope | hscope
    · exact (hs.scopes i scope hscope).mono hle
    · exact hscope

/-! ## Variables -/

theorem backed_get? {vars : Bindings} {name : String} {v : Value} (hvars : Backed h vars)
    (hv : vars.get? name = some v) : Backed h v := by
  obtain ⟨⟨n, v⟩, hfind, rfl⟩ := Option.map_eq_some_iff.mp hv
  exact (hvars _ (List.mem_of_find?_eq_some hfind)).2

theorem backed_set {vars : Bindings} {name : String} {v : Value} (hvars : Backed h vars) (hv : Backed h v) :
    Backed h (vars.set name v) := by
  induction vars with
  | nil => exact backed_cons.mpr ⟨⟨trivial, hv⟩, backed_nil⟩
  | cons p vars ih =>
    rw [backed_cons] at hvars
    obtain ⟨n, w⟩ := p
    rw [Bindings.set]
    split
    · exact backed_cons.mpr ⟨⟨trivial, hv⟩, hvars.2⟩
    · exact backed_cons.mpr ⟨hvars.1, ih hvars.2⟩

theorem backed_lookupLocal {scopes : Array Scope}
    (hscopes : ∀ (i : Nat) (scope : Scope), scopes[i]? = some scope → Backed h scope.vars) {name : String}
    {n : Nat} {env : Env} {v : Value} (hv : Exec.lookupLocal scopes name n env = some v) : Backed h v := by
  induction n generalizing env with
  | zero => cases hv
  | succ n ih =>
    cases env with
    | none => cases hv
    | some i =>
      rw [Exec.lookupLocal] at hv
      split at hv
      · cases hv
      · rename_i scope hi
        split at hv
        · cases hv
        · rw [Option.or_eq_some_iff] at hv
          rcases hv with hv | ⟨-, hv⟩
          · exact backed_get? (hscopes i scope hi) hv
          · exact ih hv

theorem backed_predefined? {name : String} {v : Value} (hv : Value.predefined? name = some v) :
    Backed h v := by
  rw [Value.predefined?, Option.or_eq_some_iff] at hv
  rcases hv with hv | ⟨-, hv⟩
  · obtain ⟨b, -, rfl⟩ := Option.map_eq_some_iff.mp hv
    trivial
  · obtain ⟨c, -, rfl⟩ := Option.map_eq_some_iff.mp hv
    trivial

/-! ## Steps -/

variable {strict : Prop} {Q : Fact α} {R : Fact β}

variable (strict) in
/-- A step that started with the heap `h` has ended in a sound state, and if it has a result, the fact
holds of it. -/
structure Ended (h : Heap) (Q : Fact α) (r : Ending α) : Prop where
  sound : r.state.Sound strict
  later : h.Before r.state.heap
  result : ∀ a t, r = .ok a t → Q.Holds t.heap a

variable (strict) in
/-- In all heaps that come later than `h` the step keeps sound states sound, whether or not it ends with a
result, and of its result the fact holds. -/
def Yields (h : Heap) (x : Exec α) (Q : Fact α) : Prop :=
  ∀ s : State, s.Sound strict → h.Before s.heap → Ended strict s.heap Q (x s)

/-- If there is a result, the tuples in it have been made. -/
def Clean [Tracked α] (h : Heap) (r : Except Signal α) : Prop := ∀ a, r = .ok a → Backed h a

/-- The tuples in a result, if there is one, have been made. -/
@[reducible] def Fact.clean (α : Type) [Tracked α] : Fact (Except Signal α) :=
  ⟨Clean, fun hr hle a ha => (hr a ha).mono hle⟩

/-- What is followed of all results: the tuples in them have been made. -/
abbrev Tracks (strict : Prop) [Tracked α] (h : Heap) (x : Exec α) : Prop :=
  Yields strict h x Tracked.backed

namespace Yields

theorem later {x : Exec α} (hx : Yields strict h x Q) (hle : h.Before k) : Yields strict k x Q :=
  fun s hs hks => hx s hs (hle.trans hks)

/-- A step may be looked at where it starts. -/
theorem start {x : Exec α} (hx : ∀ k : Heap, k.Sound strict → h.Before k → Yields strict k x Q) :
    Yields strict h x Q :=
  fun s hs hle => hx s.heap hs.heap hle s hs hs.heap.before

theorem ret {a : α} (ha : Q.Holds h a) : Yields strict h (pure a) Q := by
  intro s hs hle
  refine ⟨hs, hs.heap.before, ?_⟩
  rintro _ _ ⟨⟩
  exact Q.mono ha hle

theorem throw (e : Signal) : Yields strict h (throw e : Exec α) Q :=
  fun _ hs _ => ⟨hs, hs.heap.before, nofun⟩

/-- What would come after a signal does not matter. -/
theorem stop (e : Signal) {f : α → Exec β} : Yields strict h ((MonadExcept.throw e : Exec α) >>= f) R :=
  fun _ hs _ => ⟨hs, hs.heap.before, nofun⟩

/-- A step that is not taken if there is something to object. -/
theorem orStop {c : Prop} [Decidable c] {e : Signal} {f : α → Exec β} {x : Exec β}
    (hx : Yields strict h x R) :
    Yields strict h (if c then (MonadExcept.throw e : Exec α) >>= f else x) R := by
  split
  · exact stop e
  · exact hx

theorem bind {x : Exec α} {f : α → Exec β} (hx : Yields strict h x Q)
    (hf : ∀ k a, h.Before k → Q.Holds k a → Yields strict k (f a) R) : Yields strict h (x >>= f) R := by
  intro s hs hle
  obtain ⟨hsound, hgrown, hresult⟩ := hx s hs hle
  rw [Exec.bind_apply]
  cases hxs : x s with
  | ok a t =>
    rw [hxs] at hsound hgrown
    have ht : t.heap.Before t.heap := State.Sound.heap hsound |>.before
    obtain ⟨hsound', hgrown', hresult'⟩ := hf t.heap a (hle.trans hgrown) (hresult a t hxs) t hsound ht
    exact ⟨hsound', hgrown.trans hgrown', hresult'⟩
  | error e t =>
    rw [hxs] at hsound hgrown
    exact ⟨hsound, hgrown, nofun⟩

/-- A step of whose result is known that its tuples have been made. -/
theorem track [Tracked α] {x : Exec α} {f : α → Exec β} (hx : Tracks strict h x)
    (hf : ∀ k a, h.Before k → Backed k a → Yields strict k (f a) R) : Yields strict h (x >>= f) R :=
  hx.bind hf

/-- A step whose result does not matter. -/
theorem seq {x : Exec α} {f : α → Exec β} (hx : Yields strict h x Q)
    (hf : ∀ a, Yields strict h (f a) R) : Yields strict h (x >>= f) R :=
  hx.bind fun _ a hle _ => (hf a).later hle

theorem ofHeap {f : Heap → α} (hf : ∀ k : Heap, k.Sound strict → h.Before k → Q.Holds k (f k)) :
    Yields strict h (Exec.ofHeap f) Q := by
  intro s hs hle
  refine ⟨hs, hs.heap.before, ?_⟩
  rintro _ _ ⟨⟩
  exact hf s.heap hs.heap hle

theorem ofExcept {r : Except Signal α} (hr : ∀ a, r = .ok a → Q.Holds h a) :
    Yields strict h (Exec.ofExcept r) Q := by
  cases r with
  | ok a => exact ret (hr a rfl)
  | error e => exact throw e

theorem raising {r : Except Exception α} (hr : ∀ a, r = .ok a → Q.Holds h a) :
    Yields strict h (Exec.raising r) Q := by
  cases r with
  | ok a => exact ret (hr a rfl)
  | error e => exact throw _

/-- A step that changes no variable. -/
theorem onHeap {x : Exec α} (hstate : ∀ s, (Ending.state (x s)).globals = s.globals ∧
      (Ending.state (x s)).scopes = s.scopes)
    (hheap : ∀ s : State, s.heap.Sound strict → h.Before s.heap → s.heap.Before (Ending.state (x s)).heap ∧
      (Ending.state (x s)).heap.Sound strict)
    (hresult : ∀ (s : State) a t, s.heap.Sound strict → x s = .ok a t → h.Before t.heap → Q.Holds t.heap a) :
    Yields strict h x Q := by
  intro s hs hle
  obtain ⟨hglobals, hscopes⟩ := hstate s
  obtain ⟨hgrown, hsound⟩ := hheap s hs.heap hle
  refine ⟨hs.next hgrown hsound (.inl hglobals) ?_, hgrown, fun a t hxs => hresult s a t hs.heap hxs ?_⟩
  · rw [hscopes]
    exact fun _ _ => .inl
  · rw [hxs] at hgrown
    exact hle.trans hgrown

/-- A step that changes neither the heap nor a variable. -/
theorem still {x : Exec α} (hheap : ∀ s, (Ending.state (x s)).heap = s.heap)
    (hstate : ∀ s, (Ending.state (x s)).globals = s.globals ∧ (Ending.state (x s)).scopes = s.scopes)
    (hresult : ∀ (s : State) a t, x s = .ok a t → h.Before t.heap → Q.Holds t.heap a) :
    Yields strict h x Q := by
  refine onHeap hstate (fun s hs _ => ?_) fun s a t _ => hresult s a t
  rw [hheap]
  exact ⟨hs.before, hs⟩

theorem charge (n : Nat) : Tracks strict h (Exec.charge n) := by
  have happly (s : State) : (Ending.state (Exec.charge n s)).heap = s.heap ∧
      (Ending.state (Exec.charge n s)).globals = s.globals ∧
      (Ending.state (Exec.charge n s)).scopes = s.scopes := by
    rw [Exec.charge_apply]
    split
    · exact ⟨rfl, rfl, rfl⟩
    · exact ⟨rfl, rfl, rfl⟩
  exact still (fun s => (happly s).1) (fun s => (happly s).2) fun _ _ _ _ _ => trivial

theorem change {f : State → State} (hf : ∀ s, (f s).heap = s.heap ∧ (f s).globals = s.globals ∧
    (f s).scopes = s.scopes) : Tracks strict h (modify f : Exec Unit) :=
  still (fun s => (hf s).1) (fun s => (hf s).2) fun _ _ _ _ _ => trivial

/-- The end of a step is kept as a value. -/
theorem attempt [Tracked α] {x : Exec α} (hx : Tracks strict h x) :
    Yields strict h (Exec.attempt x) (.clean α) := by
  intro s hs hle
  obtain ⟨hsound, hgrown, hresult⟩ := hx s hs hle
  unfold Exec.attempt
  cases hxs : x s with
  | ok a t =>
    rw [hxs] at hsound hgrown
    refine ⟨hsound, hgrown, ?_⟩
    rintro _ _ ⟨⟩ _ ⟨⟩
    exact hresult a t hxs
  | error e t =>
    rw [hxs] at hsound hgrown
    refine ⟨hsound, hgrown, ?_⟩
    rintro _ _ ⟨⟩ _ ⟨⟩

theorem exhaust : Yields strict h (Exec.exhaust : Exec α) Q :=
  (change (f := fun s => { s with fuel := 0 }) fun _ => ⟨rfl, rfl, rfl⟩).seq fun _ => throw _

/-! ### New things -/

theorem newList {items : List Value} (hitems : Backed h items) : Tracks strict h (Exec.newList items) := by
  refine onHeap (fun _ => ⟨rfl, rfl⟩) (fun s hs hle => ?_) ?_
  · have hgrown : s.heap.Before { s.heap with lists := s.heap.lists.push items } := ⟨.refl _, hs.layered⟩
    refine ⟨hgrown, hs.next hgrown (fun r => ?_) (fun _ => .inl rfl) (fun _ => .inl rfl) fun _ _ => .inl⟩
    refine (getD_push r).imp_right fun hr => ?_
    show Backed _ ((s.heap.lists.push items)[r]?.getD [])
    rw [hr]
    exact hitems.mono (hle.trans hgrown)
  · rintro s _ _ _ ⟨⟩ _
    trivial

theorem newTuple {items : List Value} (hitems : Backed h items) : Tracks strict h (Exec.newTuple items) := by
  refine onHeap (fun _ => ⟨rfl, rfl⟩) (fun s hs hle => ?_) ?_
  · have hgrown := before_pushTuple (hitems.mono hle) hs.layered
    exact ⟨hgrown, hs.next hgrown (fun _ => .inl rfl) (fun _ => .inl rfl) (fun _ => .inl rfl) fun _ _ => .inl⟩
  · rintro s _ _ _ ⟨⟩ _
    show s.heap.tuples.size < (s.heap.tuples.push items).size
    rw [Array.size_push]
    exact Nat.lt_succ_self _

theorem newSet {members : List Value} (hmembers : h.Distinct True members) :
    Tracks strict h (Exec.newSet members) := by
  refine onHeap (fun _ => ⟨rfl, rfl⟩) (fun s hs hle => ?_) ?_
  · have hgrown : s.heap.Before { s.heap with sets := s.heap.sets.push members } := ⟨.refl _, hs.layered⟩
    refine ⟨hgrown, hs.next hgrown (fun _ => .inl rfl) (fun r => ?_) (fun _ => .inl rfl) fun _ _ => .inl⟩
    refine (getD_push r).imp_right fun hr => ?_
    show Heap.Distinct True _ ((s.heap.sets.push members)[r]?.getD [])
    rw [hr]
    exact hmembers.mono (hle.trans hgrown)
  · rintro s _ _ _ ⟨⟩ _
    trivial

theorem newDict {entries : Entries} (hentries : Entered strict h entries) :
    Tracks strict h (Exec.newDict entries) := by
  refine onHeap (fun _ => ⟨rfl, rfl⟩) (fun s hs hle => ?_) ?_
  · have hgrown : s.heap.Before { s.heap with dicts := s.heap.dicts.push entries } := ⟨.refl _, hs.layered⟩
    refine ⟨hgrown, hs.next hgrown (fun _ => .inl rfl) (fun _ => .inl rfl) (fun r => ?_) fun _ _ => .inl⟩
    refine (getD_push r).imp_right fun hr => ?_
    show Entered strict _ ((s.heap.dicts.push entries)[r]?.getD [])
    rw [hr]
    exact hentries.mono (hle.trans hgrown)
  · rintro s _ _ _ ⟨⟩ _
    trivial

theorem newClosure {c : Closure} (hc : c.Sound strict h) : Tracks strict h (Exec.newClosure c) := by
  refine onHeap (fun _ => ⟨rfl, rfl⟩) (fun s hs hle => ?_) ?_
  · have hgrown : s.heap.Before { s.heap with closures := s.heap.closures.push c } :=
      ⟨.refl _, hs.layered⟩
    refine ⟨hgrown, hs.next hgrown (fun _ => .inl rfl) (fun _ => .inl rfl) (fun _ => .inl rfl) ?_⟩
    intro r c' hr
    replace hr : (s.heap.closures.push c)[r]? = some c' := hr
    rw [Array.getElem?_push] at hr
    split at hr
    · cases hr
      exact .inr (hc.mono (hle.trans hgrown))
    · exact .inl hr
  · rintro s _ _ _ ⟨⟩ _
    trivial

theorem newException (e : Exception) : Tracks strict h (Exec.newException e) := by
  refine onHeap (fun _ => ⟨rfl, rfl⟩) (fun s hs _ => ?_) ?_
  · have hgrown : s.heap.Before { s.heap with exceptions := s.heap.exceptions.push e } :=
      ⟨.refl _, hs.layered⟩
    exact ⟨hgrown, hs.next hgrown (fun _ => .inl rfl) (fun _ => .inl rfl) (fun _ => .inl rfl) fun _ _ => .inl⟩
  · rintro s _ _ _ ⟨⟩ _
    trivial

theorem newScope {scope : Scope} (hvars : Backed h scope.vars) :
    Tracks strict h (Exec.newScope scope) := by
  intro s hs hle
  refine ⟨hs.next hs.heap.before hs.heap (.inl rfl) ?_, hs.heap.before, fun _ _ _ => trivial⟩
  intro i scope' hi
  replace hi : (s.scopes.push scope)[i]? = some scope' := hi
  rw [Array.getElem?_push] at hi
  split at hi
  · cases hi
    exact .inr (hvars.mono hle)
  · exact .inl hi

/-! ### Changes -/

theorem setList (r : Ref) {items : List Value} (hitems : Backed h items) :
    Tracks strict h (Exec.setList r items) := by
  refine onHeap (fun _ => ⟨rfl, rfl⟩) (fun s hs hle => ?_) fun _ _ _ _ _ _ => trivial
  have hgrown : s.heap.Before { s.heap with lists := s.heap.lists.setIfInBounds r items } :=
    ⟨.refl _, hs.layered⟩
  refine ⟨hgrown, hs.next hgrown (fun q => ?_) (fun _ => .inl rfl) (fun _ => .inl rfl) fun _ _ => .inl⟩
  refine (getD_setIfInBounds q).imp_right fun hq => ?_
  show Backed _ ((s.heap.lists.setIfInBounds r items)[q]?.getD [])
  rw [hq]
  exact hitems.mono (hle.trans hgrown)

theorem setSet (r : Ref) {members : List Value} (hmembers : h.Distinct True members) :
    Tracks strict h (Exec.setSet r members) := by
  refine onHeap (fun _ => ⟨rfl, rfl⟩) (fun s hs hle => ?_) fun _ _ _ _ _ _ => trivial
  have hgrown : s.heap.Before { s.heap with sets := s.heap.sets.setIfInBounds r members } :=
    ⟨.refl _, hs.layered⟩
  refine ⟨hgrown, hs.next hgrown (fun _ => .inl rfl) (fun q => ?_) (fun _ => .inl rfl) fun _ _ => .inl⟩
  refine (getD_setIfInBounds q).imp_right fun hq => ?_
  show Heap.Distinct True _ ((s.heap.sets.setIfInBounds r members)[q]?.getD [])
  rw [hq]
  exact hmembers.mono (hle.trans hgrown)

theorem setDict (r : Ref) {entries : Entries} (hentries : Entered strict h entries) :
    Tracks strict h (Exec.setDict r entries) := by
  refine onHeap (fun _ => ⟨rfl, rfl⟩) (fun s hs hle => ?_) fun _ _ _ _ _ _ => trivial
  have hgrown : s.heap.Before { s.heap with dicts := s.heap.dicts.setIfInBounds r entries } :=
    ⟨.refl _, hs.layered⟩
  refine ⟨hgrown, hs.next hgrown (fun _ => .inl rfl) (fun _ => .inl rfl) (fun q => ?_) fun _ _ => .inl⟩
  refine (getD_setIfInBounds q).imp_right fun hq => ?_
  show Entered strict _ ((s.heap.dicts.setIfInBounds r entries)[q]?.getD [])
  rw [hq]
  exact hentries.mono (hle.trans hgrown)

/-! ### Questions to a state -/

/-- The answer to a question of which nothing is to be known. -/
theorem ask {f : Heap → α} : Yields strict h (Exec.ofHeap f) (.nothing α) := ofHeap fun _ _ _ => trivial

/-- A check of which nothing is to be known. -/
theorem check {r : Except Signal α} : Yields strict h (Exec.ofExcept r) (.nothing α) :=
  ofExcept fun _ _ => trivial

theorem truthy (v : Value) : Tracks strict h (Exec.truthy v) := ofHeap fun _ _ _ => trivial

theorem items (r : Ref) : Tracks strict h (Exec.ofHeap (·.list r)) := ofHeap fun _ hs _ => hs.lists r

theorem tupleItems (r : Ref) : Tracks strict h (Exec.ofHeap (·.tuple r)) := ofHeap fun _ hs _ => hs.tuples r

theorem members (r : Ref) : Yields strict h (Exec.ofHeap (·.set r)) (.distinct True) :=
  ofHeap fun _ hs _ => hs.sets r

theorem entries (r : Ref) : Yields strict h (Exec.ofHeap (·.dict r)) (.entered strict) :=
  ofHeap fun _ hs _ => hs.dicts r

/-- A step that looks at the state first. -/
theorem look {f : State → Exec α} (hf : ∀ s : State, s.Sound strict → h.Before s.heap →
    Yields strict s.heap (f s) Q) : Yields strict h (get >>= f) Q :=
  fun s hs hle => hf s hs hle s hs hs.heap.before

theorem lookup (env : Env) (name : String) : Tracks strict h (Exec.lookup env name) := by
  intro s hs hle
  unfold Exec.lookup
  dsimp only
  split
  · rename_i v hv
    refine ⟨hs, hs.heap.before, ?_⟩
    rintro _ _ ⟨⟩
    rw [Option.or_eq_some_iff, Option.or_eq_some_iff] at hv
    rcases hv with hlocal | ⟨-, hglobal | ⟨-, hpredefined⟩⟩
    · exact backed_lookupLocal hs.scopes hlocal
    · exact backed_get? hs.globals hglobal
    · exact backed_predefined? hpredefined
  · refine ⟨hs, hs.heap.before, ?_⟩
    rintro _ _ ⟨⟩

/-! ### Bindings -/

theorem bindGlobal (name : String) {v : Value} (hv : Backed h v) :
    Tracks strict h (Exec.bindGlobal name v) := by
  intro s hs hle
  refine ⟨hs.next hs.heap.before hs.heap (.inr ?_) fun _ _ => .inl, hs.heap.before, fun _ _ _ => trivial⟩
  exact backed_set hs.globals (hv.mono hle)

/-- A change of one scope that keeps what its variables stand for. -/
theorem modifyScope (i : Nat) {f : Scope → Scope}
    (hf : ∀ (k : Heap) (scope : Scope), h.Before k → Backed k scope.vars → Backed k (f scope).vars) :
    Tracks strict h (modify fun s => { s with scopes := s.scopes.modify i f } : Exec Unit) := by
  intro s hs hle
  refine ⟨hs.next hs.heap.before hs.heap (.inl rfl) ?_, hs.heap.before, fun _ _ _ => trivial⟩
  intro j scope hj
  replace hj : (s.scopes.modify i f)[j]? = some scope := hj
  rw [Array.getElem?_modify] at hj
  split at hj
  · obtain ⟨scope, hscope, rfl⟩ := Option.map_eq_some_iff.mp hj
    exact .inr (hf _ scope hle (hs.scopes j scope hscope))
  · exact .inl hj

theorem bindIn (i : Nat) (name : String) {v : Value} (hv : Backed h v) :
    Tracks strict h (Exec.bindIn i name v) :=
  modifyScope i fun _ _ hle hvars => backed_set hvars (hv.mono hle)

theorem bindName (env : Env) (name : String) {v : Value} (hv : Backed h v) :
    Tracks strict h (Exec.bind env name v) := by
  unfold Exec.bind
  cases env with
  | none => exact bindGlobal name hv
  | some i =>
    refine look fun s _ hle => ?_
    have hv : Backed s.heap v := hv.mono hle
    dsimp only
    split
    · exact bindGlobal name hv
    · split
      · exact bindIn _ name hv
      · exact bindIn _ name hv

theorem declareGlobals (env : Env) (names : List String) :
    Tracks strict h (Exec.declareGlobals env names) := by
  cases env with
  | none => exact ret trivial
  | some i => exact modifyScope i fun _ _ _ => id

theorem declareNonlocals (env : Env) (names : List String) :
    Tracks strict h (Exec.declareNonlocals env names) := by
  cases env with
  | none => exact ret trivial
  | some i => exact modifyScope i fun _ _ _ => id

/-! ### Lists of steps -/

theorem mapM [Tracked α] [Tracked β] {f : α → Exec β} {as : List α} (has : Backed h as)
    (hf : ∀ k a, h.Before k → Backed k a → Tracks strict k (f a)) : Tracks strict h (as.mapM f) := by
  induction as generalizing h with
  | nil => exact ret backed_nil
  | cons a as ih =>
    rw [backed_cons] at has
    rw [List.mapM_cons]
    refine start fun k _ hle => (hf k a hle (has.1.mono hle)).track fun l b hle' hb => ?_
    replace hle := hle.trans hle'
    refine (ih (has.2.mono hle) fun m a hm => hf m a (hle.trans hm)).track fun m bs hm hbs => ?_
    exact ret (backed_cons.mpr ⟨hb.mono hm, hbs⟩)

/-- A list of new values. -/
theorem mapNew [Tracked α] {f : α → Exec Value} {as : List α} (has : Backed h as)
    (hf : ∀ k a, h.Before k → Backed k a → Tracks strict k (f a)) :
    Tracks strict h (as.mapM f >>= Exec.newList) :=
  (mapM has hf).track fun _ _ _ hvs => newList hvs

theorem foldlM [Tracked β] {f : α → β → Exec α} {a : α} {bs : List β} (ha : Q.Holds h a)
    (hbs : Backed h bs)
    (hf : ∀ k a b, h.Before k → Q.Holds k a → Backed k b → Yields strict k (f a b) Q) :
    Yields strict h (bs.foldlM f a) Q := by
  induction bs generalizing h a with
  | nil => exact ret ha
  | cons b bs ih =>
    rw [backed_cons] at hbs
    rw [List.foldlM_cons]
    refine start fun k _ hle => ?_
    refine (hf k a b hle (Q.mono ha hle) (hbs.1.mono hle)).bind fun l a hle' ha => ?_
    replace hle := hle.trans hle'
    exact ih ha (hbs.2.mono hle) fun m a b hm => hf m a b (hle.trans hm)

theorem forIn [Tracked α] {f : α → PUnit → Exec (ForInStep PUnit)} {as : List α} {u : PUnit}
    (has : Backed h as)
    (hf : ∀ k a u, h.Before k → Backed k a → Yields strict k (f a u) (.nothing _)) :
    Yields strict h (forIn as u f) (.nothing PUnit) := by
  induction as generalizing h u with
  | nil => exact ret trivial
  | cons a as ih =>
    rw [backed_cons] at has
    rw [List.forIn_cons]
    refine start fun k _ hle => (hf k a u hle (has.1.mono hle)).bind fun l step hle' _ => ?_
    replace hle := hle.trans hle'
    cases step with
    | done u => exact ret trivial
    | yield u => exact ih (has.2.mono hle) fun m a u hm => hf m a u (hle.trans hm)

theorem filterM [Tracked α] {p : α → Exec Bool} {as : List α} (has : Backed h as)
    (hp : ∀ k a, h.Before k → Backed k a → Tracks strict k (p a)) : Tracks strict h (as.filterM p) := by
  have hkept (kept : List α) (hkept : Backed h kept) : Tracks strict h (as.filterAuxM p kept) := by
    induction as generalizing h kept with
    | nil => exact ret hkept
    | cons a as ih =>
      rw [backed_cons] at has
      rw [List.filterAuxM]
      refine start fun k _ hle => (hp k a hle (has.1.mono hle)).bind fun l keep hle' _ => ?_
      replace hle := hle.trans hle'
      refine ih (has.2.mono hle) (fun m a hm => hp m a (hle.trans hm)) _ ?_
      cases keep with
      | false => exact hkept.mono hle
      | true => exact backed_cons.mpr ⟨has.1.mono hle, hkept.mono hle⟩
  refine (hkept [] backed_nil).track fun k kept _ hkept => ret (hkept.sub fun a ha => ?_)
  exact List.mem_reverse.mp ha

theorem forM {f : α → Exec PUnit} {as : List α} (hf : ∀ a ∈ as, ∀ k, h.Before k → Tracks strict k (f a)) :
    Tracks strict h (as.forM f) := by
  induction as generalizing h with
  | nil => exact ret trivial
  | cons a as ih =>
    rw [List.forall_mem_cons] at hf
    refine start fun k _ hle => (hf.1 k hle).track fun l _ hle' _ => ih fun b hb m hm => ?_
    exact hf.2 b hb m (hle.trans (hle'.trans hm))

end Yields

end Machine

end Concord
