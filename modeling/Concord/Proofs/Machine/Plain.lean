import Concord.Machine.Call

/-!
# Steps on values and containers

Most of what a run does is work on values: operators, reading and changing containers, methods. Such
steps are built from a few that read the heap, put something new there or change a container. They
look at no variable and at no clock, and of the functions of the program they see the names at most.
`Plain` is the set of these steps; what holds of the few single ones and is kept by sequencing holds
of all of them.
-/

namespace Concord.Machine

variable {α β : Type}

/-! ## Questions to the heap -/

namespace Heap

/-- The heap with other functions. -/
def withClosures (h : Heap) (closures : Array Closure) : Heap := { h with closures }

/-- The answer to a question depends on no more than the names of functions. -/
@[grind] def Blind (f : Heap → α) : Prop :=
  ∀ (h : Heap) (cs : Array Closure), cs.map (·.name) = h.closures.map (·.name) →
    f (h.withClosures cs) = f h

variable (h : Heap) (cs : Array Closure)

@[grind =] theorem list_withClosures (r : Ref) : (h.withClosures cs).list r = h.list r := rfl

@[grind =] theorem tuple_withClosures (r : Ref) : (h.withClosures cs).tuple r = h.tuple r := rfl

@[grind =] theorem set_withClosures (r : Ref) : (h.withClosures cs).set r = h.set r := rfl

@[grind =] theorem dict_withClosures (r : Ref) : (h.withClosures cs).dict r = h.dict r := rfl

@[grind =] theorem truthy_withClosures (v : Value) :
    (h.withClosures cs).truthy v = h.truthy v := rfl

@[grind =] theorem isInstance_withClosures (v cls : Value) :
    (h.withClosures cs).isInstance v cls = h.isInstance v cls := rfl

theorem equalWithin_withClosures (n : Nat) :
    (h.withClosures cs).equalWithin n = h.equalWithin n := by
  induction n with
  | zero => rfl
  | succ n ih =>
    funext a b
    unfold equalWithin
    rw [ih]
    rfl

@[grind =] theorem equal_withClosures (a b : Value) :
    (h.withClosures cs).equal a b = h.equal a b :=
  congrFun (congrFun (equalWithin_withClosures h cs _) a) b

theorem orderWithin_withClosures (n : Nat) :
    (h.withClosures cs).orderWithin n = h.orderWithin n := by
  have hequal : (h.withClosures cs).equal = h.equal := equalWithin_withClosures h cs _
  induction n with
  | zero => rfl
  | succ n ih =>
    funext a b
    unfold orderWithin
    rw [ih, hequal]
    rfl

@[grind =] theorem order_withClosures (a b : Value) :
    (h.withClosures cs).order a b = h.order a b :=
  congrFun (congrFun (orderWithin_withClosures h cs _) a) b

theorem hashableWithin_withClosures (n : Nat) :
    (h.withClosures cs).hashableWithin n = h.hashableWithin n := by
  induction n with
  | zero => rfl
  | succ n ih =>
    funext v
    unfold hashableWithin
    rw [ih]
    rfl

@[grind =] theorem hashable_withClosures (v : Value) :
    (h.withClosures cs).hashable v = h.hashable v :=
  congrFun (hashableWithin_withClosures h cs _) v

@[grind =] theorem insertEntry_withClosures (key value : Value) (entries : Entries) :
    (h.withClosures cs).insertEntry key value entries = h.insertEntry key value entries := by
  induction entries with
  | nil => rfl
  | cons e entries ih => rw [insertEntry, insertEntry, equal_withClosures, ih]

@[grind =] theorem insertMember_withClosures (members : List Value) (item : Value) :
    (h.withClosures cs).insertMember members item = h.insertMember members item := by
  simp only [insertMember, equal_withClosures]

@[grind =] theorem valueOf?_withClosures (entries : Entries) (key : Value) :
    (h.withClosures cs).valueOf? entries key = h.valueOf? entries key := by
  simp only [valueOf?, equal_withClosures]

@[grind =] theorem indexOf?_withClosures (items : List Value) (v : Value) :
    (h.withClosures cs).indexOf? items v = h.indexOf? items v := by
  simp only [indexOf?, equal_withClosures]

theorem keyOrder_withClosures (a b : Value) :
    (h.withClosures cs).keyOrder a b = h.keyOrder a b := by
  simp only [keyOrder, order_withClosures]

@[grind =] theorem sortPairs_withClosures (downwards : Bool) (pairs : List (Value × Value)) :
    (h.withClosures cs).sortPairs downwards pairs = h.sortPairs downwards pairs := by
  simp only [sortPairs, keyOrder_withClosures]

@[grind =] theorem bestPair_withClosures (wins : Ordering) (first : Value × Value)
    (rest : List (Value × Value)) :
    (h.withClosures cs).bestPair wins first rest = h.bestPair wins first rest := by
  simp only [bestPair, keyOrder_withClosures]

variable {h cs}

/-- Texts show the names of functions. -/
theorem reprWithin_withClosures (hcs : cs.map (·.name) = h.closures.map (·.name)) (n : Nat) :
    (h.withClosures cs).reprWithin n = h.reprWithin n := by
  have hname (r : Ref) : (h.withClosures cs).functionName r = h.functionName r := by
    have hr := congrArg (fun names : Array String => names[r]?.getD "") hcs
    simpa [functionName, withClosures] using hr
  induction n with
  | zero => rfl
  | succ n ih =>
    funext v
    unfold reprWithin
    rw [ih]
    cases v with
    | function r => exact congrArg (fun name => "<function " ++ name ++ ">") (hname r)
    | _ => rfl

@[grind =] theorem repr_withClosures (hcs : cs.map (·.name) = h.closures.map (·.name)) (v : Value) :
    (h.withClosures cs).repr v = h.repr v :=
  congrFun (reprWithin_withClosures hcs _) v

@[grind =] theorem display_withClosures (hcs : cs.map (·.name) = h.closures.map (·.name))
    (v : Value) : (h.withClosures cs).display v = h.display v := by
  cases v with
  | str s => rfl
  | exception r => rfl
  | _ => exact repr_withClosures hcs _

end Heap

/-! ## Steps -/

/-- The steps that work on values and containers only. -/
inductive Plain : {α : Type} → Exec α → Prop
  | ret {α : Type} (a : α) : Plain (pure a)
  | throw {α : Type} (e : Signal) : Plain (throw e : Exec α)
  | bind {α β : Type} {x : Exec α} {f : α → Exec β} :
    Plain x → (∀ a, Plain (f a)) → Plain (x >>= f)
  | ofHeap {α : Type} {f : Heap → α} : Heap.Blind f → Plain (Exec.ofHeap f)
  | newList (items : List Value) : Plain (Exec.newList items)
  | newTuple (items : List Value) : Plain (Exec.newTuple items)
  | newSet (members : List Value) : Plain (Exec.newSet members)
  | newDict (entries : Entries) : Plain (Exec.newDict entries)
  | newException (e : Exception) : Plain (Exec.newException e)
  | setList (r : Ref) (items : List Value) : Plain (Exec.setList r items)
  | setSet (r : Ref) (members : List Value) : Plain (Exec.setSet r members)
  | setDict (r : Ref) (entries : Entries) : Plain (Exec.setDict r entries)

namespace Plain

attribute [grind ←] ret throw bind ofHeap newList newTuple newSet newDict newException setList
  setSet setDict

@[grind ←] theorem ofExcept (r : Except Signal α) : Plain (Exec.ofExcept r) := by
  cases r with
  | ok a => exact ret a
  | error e => exact throw e

@[grind ←] theorem lift (r : Except Signal α) : Plain (liftM r : Exec α) := ofExcept r

@[grind ←] theorem raising (r : Except Exception α) : Plain (Exec.raising r) := by
  cases r with
  | ok a => exact ret a
  | error e => exact throw (.raise e)

@[grind ←] theorem truthy (v : Value) : Plain (Exec.truthy v) := ofHeap fun _ _ _ => rfl

/-! ## Lists of steps -/

@[grind ←] theorem mapM {f : α → Exec β} (hf : ∀ a, Plain (f a)) (as : List α) :
    Plain (as.mapM f) := by
  induction as with
  | nil => exact ret []
  | cons a as ih =>
    rw [List.mapM_cons]
    exact bind (hf a) fun b => bind ih fun bs => ret (b :: bs)

@[grind ←] theorem foldlM {f : β → α → Exec β} (hf : ∀ b a, Plain (f b a)) (b : β)
    (as : List α) : Plain (as.foldlM f b) := by
  induction as generalizing b with
  | nil => exact ret b
  | cons a as ih =>
    rw [List.foldlM_cons]
    exact bind (hf b a) ih

@[grind ←] theorem forIn {f : α → β → Exec (ForInStep β)} (hf : ∀ a b, Plain (f a b)) (b : β)
    (as : List α) : Plain (forIn as b f) := by
  induction as generalizing b with
  | nil => exact ret b
  | cons a as ih =>
    rw [List.forIn_cons]
    refine bind (hf a b) fun step => ?_
    cases step with
    | done b => exact ret b
    | yield b => exact ih b

/-! ## Operators -/

theorem repeatSequence (items : Value) (times : Int) : Plain (repeatSequence items times) := by
  unfold Machine.repeatSequence
  cases items with
  | str s => exact bind (lift _) fun _ => ret _
  | list r => exact bind (ofHeap fun _ _ _ => rfl) fun _ => bind (lift _) newList
  | tuple r => exact bind (ofHeap fun _ _ _ => rfl) fun _ => bind (lift _) newTuple
  | _ => exact ret _

theorem sequenceOp (op : BinOp) (left right : Value) : Plain (sequenceOp op left right) := by
  unfold Machine.sequenceOp
  split
  case h_6 =>
    refine bind (ofHeap fun h cs _ => ?_) newSet
    simp only [Heap.set_withClosures, Heap.equal_withClosures]
  all_goals grind [repeatSequence]

@[grind ←] theorem binary (op : BinOp) (left right : Value) : Plain (binary op left right) := by
  unfold Machine.binary
  split
  · exact ofExcept _
  · exact sequenceOp op left right

@[grind ←] theorem unary (op : UnaryOp) (operand : Value) : Plain (unary op operand) := by
  unfold Machine.unary
  grind

theorem contains (container item : Value) : Plain (contains container item) := by
  unfold Machine.contains
  cases container <;> grind

@[grind ←] theorem compareValues (op : CmpOp) (left right : Value) :
    Plain (compareValues op left right) := by
  have hordered (p : Ordering → Bool) : Plain (do
      return p (← Exec.raising (← Exec.ofHeap (·.order left right)))) :=
    bind (ofHeap fun h cs _ => h.order_withClosures cs left right) fun r =>
      bind (raising r) fun o => ret (p o)
  have hequal : Plain (Exec.ofHeap (·.equal left right)) :=
    ofHeap fun h cs _ => h.equal_withClosures cs left right
  unfold Machine.compareValues
  cases op with
  | eq => exact hequal
  | notEq => exact bind hequal fun _ => ret _
  | lt | ltEq | gt | gtEq => exact hordered _
  | same | notSame => exact ret _
  | member => exact contains right left
  | notMember => exact bind (contains right left) fun _ => ret _

/-! ## Containers -/

@[grind ←] theorem getItem (container index : Value) : Plain (getItem container index) := by
  unfold Machine.getItem
  cases container <;> grind

@[grind ←] theorem getSlice (container : Value) (lower upper step : Option Int) :
    Plain (getSlice container lower upper step) := by
  unfold Machine.getSlice
  cases container <;> grind

@[grind ←] theorem insertEntry (entries : Entries) (key value : Value) :
    Plain (insertEntry entries key value) := by
  unfold Machine.insertEntry
  grind

@[grind ←] theorem makeSet (items : List Value) : Plain (makeSet items) := by
  unfold Machine.makeSet
  refine bind (foldlM (fun members item => ?_) [] items) newSet
  grind

@[grind ←] theorem setItem (container index value : Value) :
    Plain (setItem container index value) := by
  unfold Machine.setItem
  cases container <;> grind

@[grind ←] theorem lengthOf (v : Value) : Plain (lengthOf v) := by
  unfold Machine.lengthOf
  cases v <;> grind

@[grind ←] theorem comprehended (kind : CompKind) (produced : List (Value × Option Value)) :
    Plain (comprehended kind produced) := by
  unfold Machine.comprehended
  cases kind with
  | list => exact newList _
  | generator => exact newList _
  | set => exact makeSet _
  | dict => exact bind (foldlM (fun entries p => insertEntry entries _ _) [] produced) newDict

/-! ## Methods -/

theorem sequenceQuery (typeName : String) (items : List Value) (name : String)
    (args : List Value) : Plain (sequenceQuery typeName items name args) := by
  unfold Machine.sequenceQuery
  grind

theorem standsAt (method : String) (holds : List Char → Bool) (args : List Value) :
    Plain (standsAt method holds args) := by
  unfold Machine.standsAt
  grind

theorem dictMethod (r : Ref) (name : String) (args : List Value) :
    Plain (dictMethod r name args) := by
  have hput (k v : Value) : Plain (do
      Exec.setDict r (← Machine.insertEntry (← Exec.ofHeap (·.dict r)) k v)
      pure (ForInStep.yield PUnit.unit)) := by
    grind
  unfold Machine.dictMethod
  apply bind (ofHeap fun _ _ _ => rfl)
  intro entries
  split
  case h_7 =>
    -- Updating goes through the entries of another dictionary one by one.
    refine bind (ofExcept _) fun _ => ?_
    split
    · exact bind (ofHeap fun _ _ _ => rfl) fun additions =>
        bind (forIn (fun entry _ => hput entry.1 entry.2) _ additions) fun _ => ret _
    · exact throw _
  all_goals grind

theorem setMethod (r : Ref) (name : String) (args : List Value) : Plain (setMethod r name args) := by
  unfold Machine.setMethod
  apply bind (ofHeap fun _ _ _ => rfl)
  intro members
  have hplace : Plain (do
      liftM (arity name args 1 1)
      if ← Exec.ofHeap (·.hashable (argAt args 0)) then
        Exec.ofHeap (·.indexOf? members (argAt args 0))
      else MonadExcept.throw (.unhashable (argAt args 0)) : Exec (Option Nat)) := by
    grind
  split
  all_goals grind

/-! ## Arguments -/

@[grind ←] theorem bindParams (function : String) (params : List (Param × Option Value))
    (p : Passing) : Plain (bindParams function params p) := by
  induction params generalizing p with
  | nil => exact ret p
  | cons param params ih =>
    obtain ⟨param, default⟩ := param
    unfold Machine.bindParams
    grind

@[grind ←] theorem bindArguments (c : Closure) (args : List Value) (keywords : Keywords) :
    Plain (bindArguments c args keywords) := by
  unfold Machine.bindArguments
  grind

end Plain

end Concord.Machine

/-!
## Steps that do not look at the clock

Most steps of a run work on variables and on the heap. They give the same whatever fuel is left and
however deep the run is, and they leave fuel, depth, the exceptions being handled and the functions of
the program alone. `Quiet` collects these facts. It is closed under sequencing and holds of all work on
values and containers (`Plain.quiet`) and of reading and binding names.
-/

namespace Concord.Machine

variable {α β : Type}

/-! ### Endings -/

/-- How a step ends, with the state it leaves. -/
abbrev Ending (α : Type) := EStateM.Result Signal State α

namespace Ending

/-- The state that a step leaves. -/
def state : Ending α → State
  | .ok _ s | .error _ s => s

/-- The ending in a changed state. -/
def map (f : State → State) : Ending α → Ending α
  | .ok a s => .ok a (f s)
  | .error e s => .error e (f s)

end Ending

theorem Exec.bind_apply (x : Exec α) (f : α → Exec β) (s : State) :
    (x >>= f) s = match x s with
      | .ok a t => f a t
      | .error e t => .error e t := by
  show EStateM.bind x f s = _
  unfold EStateM.bind
  cases x s <;> rfl

/-! ### The clock -/

/-- What bounds a run. -/
structure Clock where
  fuel : Nat
  maxDepth : Nat
  depth : Nat

/-- The clock of a state. -/
def State.clock (s : State) : Clock := ⟨s.fuel, s.maxDepth, s.depth⟩

/-- The state under another clock. -/
def State.withClock (s : State) (c : Clock) : State :=
  { s with fuel := c.fuel, maxDepth := c.maxDepth, depth := c.depth }

/-- The step gives the same under every clock, and it leaves the clock, the exceptions being handled
and the functions of the program as they are. -/
structure Quiet (x : Exec α) : Prop where
  clocked : ∀ s c, x (s.withClock c) = Ending.map (·.withClock c) (x s)
  handling : ∀ s, (Ending.state (x s)).handling = s.handling
  closures : ∀ s, (Ending.state (x s)).heap.closures = s.heap.closures

namespace Quiet

theorem clock {x : Exec α} (h : Quiet x) (s : State) : (Ending.state (x s)).clock = s.clock := by
  have hs : x s = Ending.map (·.withClock s.clock) (x s) := h.clocked s s.clock
  rw [hs]
  cases x s <;> rfl

/-! ### Single steps -/

@[grind ←] theorem ret (a : α) : Quiet (pure a) := ⟨fun _ _ => rfl, fun _ => rfl, fun _ => rfl⟩

@[grind ←] theorem throw (e : Signal) : Quiet (throw e : Exec α) :=
  ⟨fun _ _ => rfl, fun _ => rfl, fun _ => rfl⟩

@[grind ←] theorem bind {x : Exec α} {f : α → Exec β} (hx : Quiet x) (hf : ∀ a, Quiet (f a)) :
    Quiet (x >>= f) := by
  -- What either part keeps of a state is kept by both, one after the other.
  have keeps {γ : Type} (p : State → γ) (hx : ∀ s, p (Ending.state (x s)) = p s)
      (hf : ∀ a s, p (Ending.state (f a s)) = p s) (s : State) :
      p (Ending.state ((x >>= f) s)) = p s := by
    have hs := hx s
    rw [Exec.bind_apply]
    cases hxs : x s with
    | ok a t =>
      rw [hxs] at hs
      exact (hf a t).trans hs
    | error e t =>
      rw [hxs] at hs
      exact hs
  refine ⟨fun s c => ?_, keeps _ hx.handling fun a => (hf a).handling,
    keeps (·.heap.closures) hx.closures fun a => (hf a).closures⟩
  rw [Exec.bind_apply, Exec.bind_apply, hx.clocked s c]
  cases x s with
  | ok a t => exact (hf a).clocked t c
  | error e t => rfl

/-- Reading a part of the state that is not on the clock. -/
theorem read {f : State → β} {g : β → Exec α} (hf : ∀ s c, f (s.withClock c) = f s)
    (hg : ∀ b, Quiet (g b)) : Quiet (get >>= fun s => g (f s)) := by
  refine ⟨fun s c => ?_, fun s => (hg (f s)).handling s, fun s => (hg (f s)).closures s⟩
  show g (f (s.withClock c)) (s.withClock c) = _
  rw [hf]
  exact (hg (f s)).clocked s c

@[grind ←] theorem ofHeap (f : Heap → α) : Quiet (Exec.ofHeap f) :=
  ⟨fun _ _ => rfl, fun _ => rfl, fun _ => rfl⟩

theorem onHeap {f : Heap → Heap} (h : ∀ k, (f k).closures = k.closures) :
    Quiet (Exec.onHeap f) :=
  ⟨fun _ _ => rfl, fun _ => rfl, fun s => h s.heap⟩

@[grind ←] theorem newList (items : List Value) : Quiet (Exec.newList items) :=
  ⟨fun _ _ => rfl, fun _ => rfl, fun _ => rfl⟩

@[grind ←] theorem newTuple (items : List Value) : Quiet (Exec.newTuple items) :=
  ⟨fun _ _ => rfl, fun _ => rfl, fun _ => rfl⟩

@[grind ←] theorem newSet (members : List Value) : Quiet (Exec.newSet members) :=
  ⟨fun _ _ => rfl, fun _ => rfl, fun _ => rfl⟩

@[grind ←] theorem newDict (entries : Entries) : Quiet (Exec.newDict entries) :=
  ⟨fun _ _ => rfl, fun _ => rfl, fun _ => rfl⟩

@[grind ←] theorem newException (e : Exception) : Quiet (Exec.newException e) :=
  ⟨fun _ _ => rfl, fun _ => rfl, fun _ => rfl⟩

@[grind ←] theorem newScope (scope : Scope) : Quiet (Exec.newScope scope) :=
  ⟨fun _ _ => rfl, fun _ => rfl, fun _ => rfl⟩

@[grind ←] theorem setList (r : Ref) (items : List Value) : Quiet (Exec.setList r items) :=
  onHeap fun _ => rfl

@[grind ←] theorem setSet (r : Ref) (members : List Value) : Quiet (Exec.setSet r members) :=
  onHeap fun _ => rfl

@[grind ←] theorem setDict (r : Ref) (entries : Entries) : Quiet (Exec.setDict r entries) :=
  onHeap fun _ => rfl

/-! ### Names -/

@[grind ←] theorem lookup (env : Env) (name : String) : Quiet (Exec.lookup env name) := by
  refine ⟨fun s c => ?_, fun s => ?_, fun s => ?_⟩
  all_goals
    unfold Exec.lookup
    dsimp only [State.withClock]
    split <;> rfl

theorem bindGlobal (name : String) (v : Value) : Quiet (Exec.bindGlobal name v) :=
  ⟨fun _ _ => rfl, fun _ => rfl, fun _ => rfl⟩

theorem bindIn (i : Nat) (name : String) (v : Value) : Quiet (Exec.bindIn i name v) :=
  ⟨fun _ _ => rfl, fun _ => rfl, fun _ => rfl⟩

@[grind ←] theorem bindName (env : Env) (name : String) (v : Value) :
    Quiet (Exec.bind env name v) := by
  cases env with
  | none => exact bindGlobal name v
  | some i =>
    let target (scopes : Array Scope) : Exec Unit :=
      let scope := scopes[i]?.getD {}
      if scope.globals.contains name then Exec.bindGlobal name v
      else if scope.nonlocals.contains name then
        Exec.bindIn ((Exec.binder? scopes name (scopes.size + 1) scope.parent).getD i) name v
      else Exec.bindIn i name v
    show Quiet (get >>= fun s => target s.scopes)
    apply read (fun _ _ => rfl)
    intro scopes
    dsimp only [target]
    split
    · exact bindGlobal name v
    · split
      · exact bindIn _ name v
      · exact bindIn _ name v

@[grind ←] theorem declareGlobals (env : Env) (names : List String) :
    Quiet (Exec.declareGlobals env names) := by
  cases env with
  | none => exact ret ()
  | some i => exact ⟨fun _ _ => rfl, fun _ => rfl, fun _ => rfl⟩

@[grind ←] theorem declareNonlocals (env : Env) (names : List String) :
    Quiet (Exec.declareNonlocals env names) := by
  cases env with
  | none => exact ret ()
  | some i => exact ⟨fun _ _ => rfl, fun _ => rfl, fun _ => rfl⟩

end Quiet

/-- Work on values and containers is quiet. -/
theorem Plain.quiet {x : Exec α} (h : Plain x) : Quiet x := by
  induction h with
  | ret a => exact .ret a
  | throw e => exact .throw e
  | bind _ _ hx hf => exact hx.bind hf
  | ofHeap _ => exact .ofHeap _
  | newList items => exact .newList items
  | newTuple items => exact .newTuple items
  | newSet members => exact .newSet members
  | newDict entries => exact .newDict entries
  | newException e => exact .newException e
  | setList r items => exact .setList r items
  | setSet r members => exact .setSet r members
  | setDict r entries => exact .setDict r entries

end Concord.Machine

/-!
## Frames

Work on values leaves alone the variables, the code of functions and the exceptions being handled. These
parts of a state are its `Frame`. A step is `Framed` if it does the same in every frame with functions of
the same names, and if it leaves the frame as it is; plain steps are.
-/

namespace Concord.Machine

variable {α β : Type}

/-- What work on values leaves alone. -/
structure Frame where
  globals : Bindings
  handling : List Exception
  closures : Array Closure
  scopes : Array Scope

/-- The frame of a state. -/
def State.frame (s : State) : Frame := ⟨s.globals, s.handling, s.heap.closures, s.scopes⟩

/-- The state in another frame. -/
def State.withFrame (s : State) (F : Frame) : State :=
  { s with
    globals := F.globals, handling := F.handling, scopes := F.scopes,
    heap := s.heap.withClosures F.closures }

/-- The step does the same in every frame with functions of the same names, and it leaves the frame as
it is. -/
structure Framed (x : Exec α) : Prop where
  moved : ∀ (s : State) (F : Frame), F.closures.map (·.name) = s.heap.closures.map (·.name) →
    x (s.withFrame F) = Ending.map (·.withFrame F) (x s)
  kept : ∀ s, (Ending.state (x s)).frame = s.frame

namespace Framed

theorem bind {x : Exec α} {f : α → Exec β} (hx : Framed x) (hf : ∀ a, Framed (f a)) :
    Framed (x >>= f) := by
  constructor
  · intro s F hF
    rw [Exec.bind_apply, Exec.bind_apply, hx.moved s F hF]
    have hkept := hx.kept s
    cases hs : x s with
    | ok a t =>
      rw [hs] at hkept
      have hclosures : t.heap.closures = s.heap.closures := congrArg Frame.closures hkept
      exact (hf a).moved t F (hclosures ▸ hF)
    | error e t => rfl
  · intro s
    have hkept := hx.kept s
    rw [Exec.bind_apply]
    cases hs : x s with
    | ok a t =>
      rw [hs] at hkept
      exact ((hf a).kept t).trans hkept
    | error e t =>
      rw [hs] at hkept
      exact hkept

/-- A change of the state that neither looks at the frame nor changes it. -/
theorem change {f : State → State} (hf : ∀ s F, f (s.withFrame F) = (f s).withFrame F)
    (hkept : ∀ s, (f s).frame = s.frame) : Framed (modify f) where
  moved s F _ := congrArg (EStateM.Result.ok ()) (hf s F)
  kept s := hkept s

theorem exhaust : Framed (Exec.exhaust : Exec α) := ⟨fun _ _ _ => rfl, fun _ => rfl⟩

theorem charge (n : Nat) : Framed (Exec.charge n) := by
  have hcharge (s : State) : Exec.charge n s =
      (if s.fuel < n then Exec.exhaust else modify fun s => { s with fuel := s.fuel - n } :
        Exec Unit) s := rfl
  have hspend : Framed (modify fun s : State => { s with fuel := s.fuel - n }) :=
    change (fun _ _ => rfl) fun _ => rfl
  constructor
  · intro s F hF
    rw [hcharge, hcharge, show (s.withFrame F).fuel = s.fuel from rfl]
    split
    · exact exhaust.moved s F hF
    · exact hspend.moved s F hF
  · intro s
    rw [hcharge]
    split
    · exact exhaust.kept s
    · exact hspend.kept s

end Framed

/-- Work on values and containers leaves the frame alone. -/
theorem Plain.framed {x : Exec α} (h : Plain x) : Framed x := by
  induction h with
  | bind _ _ hx hf => exact hx.bind hf
  | ofHeap hf => exact ⟨fun s F hF => congrArg (EStateM.Result.ok · _) (hf s.heap _ hF), fun _ => rfl⟩
  | _ => exact ⟨fun _ _ _ => rfl, fun _ => rfl⟩

end Concord.Machine
