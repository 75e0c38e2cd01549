import Concord.Proofs.Machine.Plain

/-!
# Predefined functions in two runs

A `Conduct` relates steps of two runs. It is closed under sequencing, and it relates every plain step
and every payment of fuel to itself. That is enough for the predefined functions and methods, some of
which call back: they do alike in both runs if the calls that they make do.
-/

namespace Concord.Machine

variable {α β : Type}

/-- A relation between the steps of two runs that gets along with work on values. -/
structure Conduct where
  Rel : {α : Type} → Exec α → Exec α → Prop
  plain : ∀ {α : Type} {x : Exec α}, Plain x → Rel x x
  bind : ∀ {α β : Type} {x y : Exec α} {f g : α → Exec β},
    Rel x y → (∀ a, Rel (f a) (g a)) → Rel (x >>= f) (y >>= g)
  charge : ∀ n, Rel (Exec.charge n) (Exec.charge n)

namespace Conduct

attribute [grind ←] Conduct.plain Conduct.bind Conduct.charge

variable (C : Conduct)

theorem ret (a : α) : C.Rel (pure a) (pure a) := C.plain (.ret a)

theorem throw (e : Signal) : C.Rel (throw e : Exec α) (throw e) := C.plain (.throw e)

/-! ## Lists of steps -/

@[grind ←] theorem mapM {f g : α → Exec β} (h : ∀ a, C.Rel (f a) (g a)) (as : List α) :
    C.Rel (as.mapM f) (as.mapM g) := by
  induction as with
  | nil => exact C.ret []
  | cons a as ih =>
    rw [List.mapM_cons, List.mapM_cons]
    exact C.bind (h a) fun b => C.bind ih fun bs => C.ret (b :: bs)

@[grind ←] theorem foldlM {f g : β → α → Exec β} (h : ∀ b a, C.Rel (f b a) (g b a)) (b : β)
    (as : List α) : C.Rel (as.foldlM f b) (as.foldlM g b) := by
  induction as generalizing b with
  | nil => exact C.ret b
  | cons a as ih =>
    rw [List.foldlM_cons, List.foldlM_cons]
    exact C.bind (h b a) ih

theorem filterAuxM {f g : α → Exec Bool} (h : ∀ a, C.Rel (f a) (g a)) (as acc : List α) :
    C.Rel (as.filterAuxM f acc) (as.filterAuxM g acc) := by
  induction as generalizing acc with
  | nil => exact C.ret acc
  | cons a as ih =>
    rw [List.filterAuxM, List.filterAuxM]
    exact C.bind (h a) fun b => ih _

@[grind ←] theorem filterM {f g : α → Exec Bool} (h : ∀ a, C.Rel (f a) (g a)) (as : List α) :
    C.Rel (as.filterM f) (as.filterM g) :=
  C.bind (C.filterAuxM h as []) fun kept => C.ret kept.reverse

theorem forM {f g : α → Exec PUnit} (h : ∀ a, C.Rel (f a) (g a)) (as : List α) :
    C.Rel (as.forM f) (as.forM g) := by
  induction as with
  | nil => exact C.ret _
  | cons a as ih => exact C.bind (h a) fun _ => ih

/-! ## Items -/

@[grind ←] theorem iterate (v : Value) : C.Rel (iterate v) (iterate v) := by
  have hcharged (items : List Value) : C.Rel (do Exec.charge items.length; return items)
      (do Exec.charge items.length; return items) :=
    C.bind (C.charge _) fun _ => C.ret items
  unfold Machine.iterate
  cases v with
  | list r | set r | tuple r | dict r => exact C.bind (C.plain (.ofHeap fun _ _ _ => rfl)) hcharged
  | str s => exact hcharged _
  | range start stop step => exact C.bind (C.charge _) fun _ => C.ret _
  | _ => exact C.throw _

@[grind ←] theorem unpack (targets : List Expr) (v : Value) :
    C.Rel (unpack targets v) (unpack targets v) := by
  unfold Machine.unpack
  split
  · refine C.bind (C.throw _) fun _ => C.bind (C.iterate v) fun values => ?_
    split
    · exact C.bind (C.throw _) fun _ => C.ret values
    · exact C.ret values
  · refine C.bind (C.iterate v) fun values => ?_
    split
    · exact C.bind (C.throw _) fun _ => C.ret values
    · exact C.ret values

@[grind ←] theorem sortValues (pairs : List (Value × Value)) (downwards : Bool) :
    C.Rel (sortValues pairs downwards) (sortValues pairs downwards) := by
  unfold Machine.sortValues
  exact C.bind (C.plain (.ofHeap fun h cs _ => h.sortPairs_withClosures cs downwards pairs)) fun r =>
    C.bind (C.plain (.lift r)) fun sorted => C.bind (C.charge _) fun _ => C.ret _

@[grind ←] theorem entriesOf (pairs : List Value) :
    C.Rel (entriesOf pairs) (entriesOf pairs) := by
  unfold Machine.entriesOf
  refine C.foldlM (fun entries pair => C.bind (C.iterate pair) fun items => ?_) [] pairs
  split
  · exact C.plain (.insertEntry _ _ _)
  · exact C.throw _

@[grind ←] theorem sumOf (items start : Value) : C.Rel (sumOf items start) (sumOf items start) := by
  unfold Machine.sumOf
  split
  · exact C.throw _
  · exact C.bind (C.iterate items) fun vs =>
      C.foldlM (fun total x => C.plain (.binary .add total x)) start vs

theorem augmented (op : BinOp) (current operand : Value) :
    C.Rel (augmented op current operand) (augmented op current operand) := by
  unfold Machine.augmented
  split
  · exact C.bind (C.iterate _) fun extra => C.bind (C.plain (.ofHeap fun _ _ _ => rfl)) fun items =>
      C.bind (C.plain (.setList _ _)) fun _ => C.ret _
  · exact C.plain (.binary op current operand)

/-! ## Predefined functions and methods -/

/-- The two runs call back alike. -/
def Applies (apply apply' : Apply) : Prop := ∀ f xs, C.Rel (apply f xs) (apply' f xs)

variable {C} {apply apply' : Apply}

theorem Applies.withKeys (h : C.Applies apply apply') (key : Option Value) (items : List Value) :
    C.Rel (withKeys apply key items) (withKeys apply' key items) := by
  cases key with
  | none => exact C.ret _
  | some f => exact C.mapM (fun x => C.bind (h f [x]) fun k => C.ret (k, x)) items

theorem Applies.orderedCall (h : C.Applies apply apply') (b : Builtin) (args : List Value)
    (keywords : Keywords) :
    C.Rel (orderedCall apply b args keywords) (orderedCall apply' b args keywords) := by
  unfold Machine.orderedCall
  dsimp only
  -- With and without `reverse`; then by the number of arguments.
  split
  all_goals
    refine C.bind (C.plain (by grind)) fun downwards => C.bind (C.plain (.lift _)) fun _ => ?_
    split
    · exact C.bind (C.iterate _) fun items => C.bind (h.withKeys _ items) fun pairs => by grind
    · split
      · exact C.bind (C.throw _) fun items => C.bind (h.withKeys _ items) fun pairs => by grind
      · exact C.bind (C.ret _) fun items => C.bind (h.withKeys _ items) fun pairs => by grind
    · exact C.bind (C.throw _) fun items => C.bind (h.withKeys _ items) fun pairs => by grind

theorem Applies.plainCall (h : C.Applies apply apply') (b : Builtin) (args : List Value) :
    C.Rel (plainCall apply b args) (plainCall apply' b args) := by
  have happly (f : Value) (xs : List Value) : C.Rel (apply f xs) (apply' f xs) := h f xs
  have hcolumns (columns : List Value) := C.mapM C.iterate columns
  unfold Machine.plainCall
  cases b with
  | list | tuple | set =>
    refine C.bind (C.bind (C.plain (.ofExcept _)) fun _ => ?_) fun vs => C.plain (by grind)
    cases args with
    | nil => exact C.ret []
    | cons v _ => exact C.iterate v
  | map =>
    dsimp only
    split
    · exact C.bind (hcolumns _) fun columns => C.bind (C.mapM (happly _) _) fun vs =>
        C.plain (.newList vs)
    · exact C.throw _
  | filter =>
    refine C.bind (C.plain (.ofExcept _)) fun _ => C.bind (C.iterate _) fun items =>
      C.bind (C.filterM (fun x => ?_) items) fun vs => C.plain (.newList vs)
    split
    · exact C.plain (.truthy x)
    · exact C.bind (happly _ _) fun v => C.plain (.truthy v)
  | zip =>
    exact C.bind (hcolumns args) fun columns => C.plain (.bind (.mapM .newTuple _) .newList)
  | any | all =>
    exact C.bind (C.plain (.ofExcept _)) fun _ => C.bind (C.iterate _) fun items =>
      C.bind (C.plain (.ofHeap fun _ _ _ => rfl)) fun _ => C.ret _
  | isInstance =>
    refine C.bind (C.plain (.ofExcept _)) fun _ => ?_
    split
    · exact C.bind (C.plain (.ofHeap fun _ _ _ => rfl)) fun _ => C.ret _
    · exact C.bind (C.plain (.ofHeap fun _ _ _ => rfl)) fun _ => C.ret _
  | round =>
    refine C.plain (.bind (.ofExcept _) fun _ => ?_)
    dsimp only
    split
    · exact .bind (.ret _) fun places => .lift _
    · exact .bind (.bind (.ofExcept _) fun n => .ret _) fun places => .lift _
  | _ => grind [h.orderedCall]

theorem Applies.native (h : C.Applies apply apply') (b : Builtin) (args : List Value)
    (keywords : Keywords) : C.Rel (native apply b args keywords) (native apply' b args keywords) := by
  unfold Machine.native
  refine C.bind (C.charge 1) fun _ => ?_
  split
  · exact h.orderedCall _ args keywords
  · exact h.orderedCall _ args keywords
  · exact h.orderedCall _ args keywords
  · exact C.bind (C.plain (.lift _)) fun _ => h.plainCall b args

variable (C)

theorem joinText (separator : String) (items : Value) :
    C.Rel (joinText separator items) (joinText separator items) := by
  unfold Machine.joinText
  exact C.bind (C.iterate items) fun vs => C.bind (C.plain (.lift _)) fun pieces =>
    C.bind (C.charge _) fun _ => C.ret _

theorem textMethod (s name : String) (args : List Value) :
    C.Rel (textMethod s name args) (textMethod s name args) := by
  unfold Machine.textMethod
  split
  all_goals grind [joinText, Plain.standsAt]

theorem listMethod (r : Ref) (name : String) (args : List Value) :
    C.Rel (listMethod r name args) (listMethod r name args) := by
  unfold Machine.listMethod
  refine C.bind (C.plain (.ofHeap fun _ _ _ => rfl)) fun items => ?_
  split
  all_goals grind [Plain.sequenceQuery]

variable {C}

theorem Applies.sortList (h : C.Applies apply apply') (r : Ref) (keywords : Keywords) :
    C.Rel (sortList apply r keywords) (sortList apply' r keywords) := by
  have hsort (key : Option Value) (downwards : Bool) : C.Rel (do
      let items ← Exec.ofHeap (·.list r)
      let pairs ← Machine.withKeys apply key items
      Exec.setList r (← Machine.sortValues pairs downwards)
      return Value.none) (do
      let items ← Exec.ofHeap (·.list r)
      let pairs ← Machine.withKeys apply' key items
      Exec.setList r (← Machine.sortValues pairs downwards)
      return Value.none) :=
    C.bind (C.plain (.ofHeap fun _ _ _ => rfl)) fun items => C.bind (h.withKeys key items) fun pairs =>
      C.bind (C.sortValues pairs downwards) fun vs => C.plain (.bind (.setList r vs) fun _ => .ret _)
  unfold Machine.sortList
  dsimp only
  split
  · exact C.bind (C.plain (.truthy _)) fun downwards => C.bind (C.plain (.lift _)) fun _ =>
      hsort _ downwards
  · exact C.bind (C.ret false) fun downwards => C.bind (C.plain (.lift _)) fun _ =>
      hsort _ downwards

theorem Applies.callMethod (h : C.Applies apply apply') (receiver : Value) (name : String)
    (args : List Value) (keywords : Keywords) :
    C.Rel (callMethod apply receiver name args keywords)
      (callMethod apply' receiver name args keywords) := by
  unfold Machine.callMethod
  refine C.bind (C.charge 1) fun _ => ?_
  cases receiver with
  | list r =>
    dsimp only
    split
    · exact h.sortList r keywords
    · exact C.bind (C.plain (.lift _)) fun _ => C.listMethod r name args
  | str s => exact C.bind (C.plain (.lift _)) fun _ => C.textMethod s name args
  | dict r => exact C.bind (C.plain (.lift _)) fun _ => C.plain (.dictMethod r name args)
  | set r => exact C.bind (C.plain (.lift _)) fun _ => C.plain (.setMethod r name args)
  | tuple r =>
    exact C.bind (C.plain (.lift _)) fun _ => C.bind (C.plain (.ofHeap fun _ _ _ => rfl)) fun items =>
      C.plain (.sequenceQuery "tuple" items name args)
  | _ => exact C.throw _

end Conduct

end Concord.Machine

/-!
## Two runs of one program

A `Simulation` relates steps of two runs. It has to be closed under sequencing, to relate every quiet
step and every payment of fuel to itself, and to get along with the few constructs that look at the
clock or catch a signal: calls, loops and `try`. Then it relates everything else. As a `Conduct` it
covers the predefined functions and methods.

A simulation may be `strict`: it then covers only programs whose `try` statements are sealed, which
means that none of them has both a `finally` block and something that runs between the guarded block
and `finally`.
-/

namespace Concord

/-! ### Sealed programs -/

mutual

/-- No `try` in the statement has a `finally` block next to handlers or an `else`. -/
def Stmt.isSealed : Stmt → Bool
  | .define ⟨_, _, body, _, _, _⟩ => Stmt.areSealed body
  | .cond _ body orelse => Stmt.areSealed body && Stmt.areSealed orelse
  | .forLoop _ _ body orelse => Stmt.areSealed body && Stmt.areSealed orelse
  | .whileLoop _ body orelse => Stmt.areSealed body && Stmt.areSealed orelse
  | .tryBlock body handlers orelse final =>
    (final.isEmpty || (handlers.isEmpty && orelse.isEmpty)) && Stmt.areSealed body &&
      Stmt.handlersSealed handlers && Stmt.areSealed orelse && Stmt.areSealed final
  | _ => true

/-- `isSealed` along a block. -/
def Stmt.areSealed : List Stmt → Bool
  | [] => true
  | s :: rest => Stmt.isSealed s && Stmt.areSealed rest

/-- `isSealed` in the blocks of handlers. -/
def Stmt.handlersSealed : List (HandlerOf Stmt) → Bool
  | [] => true
  | ⟨_, _, body⟩ :: rest => Stmt.areSealed body && Stmt.handlersSealed rest

end

namespace Machine

/-- Whether all that a function runs is sealed. -/
def Code.isSealed : Code → Bool
  | .block body => Stmt.areSealed body
  | .expr _ => true

variable {α β : Type}

/-- Go on with the function at a place of the heap, or with `other` where there is none. -/
def withClosure (r : Ref) (f : Closure → Exec α) (other : Exec α) : Exec α := do
  match (← get).heap.closures[r]? with
  | some c => f c
  | none => other

theorem withClosure_apply (r : Ref) (f : Closure → Exec α) (other : Exec α) (s : State) :
    withClosure r f other s = match s.heap.closures[r]? with
      | some c => f c s
      | none => other s := by
  show (match s.heap.closures[r]? with | some c => f c | none => other : Exec α) s = _
  cases s.heap.closures[r]? <;> rfl

/-- Go on unless the run is too deep already. -/
def limited (x : Exec α) : Exec α := do
  let s ← get
  if s.maxDepth ≤ s.depth then throw (.halt (.depthExceeded s.maxDepth)) else x

/-- The step that a call takes when no levels are left. -/
def tooDeep : Exec α := do throw (.halt (.depthExceeded (← get).maxDepth))

/-- Run a body as long as a test holds and there is fuel. -/
def repeating (test : Exec Bool) (body : Exec Flow) : Exec (Option Flow) := do
  whileHolds test body ((← get).fuel + 1)

/-- The step pays before it does anything else. -/
def Paid (x : Exec α) : Prop := ∃ y : Exec α, x = Exec.charge 1 >>= fun _ => y

/-- A relation between the steps of two runs that every construct of the machine respects. -/
structure Simulation where
  Rel : {α : Type} → Exec α → Exec α → Prop
  strict : Prop
  quiet : ∀ {α : Type} {x : Exec α}, Quiet x → Rel x x
  bind : ∀ {α β : Type} {x y : Exec α} {f g : α → Exec β},
    Rel x y → (∀ a, Rel (f a) (g a)) → Rel (x >>= f) (y >>= g)
  charge : ∀ n, Rel (Exec.charge n) (Exec.charge n)
  exhaust : ∀ {α : Type}, Rel (Exec.exhaust : Exec α) Exec.exhaust
  newClosure : ∀ c : Closure, (strict → c.code.isSealed = true) →
    Rel (Exec.newClosure c) (Exec.newClosure c)
  onClosure : ∀ {α : Type} (r : Ref) {f g : Closure → Exec α} {other : Exec α},
    (∀ c, (strict → c.code.isSealed = true) → Rel (f c) (g c)) → Quiet other →
      Rel (withClosure r f other) (withClosure r g other)
  limiting : ∀ {α : Type} {x y : Exec α}, Rel x y → Rel (limited x) (limited y)
  deepening : ∀ {α : Type} {x y : Exec α}, Rel x y → Rel (deeper x) (deeper y)
  /-- Every test of a loop pays. -/
  repeats : ∀ {test test' : Exec Bool} {body body' : Exec Flow}, Rel test test' → Rel body body' →
    Rel (repeating (Exec.charge 1 >>= fun _ => test) body)
      (repeating (Exec.charge 1 >>= fun _ => test') body')
  handling : ∀ (e : Exception) {x y : Exec Flow},
    Rel x y → Rel (whileHandling e x) (whileHandling e y)
  guarding : ∀ {body body' orelse orelse' : Exec Flow} {handle handle' : Exception → Exec Flow},
    Rel body body' → Rel orelse orelse' → (∀ e, Rel (handle e) (handle' e)) →
      Rel (guarded body orelse handle none) (guarded body' orelse' handle' none)
  /-- With a `finally` block. Where the simulation is strict, nothing runs between the guarded block
  and that one. -/
  finishing : ∀ {body body' orelse orelse' final final' : Exec Flow}
    {handle handle' : Exception → Exec Flow},
    Rel body body' → Rel orelse orelse' → (∀ e, Rel (handle e) (handle' e)) → Rel final final' →
      Paid final → (strict → orelse = pure .next ∧ ∀ e, handle e = throw (.raise e)) →
        Rel (guarded body orelse handle (some final)) (guarded body' orelse' handle' (some final'))

namespace Simulation

attribute [grind ←] Simulation.quiet Simulation.bind Simulation.charge

variable (S : Simulation)

/-- A simulation gets along with work on values. -/
abbrev conduct : Conduct where
  Rel := S.Rel
  plain h := S.quiet h.quiet
  bind := S.bind
  charge := S.charge

theorem plain {x : Exec α} (h : Plain x) : S.Rel x x := S.quiet h.quiet

theorem ret (a : α) : S.Rel (pure a) (pure a) := S.quiet (.ret a)

theorem throw (e : Signal) : S.Rel (throw e : Exec α) (throw e) := S.quiet (.throw e)

end Simulation

end Machine

end Concord
