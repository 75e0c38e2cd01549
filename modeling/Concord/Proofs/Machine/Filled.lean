import Concord.Proofs.Machine.Moment
import Concord.Proofs.Tree.Numbered

/-!
# Blocks with a hole

A hole takes the place of one statement of a block: of the block itself, or of a branch, a loop or a
guarded block in it (`Hole`). What fills it runs where the block runs. A spot is a hole in the body of a
function, or in the body of a function that is defined there (`Spot`).

Main statement:

* `Block.exists_spot`: an edit that puts another statement at a position does so at a spot.
-/

namespace Concord

/-! ## Statements without a block -/

/-- A statement without one of the blocks that run when it runs. -/
inductive Layer where
  | condBody (test : Expr) (orelse : Block)
  | condElse (test : Expr) (body : Block)
  | forBody (target iter : Expr) (orelse : Block)
  | forElse (target iter : Expr) (body : Block)
  | whileBody (test : Expr) (orelse : Block)
  | whileElse (test : Expr) (body : Block)
  | tryBody (handlers : List Handler) (orelse final : Block)
  | tryHandler (body : Block) (before : List Handler) (type : Option Expr) (name : Option String)
    (after : List Handler) (orelse final : Block)
  | tryElse (body : Block) (handlers : List Handler) (final : Block)
  | tryFinal (body : Block) (handlers : List Handler) (orelse : Block)

/-- The statement with the block that is left out. -/
def Layer.fill (b : Block) : Layer → Stmt
  | condBody test orelse => .cond test b orelse
  | condElse test body => .cond test body b
  | forBody target iter orelse => .forLoop target iter b orelse
  | forElse target iter body => .forLoop target iter body b
  | whileBody test orelse => .whileLoop test b orelse
  | whileElse test body => .whileLoop test body b
  | tryBody handlers orelse final => .tryBlock b handlers orelse final
  | tryHandler body before type name after orelse final =>
    .tryBlock body (before ++ ⟨type, name, b⟩ :: after) orelse final
  | tryElse body handlers final => .tryBlock body handlers b final
  | tryFinal body handlers orelse => .tryBlock body handlers orelse b

theorem Stmt.nodesHandlers_append (hs ks : List Handler) :
    Stmt.nodesHandlers (hs ++ ks) = Stmt.nodesHandlers hs ++ Stmt.nodesHandlers ks := by
  induction hs with
  | nil => rfl
  | cons h hs ih => simp only [List.cons_append, Stmt.nodesHandlers, ih, List.append_assoc]

/-- The parts of the block are parts of the statement. -/
theorem Layer.nodes_subset (L : Layer) (b : Block) : Block.nodes b ⊆ (L.fill b).nodes := by
  intro x hx
  replace hx : x ∈ Stmt.nodesList b := hx
  cases L <;> simp [Layer.fill, Stmt.nodes, Stmt.nodesHandlers_append, Stmt.nodesHandlers, hx]

/-- With more expressions in the block there are more in the statement. -/
theorem Layer.expr_mono (L : Layer) {b b' : Block} (h : ∀ e, .expr e ∈ Block.nodes b → .expr e ∈ Block.nodes b')
    {e : Expr} (he : .expr e ∈ (L.fill b).nodes) : .expr e ∈ (L.fill b').nodes := by
  replace h : .expr e ∈ Stmt.nodesList b → .expr e ∈ Stmt.nodesList b' := h e
  cases L <;>
    simp only [fill, Stmt.nodes, Stmt.nodesHandlers_append, Stmt.nodesHandlers, List.mem_cons,
      List.mem_append, reduceCtorEq, false_or] at he ⊢ <;>
    tauto

/-! ## Holes and spots -/

/-- A block with a hole in the place of a statement that runs where the block runs. -/
inductive Hole where
  | here (rest : Block)
  | later (s : Stmt) (H : Hole)
  | inside (L : Layer) (H : Hole) (rest : Block)

namespace Hole

/-- The block with a statement in the hole. -/
def fill (s : Stmt) : Hole → Block
  | here rest => s :: rest
  | later t H => t :: H.fill s
  | inside L H rest => L.fill (H.fill s) :: rest

variable {s : Stmt}

theorem fill_ne_nil (H : Hole) : H.fill s ≠ [] := by
  cases H <;> exact List.cons_ne_nil _ _

/-- The parts of what fills the hole are parts of the block. -/
theorem nodes_subset (H : Hole) : s.nodes ⊆ Block.nodes (H.fill s) := by
  induction H with
  | here rest => exact List.subset_append_left _ _
  | later t H ih => exact List.subset_append_of_subset_right _ ih
  | inside L H rest ih =>
    exact List.subset_append_of_subset_left _ (List.Subset.trans ih (L.nodes_subset _))

/-- With more expressions in the hole there are more in the block. -/
theorem expr_mono (H : Hole) {s s' : Stmt} (h : ∀ e, .expr e ∈ s.nodes → .expr e ∈ s'.nodes) {e : Expr}
    (he : .expr e ∈ Block.nodes (H.fill s)) : .expr e ∈ Block.nodes (H.fill s') := by
  induction H generalizing e with
  | here rest => exact List.mem_append.mpr ((List.mem_append.mp he).imp_left (h e))
  | later t H ih => exact List.mem_append.mpr ((List.mem_append.mp he).imp_right ih)
  | inside L H rest ih =>
    exact List.mem_append.mpr ((List.mem_append.mp he).imp_left (L.expr_mono fun _ => ih))

/-- A hole behind more statements. -/
def behind (front : Block) (H : Hole) : Hole := front.foldr later H

theorem fill_behind (front : Block) (H : Hole) : (H.behind front).fill s = front ++ H.fill s := by
  induction front with
  | nil => rfl
  | cons t front ih => exact congrArg (t :: ·) ih

end Hole

/-- A hole in the body of a function, or in that of a function defined there. -/
inductive Spot where
  | own (H : Hole)
  | inner (H : Hole) (f : Function) (P : Spot)

namespace Spot

/-- The body with a statement in the hole. -/
def fill (s : Stmt) : Spot → Block
  | own H => H.fill s
  | inner H f P => H.fill (.define { f with body := P.fill s })

/-- The hole in the body of the innermost function around it. -/
def hole : Spot → Hole
  | own H => H
  | inner _ _ P => P.hole

variable {s : Stmt}

/-- The parts of the innermost body are parts of the whole. -/
theorem nodes_subset (P : Spot) : Block.nodes (P.hole.fill s) ⊆ Block.nodes (P.fill s) := by
  induction P with
  | own H => exact List.Subset.refl _
  | inner H f P ih =>
    refine List.Subset.trans (List.Subset.trans ih fun x hx => ?_) H.nodes_subset
    replace hx : x ∈ Stmt.nodesList (P.fill s) := hx
    simp [Stmt.nodes, hx]

/-- The spot in a statement behind others. -/
def inside (front rest : Block) (L : Layer) : Spot → Spot
  | own H => own ((Hole.inside L H rest).behind front)
  | inner H f P => inner ((Hole.inside L H rest).behind front) f P

theorem fill_inside (front rest : Block) (L : Layer) (P : Spot) :
    (P.inside front rest L).fill s = front ++ L.fill (P.fill s) :: rest := by
  cases P <;> exact Hole.fill_behind front _

end Spot

/-! ## Edits at a position -/

open Nth

namespace Stmt

variable {p : Block → Nat → Bool} {edit : Block → Nat → Option Block} {s s' : Stmt}

/-- The second statement stands in the place of the first. -/
def Puts (s s' : Stmt) (b b' : Block) : Prop :=
  ∃ front rest, b = front ++ s :: rest ∧ b' = front ++ s' :: rest

/-- The two statements stand at one spot of two blocks. -/
def PutsAt (s s' : Stmt) (b b' : Block) : Prop := ∃ P : Spot, b = P.fill s ∧ b' = P.fill s'

/-- The two statements stand at one spot in two statements. -/
def PutsIn (s s' t t' : Stmt) : Prop :=
  (∃ f : Function, ∃ b', PutsAt s s' f.body b' ∧ t = .define f ∧ t' = .define { f with body := b' }) ∨
    ∃ L : Layer, ∃ b b', PutsAt s s' b b' ∧ t = L.fill b ∧ t' = L.fill b'

theorem PutsAt.layer {b b' : Block} (h : PutsAt s s' b b') (L : Layer) :
    PutsIn s s' (L.fill b) (L.fill b') :=
  .inr ⟨L, b, b', h, rfl, rfl⟩

theorem PutsIn.around {t t' : Stmt} (h : PutsIn s s' t t') (front rest : Block) :
    PutsAt s s' (front ++ t :: rest) (front ++ t' :: rest) := by
  obtain ⟨f, b', ⟨P, hb, rfl⟩, rfl, rfl⟩ | ⟨L, _, _, ⟨P, rfl, rfl⟩, rfl, rfl⟩ := h
  · refine ⟨.inner ((Hole.here rest).behind front) f P, ?_, ?_⟩
    · rw [Spot.fill, Hole.fill_behind, ← hb]
      rfl
    · rw [Spot.fill, Hole.fill_behind]
      rfl
  · exact ⟨P.inside front rest L, (P.fill_inside ..).symm, (P.fill_inside ..).symm⟩

variable (p edit s s')

mutual

/-- An edit at a position in a statement. -/
theorem editNth_puts : (t : Stmt) → (k : Nat) →
    Agrees (fun _ => Carries edit (Puts s s') (PutsIn s s' t)) (t.sites p) k (t.editNth p edit k)
  | .define ⟨name, params, body, decorators, returns, isAsync⟩, k => by
    rw [editNth, sites]
    refine Carries.under (editFrom_puts body body 0 [] rfl rfl k)
      (define ⟨name, params, ·, decorators, returns, isAsync⟩) fun b' hb => ?_
    exact .inl ⟨⟨name, params, body, decorators, returns, isAsync⟩, b', hb, rfl, rfl⟩
  | .cond t body orelse, k => by
    rw [editNth, sites]
    exact (Carries.under (editFrom_puts body body 0 [] rfl rfl k) (cond t · orelse)
      fun _ hb => hb.layer (.condBody t orelse)).orElse_const fun k =>
        Carries.under (editFrom_puts orelse orelse 0 [] rfl rfl k) (cond t body ·)
          fun _ hb => hb.layer (.condElse t body)
  | .forLoop t i body orelse, k => by
    rw [editNth, sites]
    exact (Carries.under (editFrom_puts body body 0 [] rfl rfl k) (forLoop t i · orelse)
      fun _ hb => hb.layer (.forBody t i orelse)).orElse_const fun k =>
        Carries.under (editFrom_puts orelse orelse 0 [] rfl rfl k) (forLoop t i body ·)
          fun _ hb => hb.layer (.forElse t i body)
  | .whileLoop t body orelse, k => by
    rw [editNth, sites]
    exact (Carries.under (editFrom_puts body body 0 [] rfl rfl k) (whileLoop t · orelse)
      fun _ hb => hb.layer (.whileBody t orelse)).orElse_const fun k =>
        Carries.under (editFrom_puts orelse orelse 0 [] rfl rfl k) (whileLoop t body ·)
          fun _ hb => hb.layer (.whileElse t body)
  | .tryBlock body hs orelse final, k => by
    rw [editNth, sites]
    refine (Carries.under (editFrom_puts body body 0 [] rfl rfl k) (tryBlock · hs orelse final)
      fun _ hb => hb.layer (.tryBody hs orelse final)).orElse_const fun k => ?_
    refine (Carries.under (editHandlers_puts hs k) (tryBlock body · orelse final) ?_).orElse_const
      fun k => ?_
    · rintro _ ⟨before, type, name, b, b', after, hb, rfl, rfl⟩
      exact hb.layer (.tryHandler body before type name after orelse final)
    · exact (Carries.under (editFrom_puts orelse orelse 0 [] rfl rfl k) (tryBlock body hs · final)
        fun _ hb => hb.layer (.tryElse body hs final)).orElse_const fun k =>
          Carries.under (editFrom_puts final final 0 [] rfl rfl k) (tryBlock body hs orelse ·)
            fun _ hb => hb.layer (.tryFinal body hs orelse)
  | .ret _, _ | .assign _ _ _, _ | .augAssign _ _ _, _ | .expr _, _ | .raise _ _, _ | .assert _ _, _
  | .importNames _, _ | .importFrom _ _, _ | .globals _, _ | .nonlocals _, _ | .pass, _ | .break, _
  | .continue, _ | .verbatim _ _ _, _ => by
    rw [editNth, sites]
    exact Agrees.nil

/-- An edit at the positions of a block from `i` on, behind the statements `front`. -/
theorem editFrom_puts (block : Block) : (ss : List Stmt) → (i : Nat) → (front : Block) →
    block = front ++ ss → i = front.length → (k : Nat) →
    Agrees (fun _ => Carries edit (Puts s s') (PutsAt s s' block)) (sitesFrom p block ss i) k
      (editFrom p edit block ss i k)
  | [], _, _, _, _, _ => Agrees.nil
  | t :: ss, i, front, hblock, hi, k => by
    have hhere : Carries edit (Puts s s') (PutsAt s s' block) (block, i) (edit block i) := by
      refine fun b hb => ⟨b, hb, ?_⟩
      rintro ⟨before, rest, hbefore, rfl⟩
      refine ⟨.own ((Hole.here rest).behind before), ?_, ?_⟩ <;> rw [Spot.fill, Hole.fill_behind]
      · exact hbefore
      · rfl
    have hinside := fun k => (Carries.under (editNth_puts t k) (block.set i ·)
      fun t' ht => show PutsAt s s' block (block.set i t') by
        subst hi
        rw [hblock, List.set_append_right _ _ (Nat.le_refl _), Nat.sub_self, List.set_cons_zero]
        exact ht.around front ss).orElse_const
      (editFrom_puts block ss (i + 1) (front ++ [t]) (by rw [hblock]; simp) (by simp [hi]))
    rw [editFrom, sitesFrom]
    exact atNthSite_agrees (fun _ => hhere) hinside

/-- An edit at a position in the handlers of a guarded block. -/
theorem editHandlers_puts : (hs : List (HandlerOf Stmt)) → (k : Nat) →
    Agrees (fun _ => Carries edit (Puts s s') fun hs' => ∃ before type name b b' after,
      PutsAt s s' b b' ∧ hs = before ++ ⟨type, name, b⟩ :: after ∧
        hs' = before ++ ⟨type, name, b'⟩ :: after) (sitesHandlers p hs) k (editHandlers p edit hs k)
  | [], _ => Agrees.nil
  | ⟨type, name, body⟩ :: hs, k => by
    rw [editHandlers, sitesHandlers]
    refine (Carries.under (editFrom_puts body body 0 [] rfl rfl k) (⟨type, name, ·⟩ :: hs)
      ?_).orElse_const fun k => ?_
    · exact fun b' hb => ⟨[], type, name, body, b', hs, hb, rfl, rfl⟩
    refine Carries.under (editHandlers_puts hs k) (⟨type, name, body⟩ :: ·) ?_
    rintro _ ⟨before, type', name', b, b', after, hb, rfl, rfl⟩
    exact ⟨⟨type, name, body⟩ :: before, type', name', b, b', after, hb, rfl, rfl⟩

end

end Stmt

/-- An edit that puts another statement at a position does so at a spot of the block. -/
theorem Block.exists_spot {p : Block → Nat → Bool} {edit : Block → Nat → Option Block} {b b' : Block}
    {k i : Nat} {front rest : Block} {s s' : Stmt}
    (hsite : (sites p b)[k]? = some (front ++ s :: rest, i))
    (hedit : edit (front ++ s :: rest) i = some (front ++ s' :: rest))
    (h : editNth? p edit b k = some b') : ∃ P : Spot, b = P.fill s ∧ b' = P.fill s' := by
  have hagrees := Stmt.editFrom_puts p edit s s' b b 0 [] rfl rfl k
  unfold sites at hsite
  unfold Agrees at hagrees
  rw [hsite] at hagrees
  obtain ⟨result, hresult, hcarries⟩ := hagrees
  rw [editNth?, hresult] at h
  obtain ⟨new, hnew, hputs⟩ := hcarries b' h
  obtain rfl := Option.some.inj (hedit.symm.trans hnew)
  exact hputs ⟨front, rest, rfl, rfl⟩

end Concord

/-!
# Running a block with a hole

A block with a hole can be run with any step in the hole (`Hole.run`); with the run of a statement there,
it is the run of the block that the statement fills (`Hole.execBlock_fill`). Steps in the hole that do
alike make the runs do alike: in a simulation (`Simulation.Calls.hole`), and where the one step attains
the other in the scope of the block (`Around.hole`).
-/

namespace Concord

namespace Machine

section

variable (call : Call) (env : Env)

/-! ## Steps around a hole -/

/-- Go on behind a step, unless it leaves the block. -/
def andThen (x rest : Exec Flow) : Exec Flow := do
  match ← x with
  | .next => rest
  | exit => return exit

/-- A conditional statement. -/
def branch (test : Expr) (body orelse : Exec Flow) : Exec Flow := do
  Exec.charge 1
  if ← Exec.truthy (← eval call env test) then body else orelse

/-- What comes behind a loop. -/
def afterLoop (orelse : Exec Flow) : Option Flow → Exec Flow
  | some exit => return exit
  | none => orelse

/-- A loop over items. -/
def loopOver (target iter : Expr) (body orelse : Exec Flow) : Exec Flow := do
  Exec.charge 1
  let items ← iterate (← eval call env iter)
  let left ← forItems (fun item => do
    assign call env target item
    body) items
  afterLoop orelse left

/-- A loop with a test. -/
def loopWhile (test : Expr) (body orelse : Exec Flow) : Exec Flow := do
  Exec.charge 1
  let left ← repeating (do Exec.truthy (← eval call env test)) body
  afterLoop orelse left

/-- Handle an exception that is caught with the block `x`, and go on with what comes next otherwise. -/
def handle (e : Exception) (name : Option String) (x next : Exec Flow) (caught : Bool) : Exec Flow := do
  if caught then
    match name with
    | some name => Exec.bind env name (← Exec.newException e)
    | none => pure ()
    whileHandling e x
  else next

/-- Handle an exception by a handler with the block `x`, or else by what comes next. -/
def attend (e : Exception) (type : Option Expr) (name : Option String) (x next : Exec Flow) :
    Exec Flow := do
  let caught ← match ← evalOption call env type with
    | none => pure true
    | some handler => Exec.ofExcept (← Exec.ofHeap (·.catches e handler))
  handle env e name x next caught

/-- Handle an exception by one of some handlers, or else by what comes next. -/
def attendAll (e : Exception) (handlers : List Handler) (next : Exec Flow) : Exec Flow :=
  handlers.foldr (fun h next => attend call env e h.type h.name (execBlock call env h.body) next) next

/-- The last block of a guarded one. -/
def lastly (final : Block) : Option (Exec Flow) :=
  if final.isEmpty then none else some (execBlock call env final)

theorem execBlock_cons (s : Stmt) (rest : Block) :
    execBlock call env (s :: rest) = andThen (exec call env s) (execBlock call env rest) := by
  rw [execBlock]
  rfl

theorem execHandlers_append (e : Exception) (hs ks : List Handler) :
    execHandlers call env e (hs ++ ks) = attendAll call env e hs (execHandlers call env e ks) := by
  induction hs with
  | nil => rfl
  | cons h hs ih =>
    obtain ⟨type, name, body⟩ := h
    rw [List.cons_append, execHandlers, ih]
    rfl

end

end Machine

open Machine

/-- Run a statement with a step in the place of the block that is left out. -/
def Layer.run (call : Call) (env : Env) (x : Exec Flow) : Layer → Exec Flow
  | condBody test orelse => branch call env test x (execBlock call env orelse)
  | condElse test body => branch call env test (execBlock call env body) x
  | forBody target iter orelse => loopOver call env target iter x (execBlock call env orelse)
  | forElse target iter body => loopOver call env target iter (execBlock call env body) x
  | whileBody test orelse => loopWhile call env test x (execBlock call env orelse)
  | whileElse test body => loopWhile call env test (execBlock call env body) x
  | tryBody handlers orelse final => do
    Exec.charge 1
    guarded x (execBlock call env orelse) (fun e => execHandlers call env e handlers)
      (lastly call env final)
  | tryHandler body before type name after orelse final => do
    Exec.charge 1
    guarded (execBlock call env body) (execBlock call env orelse)
      (fun e => attendAll call env e before
        (attend call env e type name x (execHandlers call env e after)))
      (lastly call env final)
  | tryElse body handlers final => do
    Exec.charge 1
    guarded (execBlock call env body) x (fun e => execHandlers call env e handlers)
      (lastly call env final)
  | tryFinal body handlers orelse => do
    Exec.charge 1
    guarded (execBlock call env body) (execBlock call env orelse)
      (fun e => execHandlers call env e handlers) (some x)

/-- Run a block with a step in the hole. -/
def Hole.run (call : Call) (env : Env) (x : Exec Flow) : Hole → Exec Flow
  | here rest => andThen x (execBlock call env rest)
  | later s H => andThen (exec call env s) (H.run call env x)
  | inside L H rest => andThen (L.run call env (H.run call env x)) (execBlock call env rest)

section

variable (call : Call) (env : Env)

theorem Layer.exec_fill (L : Layer) {b : Block} (hb : b ≠ []) :
    exec call env (L.fill b) = L.run call env (execBlock call env b) := by
  cases L with
  | tryHandler body before type name after orelse final =>
    rw [fill, run, exec]
    simp only [execHandlers_append, execHandlers]
    rfl
  | tryFinal body handlers orelse =>
    rw [fill, run, exec, if_neg (by simpa using hb)]
  | condBody | condElse | forBody | forElse | whileBody | whileElse | tryBody | tryElse =>
    rw [fill, run, exec]
    rfl

/-- With the run of a statement in the hole, the run is that of the block with the statement. -/
theorem Hole.execBlock_fill (H : Hole) (s : Stmt) :
    execBlock call env (H.fill s) = H.run call env (exec call env s) := by
  induction H with
  | here rest => exact execBlock_cons call env s rest
  | later t H ih => rw [fill, run, execBlock_cons, ih]
  | inside L H rest ih => rw [fill, run, execBlock_cons, L.exec_fill call env H.fill_ne_nil, ih]

theorem Machine.Paid.bind {α β : Type} {x : Exec α} (h : Paid x) (f : α → Exec β) : Paid (x >>= f) := by
  obtain ⟨y, rfl⟩ := h
  exact ⟨_, bind_assoc ..⟩

theorem Hole.paid_run {x : Exec Flow} (hx : Paid x) (H : Hole) : Paid (H.run call env x) := by
  cases H with
  | here rest => exact hx.bind _
  | later s H => exact (Simulation.paid_exec call env s).bind _
  | inside L H rest => cases L <;> exact Paid.bind ⟨_, rfl⟩ _

end

/-! ## In a simulation -/

namespace Machine.Simulation.Calls

variable {S : Simulation} {call call' : Call} (h : S.Calls call call') (hS : ¬ S.strict) (env : Env)
  {x x' y y' : Exec Flow}

theorem andThen (hx : S.Rel x x') (hy : S.Rel y y') : S.Rel (andThen x y) (andThen x' y') := by
  refine S.bind hx fun flow => ?_
  split
  · exact hy
  · exact S.ret _

theorem afterLoop (hy : S.Rel y y') (left : Option Flow) : S.Rel (afterLoop y left) (afterLoop y' left) := by
  cases left with
  | some exit => exact S.ret _
  | none => exact hy

theorem handle (e : Exception) (name : Option String) (hx : S.Rel x x') (hy : S.Rel y y')
    (caught : Bool) : S.Rel (handle env e name x y caught) (handle env e name x' y' caught) := by
  have hhandled := S.handling e hx
  unfold Machine.handle
  cases caught <;> cases name <;> grind

include h

theorem branch (test : Expr) (hx : S.Rel x x') (hy : S.Rel y y') :
    S.Rel (branch call env test x y) (branch call' env test x' y') := by
  refine S.bind (S.charge 1) fun _ => S.bind (h.eval env test) fun v =>
    S.bind (S.plain (.truthy v)) fun b => ?_
  split
  · exact hx
  · exact hy

theorem loopOver (target iter : Expr) (hx : S.Rel x x') (hy : S.Rel y y') :
    S.Rel (loopOver call env target iter x y) (loopOver call' env target iter x' y') :=
  S.bind (S.charge 1) fun _ => S.bind (h.eval env iter) fun v =>
    S.bind (S.conduct.iterate v) fun items =>
      S.bind (S.forItems (fun item => S.bind (h.assign env target item) fun _ => hx) items) (afterLoop hy)

theorem loopWhile (test : Expr) (hx : S.Rel x x') (hy : S.Rel y y') :
    S.Rel (loopWhile call env test x y) (loopWhile call' env test x' y') := by
  obtain ⟨_, _, hleft, hright, htest⟩ := (h.pays env test).bind fun v => S.plain (.truthy v)
  unfold Machine.loopWhile
  rw [hleft, hright]
  exact S.bind (S.charge 1) fun _ => S.bind (S.repeats htest hx) (afterLoop hy)

theorem attend (e : Exception) (type : Option Expr) (name : Option String) (hx : S.Rel x x')
    (hy : S.Rel y y') : S.Rel (attend call env e type name x y) (attend call' env e type name x' y') := by
  have hhandle := handle env e name hx hy
  refine S.bind (h.evalOption env type) fun handler => ?_
  cases handler with
  | none => exact S.bind (S.ret true) hhandle
  | some handler =>
    exact S.bind (S.quiet (.ofHeap _)) fun r => S.bind (S.plain (.ofExcept r)) hhandle

include hS

theorem attendAll (e : Exception) (handlers : List Handler) (hy : S.Rel y y') :
    S.Rel (attendAll call env e handlers y) (attendAll call' env e handlers y') := by
  induction handlers with
  | nil => exact hy
  | cons k ks ih => exact h.attend env e k.type k.name (h.execBlock env k.body (absurd · hS)) ih

/-- Guarded blocks that do alike. -/
theorem protect {handle handle' : Exception → Exec Flow} (hx : S.Rel x x') (hy : S.Rel y y')
    (hhandle : ∀ e, S.Rel (handle e) (handle' e)) (final : Block) :
    S.Rel (guarded x y handle (lastly call env final)) (guarded x' y' handle' (lastly call' env final)) := by
  unfold lastly
  split
  · exact S.guarding hx hy hhandle
  · next hne =>
    exact S.finishing hx hy hhandle (h.execBlock env final (absurd · hS))
      (paid_execBlock call env (by simpa using hne)) (absurd · hS)

theorem layer (hx : S.Rel x x') (hpaid : Paid x) (L : Layer) :
    S.Rel (L.run call env x) (L.run call' env x') := by
  have hblock (b : Block) : S.Rel (Machine.execBlock call env b) (Machine.execBlock call' env b) :=
    h.execBlock env b (absurd · hS)
  have hhandle (hs : List Handler) (e : Exception) :
      S.Rel (Machine.execHandlers call env e hs) (Machine.execHandlers call' env e hs) :=
    h.execHandlers env e hs (absurd · hS)
  cases L with
  | condBody test orelse => exact h.branch env test hx (hblock orelse)
  | condElse test body => exact h.branch env test (hblock body) hx
  | forBody target iter orelse => exact h.loopOver env target iter hx (hblock orelse)
  | forElse target iter body => exact h.loopOver env target iter (hblock body) hx
  | whileBody test orelse => exact h.loopWhile env test hx (hblock orelse)
  | whileElse test body => exact h.loopWhile env test (hblock body) hx
  | tryBody handlers orelse final =>
    exact S.bind (S.charge 1) fun _ => h.protect hS env hx (hblock orelse) (hhandle handlers) final
  | tryHandler body before type name after orelse final =>
    refine S.bind (S.charge 1) fun _ => h.protect hS env (hblock body) (hblock orelse) (fun e => ?_) final
    exact h.attendAll hS env e before (h.attend env e type name hx (hhandle after e))
  | tryElse body handlers final =>
    exact S.bind (S.charge 1) fun _ => h.protect hS env (hblock body) hx (hhandle handlers) final
  | tryFinal body handlers orelse =>
    exact S.bind (S.charge 1) fun _ =>
      S.finishing (hblock body) (hblock orelse) (hhandle handlers) hx hpaid (absurd · hS)

/-- Steps that do alike do so in a hole. -/
theorem hole (hx : S.Rel x x') (hpaid : Paid x) (H : Hole) :
    S.Rel (H.run call env x) (H.run call' env x') := by
  have hblock (b : Block) : S.Rel (Machine.execBlock call env b) (Machine.execBlock call' env b) :=
    h.execBlock env b (absurd · hS)
  induction H with
  | here rest => exact andThen hx (hblock rest)
  | later s H ih => exact andThen (h.exec env s (absurd · hS)) ih
  | inside L H rest ih => exact andThen (h.layer hS env ih (H.paid_run call env hpaid) L) (hblock rest)

end Machine.Simulation.Calls

/-! ## In the scope of a block -/

namespace Machine

/-- Code beside a hole, in the scope numbered `k`: in stages that satisfy `Q`, the scope is of a stage that
satisfies `G`, and calls in the second run attain those in the first. -/
structure Around (hidden : List String) (swaps : Block → Block → Prop) (Q : Stages → Prop)
    (G : Stage → Prop) (k : Nat) (call call' : Call) : Prop where
  calls : Attains.Calls hidden swaps call call'
  steady : ∀ d, (lessening d).Calls call call
  stage : ∀ W, Q W → ∃ g, G g ∧ W[k]? = some g
  mono : ∀ W W', Q W → W <+: W' → Q W'

/-- In all stages that satisfy `Q`, the second step attains the first one. -/
abbrev AttainsIn (hidden : List String) (swaps : Block → Block → Prop) (Q : Stages → Prop) {α : Type}
    (x y : Exec α) : Prop :=
  AttainsWhile hidden swaps (fun _ => True) Q x y

namespace Around

open AttainsWhile

variable {α : Type} {hidden : List String} {swaps : Block → Block → Prop} {Q : Stages → Prop}
  {G : Stage → Prop} {k : Nat} {call call' : Call} (h : Around hidden swaps Q G k call call')
  {x x' y y' : Exec Flow}

theorem andThen (hx : AttainsIn hidden swaps Q x x') (hy : AttainsIn hidden swaps Q y y') :
    AttainsIn hidden swaps Q (andThen x y) (andThen x' y') := by
  refine bind hx fun flow => ?_
  split
  · exact hy
  · exact ret _

theorem afterLoop (hy : AttainsIn hidden swaps Q y y') (left : Option Flow) :
    AttainsIn hidden swaps Q (afterLoop y left) (afterLoop y' left) := by
  cases left with
  | some exit => exact ret _
  | none => exact hy

/-- The names of handlers that suit every stage. -/
theorem takes {body orelse final : Block} {hs : List Handler}
    (hsuits : ∀ g, G g → g.suits hidden (.stmt (.tryBlock body hs orelse final)) = true) :
    ∀ i ∈ hs, ∀ n ∈ i.name, ∀ g, G g → g.Takes hidden n :=
  fun i hi n hn g hg => Attains.takes_of_handlers (hsuits g hg) i hi n hn

include h

/-- What attains in scopes of these stages does so here. -/
theorem attains {x y : Exec α} (hxy : ∀ g, G g → Attains hidden swaps (some k) g x y) (hsteady : Steady x) :
    AttainsIn hidden swaps Q x y := by
  refine ⟨hsteady, fun W s F hW hF _ => ?_⟩
  obtain ⟨g, hg, hat⟩ := h.stage W hW
  exact AttainsAt.weaken (hxy g hg W s F hat hF) fun W' => h.mono W W' hW

theorem eval (e : Expr) (he : ∀ x ∈ e.subterms, ∀ g, G g → g.suits hidden (.expr x) = true) :
    AttainsIn hidden swaps Q (Machine.eval call (some k) e) (Machine.eval call' (some k) e) :=
  h.attains (fun g hg => h.calls.eval (some k) e fun x hx => he x hx g hg) fun d =>
    ((h.steady d).eval (some k) e).2

theorem assign (value : Value) (t : Expr)
    (ht : ∀ x ∈ t.subterms, ∀ g, G g → g.suits hidden (.expr x) = true) :
    AttainsIn hidden swaps Q (Machine.assign call (some k) t value)
      (Machine.assign call' (some k) t value) :=
  h.attains (fun g hg => h.calls.assign (some k) value t fun x hx => ht x hx g hg) fun d =>
    ((h.steady d).assign (some k) t value).2

theorem exec (s : Stmt) (hs : ∀ x ∈ s.nodes, ∀ g, G g → g.suits hidden x = true) :
    AttainsIn hidden swaps Q (Machine.exec call (some k) s) (Machine.exec call' (some k) s) :=
  h.attains (fun g hg => h.calls.exec (some k) s fun x hx => hs x hx g hg) fun d =>
    ((h.steady d).exec (some k) s False.elim).2

theorem execBlock (b : Block) (hb : ∀ x ∈ Stmt.nodesList b, ∀ g, G g → g.suits hidden x = true) :
    AttainsIn hidden swaps Q (Machine.execBlock call (some k) b) (Machine.execBlock call' (some k) b) :=
  h.attains (fun g hg => h.calls.execBlock (some k) b fun x hx => hb x hx g hg) fun d =>
    ((h.steady d).execBlock (some k) b False.elim).2

theorem execHandlers (e : Exception) (hs : List Handler)
    (hnames : ∀ i ∈ hs, ∀ n ∈ i.name, ∀ g, G g → g.Takes hidden n)
    (hhs : ∀ x ∈ Stmt.nodesHandlers hs, ∀ g, G g → g.suits hidden x = true) :
    AttainsIn hidden swaps Q (Machine.execHandlers call (some k) e hs)
      (Machine.execHandlers call' (some k) e hs) :=
  h.attains (fun g hg => h.calls.execHandlers (some k) e hs (fun i hi n hn => hnames i hi n hn g hg)
    fun x hx => hhs x hx g hg) fun d => ((h.steady d).execHandlers (some k) e hs False.elim).2

theorem branch (test : Expr) (ht : ∀ x ∈ test.subterms, ∀ g, G g → g.suits hidden (.expr x) = true)
    (hx : AttainsIn hidden swaps Q x x') (hy : AttainsIn hidden swaps Q y y') :
    AttainsIn hidden swaps Q (branch call (some k) test x y) (branch call' (some k) test x' y') := by
  refine bind (charge 1) fun _ => bind (h.eval test ht) fun v => bind (plain (.truthy v)) fun b => ?_
  split
  · exact hx
  · exact hy

theorem loopOver (target iter : Expr)
    (htarget : ∀ x ∈ target.subterms, ∀ g, G g → g.suits hidden (.expr x) = true)
    (hiter : ∀ x ∈ iter.subterms, ∀ g, G g → g.suits hidden (.expr x) = true)
    (hx : AttainsIn hidden swaps Q x x') (hy : AttainsIn hidden swaps Q y y') :
    AttainsIn hidden swaps Q (loopOver call (some k) target iter x y)
      (loopOver call' (some k) target iter x' y') :=
  .bind (charge 1) fun _ => .bind (h.eval iter hiter) fun v => .bind ((conduct _ _ _ _).iterate v) fun _ =>
    .bind (.forItems (List.forall₂_same.mpr fun item _ => .bind (h.assign item target htarget) fun _ => hx))
      (afterLoop hy)

theorem loopWhile (test : Expr) (ht : ∀ x ∈ test.subterms, ∀ g, G g → g.suits hidden (.expr x) = true)
    (hx : AttainsIn hidden swaps Q x x') (hy : AttainsIn hidden swaps Q y y') :
    AttainsIn hidden swaps Q (loopWhile call (some k) test x y) (loopWhile call' (some k) test x' y') := by
  have htest := bind (h.eval test ht) fun v => plain (.truthy v)
  refine bind (charge 1) fun _ => bind (repeats (fun d => ?_) htest hx) (afterLoop hy)
  obtain ⟨z, _, hz, _, hrest⟩ := ((h.steady d).pays (some k) test).bind fun v =>
    (lessening d).plain (.truthy v)
  exact ⟨z, hz, hrest.2⟩

theorem handle (e : Exception) {name : Option String} (hname : ∀ n ∈ name, ∀ g, G g → g.Takes hidden n)
    (hx : AttainsIn hidden swaps Q x x') (hy : AttainsIn hidden swaps Q y y') (caught : Bool) :
    AttainsIn hidden swaps Q (handle (some k) e name x y caught)
      (handle (some k) e name x' y' caught) := by
  have hhandled := handling e (fun _ _ => id) hx
  cases caught with
  | false => exact hy
  | true =>
    cases name with
    | none => exact hhandled
    | some n =>
      have hbound (v : Value) : AttainsIn hidden swaps Q (Exec.bind (some k) n v) (Exec.bind (some k) n v) :=
        h.attains (fun g hg => Attains.bindName (hname n rfl g hg) v) fun d =>
          lessens_quiet (.bindName _ n v)
      exact bind (plain (.newException e)) fun v => bind (hbound v) fun _ => hhandled

theorem attend (e : Exception) {type : Option Expr} {name : Option String}
    (htype : ∀ x ∈ Expr.subtermsOption type, ∀ g, G g → g.suits hidden (.expr x) = true)
    (hname : ∀ n ∈ name, ∀ g, G g → g.Takes hidden n) (hx : AttainsIn hidden swaps Q x x')
    (hy : AttainsIn hidden swaps Q y y') :
    AttainsIn hidden swaps Q (attend call (some k) e type name x y)
      (attend call' (some k) e type name x' y') := by
  have hevaluated : AttainsIn hidden swaps Q (evalOption call (some k) type)
      (evalOption call' (some k) type) :=
    h.attains (fun g hg => h.calls.evalOption (some k) type fun x hx => htype x hx g hg) fun d =>
      ((h.steady d).evalOption (some k) type).2
  have hhandle := h.handle e hname hx hy
  refine bind hevaluated fun handler => ?_
  cases handler with
  | none => exact bind (ret true) hhandle
  | some handler =>
    exact bind (plain (.ofHeap fun _ _ _ => rfl)) fun r => bind (plain (.ofExcept r)) hhandle

theorem attendAll (e : Exception) (handlers : List Handler)
    (hnames : ∀ i ∈ handlers, ∀ n ∈ i.name, ∀ g, G g → g.Takes hidden n)
    (hhs : ∀ x ∈ Stmt.nodesHandlers handlers, ∀ g, G g → g.suits hidden x = true)
    (hy : AttainsIn hidden swaps Q y y') :
    AttainsIn hidden swaps Q (attendAll call (some k) e handlers y)
      (attendAll call' (some k) e handlers y') := by
  induction handlers with
  | nil => exact hy
  | cons i is ih =>
    obtain ⟨hname, hnames⟩ := List.forall_mem_cons.mp hnames
    simp only [Stmt.nodesHandlers, List.forall_mem_append, Stmt.exprNodes, List.forall_mem_map] at hhs
    exact h.attend e hhs.1 hname (h.execBlock i.body hhs.2.1) (ih hnames hhs.2.2)

/-- Guarded blocks that attain each other. -/
theorem protect {handle handle' : Exception → Exec Flow} (hx : AttainsIn hidden swaps Q x x')
    (hy : AttainsIn hidden swaps Q y y') (hhandle : ∀ e, AttainsIn hidden swaps Q (handle e) (handle' e))
    {final : Block} (hfinal : ∀ x ∈ Stmt.nodesList final, ∀ g, G g → g.suits hidden x = true) :
    AttainsIn hidden swaps Q (guarded x y handle (lastly call (some k) final))
      (guarded x' y' handle' (lastly call' (some k) final)) := by
  refine guarding hx hy hhandle ?_ ?_ <;> unfold lastly
  · intro z hz
    split at hz
    · cases hz
    · next hne =>
      obtain rfl := Option.some.inj hz
      rw [if_neg hne]
      exact ⟨Simulation.paid_execBlock call (some k) (by simpa using hne), _, rfl, h.execBlock final hfinal⟩
  · intro hnone
    split at hnone
    · rw [if_pos ‹_›]
    · cases hnone

theorem layer {b : Block} (L : Layer) (hfits : ∀ x ∈ (L.fill b).nodes, ∀ g, G g → g.suits hidden x = true)
    (hx : AttainsIn hidden swaps Q x x') (hpaid : Paid x) :
    AttainsIn hidden swaps Q (L.run call (some k) x) (L.run call' (some k) x') := by
  cases L with
  | condBody test orelse =>
    simp only [Layer.fill, Stmt.nodes, Stmt.exprNodes, List.forall_mem_cons, List.forall_mem_append,
      List.forall_mem_map] at hfits
    exact h.branch test hfits.2.1 hx (h.execBlock orelse hfits.2.2.2)
  | condElse test body =>
    simp only [Layer.fill, Stmt.nodes, Stmt.exprNodes, List.forall_mem_cons, List.forall_mem_append,
      List.forall_mem_map] at hfits
    exact h.branch test hfits.2.1 (h.execBlock body hfits.2.2.1) hx
  | forBody target iter orelse =>
    simp only [Layer.fill, Stmt.nodes, Stmt.exprNodes, List.forall_mem_cons, List.forall_mem_append,
      List.forall_mem_map] at hfits
    exact h.loopOver target iter hfits.2.1.2 hfits.2.1.1 hx (h.execBlock orelse hfits.2.2.2)
  | forElse target iter body =>
    simp only [Layer.fill, Stmt.nodes, Stmt.exprNodes, List.forall_mem_cons, List.forall_mem_append,
      List.forall_mem_map] at hfits
    exact h.loopOver target iter hfits.2.1.2 hfits.2.1.1 (h.execBlock body hfits.2.2.1) hx
  | whileBody test orelse =>
    simp only [Layer.fill, Stmt.nodes, Stmt.exprNodes, List.forall_mem_cons, List.forall_mem_append,
      List.forall_mem_map] at hfits
    exact h.loopWhile test hfits.2.1 hx (h.execBlock orelse hfits.2.2.2)
  | whileElse test body =>
    simp only [Layer.fill, Stmt.nodes, Stmt.exprNodes, List.forall_mem_cons, List.forall_mem_append,
      List.forall_mem_map] at hfits
    exact h.loopWhile test hfits.2.1 (h.execBlock body hfits.2.2.1) hx
  | tryBody handlers orelse final =>
    simp only [Layer.fill, Stmt.nodes, List.forall_mem_cons, List.forall_mem_append] at hfits
    exact bind (charge 1) fun _ => h.protect hx (h.execBlock orelse hfits.2.2.2.1)
      (fun e => h.execHandlers e handlers (takes hfits.1) hfits.2.2.1) hfits.2.2.2.2
  | tryHandler body before type name after orelse final =>
    simp only [Layer.fill, Stmt.nodes, Stmt.nodesHandlers_append, Stmt.nodesHandlers, Stmt.exprNodes,
      List.forall_mem_cons, List.forall_mem_append, List.forall_mem_map] at hfits
    obtain ⟨hself, hbody, ⟨hbefore, htype, -, hafter⟩, horelse, hfinal⟩ := hfits
    have hnames := List.forall_mem_append.mp (takes hself)
    obtain ⟨hname, hnamesAfter⟩ := List.forall_mem_cons.mp hnames.2
    refine bind (charge 1) fun _ => h.protect (h.execBlock body hbody) (h.execBlock orelse horelse)
      (fun e => ?_) hfinal
    exact h.attendAll e before hnames.1 hbefore
      (h.attend e htype hname hx (h.execHandlers e after hnamesAfter hafter))
  | tryElse body handlers final =>
    simp only [Layer.fill, Stmt.nodes, List.forall_mem_cons, List.forall_mem_append] at hfits
    exact bind (charge 1) fun _ => h.protect (h.execBlock body hfits.2.1) hx
      (fun e => h.execHandlers e handlers (takes hfits.1) hfits.2.2.1) hfits.2.2.2.2
  | tryFinal body handlers orelse =>
    simp only [Layer.fill, Stmt.nodes, List.forall_mem_cons, List.forall_mem_append] at hfits
    refine bind (charge 1) fun _ => guarding (h.execBlock body hfits.2.1) (h.execBlock orelse hfits.2.2.2.1)
      (fun e => h.execHandlers e handlers (takes hfits.1) hfits.2.2.1) ?_
      (absurd · (Option.some_ne_none _))
    rintro _ ⟨⟩
    exact ⟨hpaid, x', rfl, hx⟩

/-- Where one step attains another, it does so in a hole, if the code around the hole mentions nothing
that is hidden there. -/
theorem hole {s : Stmt} (H : Hole)
    (hfits : ∀ x ∈ Block.nodes (H.fill s), ∀ g, G g → g.suits hidden x = true)
    (hx : AttainsIn hidden swaps Q x x') (hpaid : Paid x) :
    AttainsIn hidden swaps Q (H.run call (some k) x) (H.run call' (some k) x') := by
  induction H with
  | here rest =>
    simp only [Hole.fill, Block.nodes, Stmt.nodesList, List.forall_mem_append] at hfits
    exact andThen hx (h.execBlock rest hfits.2)
  | later t H ih =>
    simp only [Hole.fill, Block.nodes, Stmt.nodesList, List.forall_mem_append] at hfits
    exact andThen (h.exec t hfits.1) (ih hfits.2)
  | inside L H rest ih =>
    simp only [Hole.fill, Block.nodes, Stmt.nodesList, List.forall_mem_append] at hfits
    have hinner := ih fun x hx => hfits.1 x (L.nodes_subset _ hx)
    exact andThen (h.layer L hfits.1 hinner (H.paid_run call (some k) hpaid)) (h.execBlock rest hfits.2)

end Around

end Machine

end Concord
