import Concord.Proofs.Machine.Conduct
import Concord.Proofs.Machine.Plain
import Concord.Proofs.Tree.Alike

/-!
# Two programs that are alike

Two programs that differ in the names of local variables run side by side. Their values and containers
are equal all along, and so are fuel and depth; what differs is in the frame: the code of functions, the
names in scopes and the messages of exceptions.

A `World` lists the ribs of all scopes made so far; it only grows. In a world two frames are related if
every scope holds the same values under the names that its ribs tie together, and if functions made
alike have code that is alike in the scope where they were made. `Twins` relates the steps that take
related states to related states, with results that are related by a relation of their own.
-/

namespace Concord.Machine

variable {α β γ δ : Type}

/-! ## Worlds -/

/-- The ribs of all scopes, in the order in which they were made. -/
abbrev World := List Ribs

/-- The ribs around a position. -/
def World.Sees (W : World) (env : Env) (ρ : Ribs) : Prop :=
  match env with
  | none => ρ = []
  | some i => W[i]? = some ρ

theorem World.getElem?_mono {W W' : World} (h : W <+: W') {i : Nat} {ρ : Ribs} (hi : W[i]? = some ρ) :
    W'[i]? = some ρ := by
  obtain ⟨more, rfl⟩ := h
  rw [List.getElem?_append_left (List.getElem?_eq_some_iff.mp hi).1]
  exact hi

theorem World.Sees.mono {W W' : World} {env : Env} {ρ : Ribs} (hsees : W.Sees env ρ) (h : W <+: W') :
    W'.Sees env ρ := by
  cases env with
  | none => exact hsees
  | some i => exact World.getElem?_mono h hsees

/-- Exceptions of one class. -/
def Exception.Like (e f : Exception) : Prop := e.kind = f.kind

/-- A handler looks at the class of an exception only. -/
theorem Exception.Like.catches_eq {e f : Exception} (h : e.Like f) (heap : Heap) (handler : Value) :
    heap.catches e handler = heap.catches f handler := by
  unfold Heap.catches
  rw [show e.kind = f.kind from h]

/-- Signals that say the same up to the message of an exception. -/
inductive Signal.Like : Signal → Signal → Prop
  | raise {e f : Exception} (h : e.Like f) : Like (.raise e) (.raise f)
  | halt (h : Halt) : Like (.halt h) (.halt h)

theorem Signal.Like.refl (e : Signal) : e.Like e := by
  cases e with
  | raise e => exact .raise rfl
  | halt h => exact .halt h

/-- Code that is alike. -/
inductive Code.Alike (locals : List String) (ρ : Ribs) : Code → Code → Prop
  | block {b b' : Block} (h : Stmt.AlikeList locals ρ b b') : Alike locals ρ (.block b) (.block b')
  | expr {e e' : Expr} (h : e.Alike locals ρ e') : Alike locals ρ (.expr e) (.expr e')

section Related

variable (locals : List String)

/-- Parameters with their defaults that are alike. -/
def ParamTwins (r : Rib) (p q : Param × Option Value) : Prop := Param.Paired r p.1 q.1 ∧ p.2 = q.2

/-- Functions made alike. -/
structure Closure.Twins (W : World) (c d : Closure) : Prop where
  name : c.name = d.name
  env : c.env = d.env
  made : ∃ ρ r, W.Sees c.env ρ ∧ Ribs.Proper locals (r :: ρ) ∧
    List.Forall₂ (ParamTwins r) c.params d.params ∧ c.code.Alike locals (r :: ρ) d.code

/-- Variables with the given ribs: they have the same values under names that mean the same, and none
under the name of a local variable that is not bound there. -/
structure Bindings.Twins (ρ : Ribs) (a b : Bindings) : Prop where
  same : ∀ n m, ρ.Tied locals n m → a.get? n = b.get? m
  left : ∀ n ∈ locals, n ∉ ρ.lefts → a.get? n = none
  right : ∀ n ∈ locals, n ∉ ρ.rights → b.get? n = none

/-- Scopes with the given ribs. What they declare global is the name of no local variable, and what they
declare nonlocal is bound outside. -/
structure Scope.Twins (W : World) (ρ : Ribs) (a b : Scope) : Prop where
  proper : ρ.Proper locals
  parent : a.parent = b.parent
  outer : W.Sees a.parent ρ.tail
  vars : Bindings.Twins locals ρ a.vars b.vars
  globals : a.globals = b.globals
  globalsFree : ∀ n ∈ a.globals, n ∉ locals
  nonlocals : List.Forall₂ (fun n m => (n, m) ∈ ρ.tail.flatten) a.nonlocals b.nonlocals

/-- Frames that are related in a world. Outside of the scopes, the name of a local variable stands for
nothing. -/
structure Frame.Twins (W : World) (F G : Frame) : Prop where
  globals : F.globals = G.globals
  hidden : ∀ n ∈ locals, (F.globals.get? n).or (Value.predefined? n) = none
  handling : List.Forall₂ Exception.Like F.handling G.handling
  closures : List.Forall₂ (Closure.Twins locals W) F.closures.toList G.closures.toList
  left : F.scopes.size = W.length
  right : G.scopes.size = W.length
  scopes : ∀ (i : Nat) (ρ : Ribs), W[i]? = some ρ →
    ∃ a b, F.scopes[i]? = some a ∧ G.scopes[i]? = some b ∧ Scope.Twins locals W ρ a b

/-- States that differ in their frames only, which are related. -/
structure State.Twins (W : World) (s t : State) : Prop where
  same : t = s.withFrame t.frame
  frame : Frame.Twins locals W s.frame t.frame

/-- Endings with related results in related states. -/
inductive Ending.Twins (W : World) (R : α → β → Prop) : Ending α → Ending β → Prop
  | ok {a : α} {b : β} {s t : State} (h : R a b) (hs : State.Twins locals W s t) :
    Twins W R (.ok a s) (.ok b t)
  | error {e f : Signal} {s t : State} (h : e.Like f) (hs : State.Twins locals W s t) :
    Twins W R (.error e s) (.error f t)

/-- Steps that take related states to related states. -/
def Twins (W : World) (R : α → β → Prop) (x : Exec α) (y : Exec β) : Prop :=
  ∀ W', W <+: W' → ∀ s t, State.Twins locals W' s t →
    ∃ W'', W' <+: W'' ∧ Ending.Twins locals W'' R (x s) (y t)

end Related

variable {locals : List String} {W W' : World} {ρ : Ribs}

theorem Closure.Twins.mono {c d : Closure} (h : c.Twins locals W d) (hW : W <+: W') :
    c.Twins locals W' d := by
  obtain ⟨ρ, r, hsees, hmade⟩ := h.made
  exact ⟨h.name, h.env, ρ, r, hsees.mono hW, hmade⟩

theorem Scope.Twins.mono {a b : Scope} (h : Scope.Twins locals W ρ a b) (hW : W <+: W') :
    Scope.Twins locals W' ρ a b :=
  { h with outer := h.outer.mono hW }

theorem Frame.Twins.names {F G : Frame} (h : F.Twins locals W G) :
    G.closures.map (·.name) = F.closures.map (·.name) := by
  have hnames {cs ds : List Closure} (h : List.Forall₂ (Closure.Twins locals W) cs ds) :
      ds.map (·.name) = cs.map (·.name) := by
    induction h with
    | nil => rfl
    | cons h _ ih => rw [List.map_cons, List.map_cons, h.name, ih]
  apply Array.ext'
  rw [Array.toList_map, Array.toList_map]
  exact hnames h.closures

theorem State.Twins.ofFrame {s : State} {F : Frame} (h : s.frame.Twins locals W F) :
    s.Twins locals W (s.withFrame F) :=
  ⟨rfl, h⟩

/-! ## Rules -/

namespace Twins

variable {R : α → β → Prop} {Q : γ → δ → Prop} {x : Exec α} {y : Exec β}

theorem ret {a : α} {b : β} (h : R a b) : Twins locals W R (pure a) (pure b) :=
  fun W' _ _ _ hst => ⟨W', List.prefix_rfl, .ok h hst⟩

theorem throw {e f : Signal} (h : e.Like f) :
    Twins locals W R (throw e : Exec α) (throw f : Exec β) :=
  fun W' _ _ _ hst => ⟨W', List.prefix_rfl, .error h hst⟩

theorem bind {f : α → Exec γ} {g : β → Exec δ} (h : Twins locals W R x y)
    (hf : ∀ a b, R a b → Twins locals W Q (f a) (g b)) : Twins locals W Q (x >>= f) (y >>= g) := by
  intro W₁ hW₁ s t hst
  rw [Exec.bind_apply, Exec.bind_apply]
  obtain ⟨W₂, hW₂, hend⟩ := h W₁ hW₁ s t hst
  cases hx : x s <;> cases hy : y t <;> rw [hx, hy] at hend <;> cases hend
  · rename_i hab hst'
    obtain ⟨W₃, hW₃, hend⟩ := hf _ _ hab W₂ (hW₁.trans hW₂) _ _ hst'
    exact ⟨W₃, hW₂.trans hW₃, hend⟩
  · rename_i he hst'
    exact ⟨W₂, hW₂, .error he hst'⟩

/-- A step that leaves the frame alone. -/
theorem framed {x : Exec α} (h : Framed x) : Twins locals W Eq x x := by
  intro W' hW s t hst
  refine ⟨W', List.prefix_rfl, ?_⟩
  have hkept := h.kept s
  rw [hst.same, h.moved s t.frame hst.frame.names]
  cases hs : x s with
  | ok a s' =>
    rw [hs] at hkept
    exact .ok rfl (.ofFrame (hkept ▸ hst.frame))
  | error e s' =>
    rw [hs] at hkept
    exact .error (.refl e) (.ofFrame (hkept ▸ hst.frame))

theorem plain {x : Exec α} (h : Plain x) : Twins locals W Eq x x := framed h.framed

theorem charge (n : Nat) : Twins locals W Eq (Exec.charge n) (Exec.charge n) := framed (.charge n)

theorem exhaust : Twins locals W R (Exec.exhaust : Exec α) (Exec.exhaust : Exec β) := by
  intro W' hW s t hst
  refine ⟨W', List.prefix_rfl, ?_⟩
  rw [hst.same]
  exact .error (.halt _) (.ofFrame hst.frame)

/-- Sequencing after a step with equal results. -/
theorem seq {x y : Exec α} {f : α → Exec γ} {g : α → Exec δ} (h : Twins locals W Eq x y)
    (hf : ∀ a, Twins locals W Q (f a) (g a)) : Twins locals W Q (x >>= f) (y >>= g) :=
  h.bind fun a _ hab => hab ▸ hf a

/-- Twins get along with work on values. -/
abbrev conduct (locals : List String) (W : World) : Conduct where
  Rel := Twins locals W Eq
  plain := plain
  bind := seq
  charge := charge

/-- Go on with something that does not belong to the frame. -/
theorem read {f : State → γ} {g : γ → Exec α} {k : γ → Exec β}
    (hf : ∀ s F, f (s.withFrame F) = f s) (hgk : ∀ c, Twins locals W R (g c) (k c)) :
    Twins locals W R (get >>= fun s => g (f s)) (get >>= fun s => k (f s)) := by
  intro W' hW s t hst
  have hfs : f t = f s := by rw [hst.same, hf]
  show ∃ W'', W' <+: W'' ∧ Ending.Twins locals W'' R (g (f s) s) (k (f t) t)
  rw [hfs]
  exact hgk (f s) W' hW s t hst

/-- What becomes of a step whose signals are kept as values. -/
inductive Kept (R : α → β → Prop) : Except Signal α → Except Signal β → Prop
  | ok {a : α} {b : β} (h : R a b) : Kept R (.ok a) (.ok b)
  | error {e f : Signal} (h : e.Like f) : Kept R (.error e) (.error f)

theorem attempt (h : Twins locals W R x y) :
    Twins locals W (Kept R) (Exec.attempt x) (Exec.attempt y) := by
  intro W₁ hW₁ s t hst
  obtain ⟨W₂, hW₂, hend⟩ := h W₁ hW₁ s t hst
  refine ⟨W₂, hW₂, ?_⟩
  rw [Exec.attempt, Exec.attempt]
  cases hx : x s <;> cases hy : y t <;> rw [hx, hy] at hend <;> cases hend
  · exact .ok (.ok ‹_›) ‹_›
  · exact .ok (.error ‹_›) ‹_›

theorem ofExcept {r : Except Signal α} {r' : Except Signal β} (h : Kept R r r') :
    Twins locals W R (Exec.ofExcept r) (Exec.ofExcept r') := by
  cases h with
  | ok h => exact ret h
  | error h => exact throw h

/-- A change of related states. -/
theorem change {f g : State → State}
    (h : ∀ W' s t, W <+: W' → State.Twins locals W' s t → State.Twins locals W' (f s) (g t)) :
    Twins locals W Eq (modify f : Exec Unit) (modify g) :=
  fun W' hW s t hst => ⟨W', List.prefix_rfl, .ok rfl (h W' s t hW hst)⟩

/-- A change of the frames of related states. -/
theorem reframe {f g : Frame → Frame}
    (h : ∀ W' F G, W <+: W' → Frame.Twins locals W' F G → Frame.Twins locals W' (f F) (g G)) :
    Twins locals W Eq (modify fun s => s.withFrame (f s.frame) : Exec Unit)
      (modify fun s => s.withFrame (g s.frame)) := by
  refine change fun W' s t hW hst => ⟨?_, h W' _ _ hW hst.frame⟩
  show t.withFrame (g t.frame) = _
  rw [hst.same]
  rfl

/-! ## Functions -/

theorem newClosure {c d : Closure} (h : c.Twins locals W d) :
    Twins locals W Eq (Exec.newClosure c) (Exec.newClosure d) := by
  intro W' hW s t hst
  have hsize : t.heap.closures.size = s.heap.closures.size := hst.frame.closures.length_eq.symm
  refine ⟨W', List.prefix_rfl, .ok ?_ ⟨?_, ?_⟩⟩
  · rw [hsize]
  · conv_lhs => rw [hst.same]
    rfl
  · refine { hst.frame with closures := ?_ }
    show List.Forall₂ _ (s.heap.closures.push c).toList (t.heap.closures.push d).toList
    rw [Array.toList_push, Array.toList_push]
    exact List.rel_append hst.frame.closures (.cons (h.mono hW) .nil)

/-- The functions at one place: both are there, or neither is. -/
theorem closures_cases {cs ds : List Closure} (h : List.Forall₂ (Closure.Twins locals W) cs ds)
    (r : Ref) : cs[r]? = none ∧ ds[r]? = none ∨
      ∃ c d, cs[r]? = some c ∧ ds[r]? = some d ∧ c.Twins locals W d := by
  induction h generalizing r with
  | nil => exact .inl ⟨rfl, rfl⟩
  | cons h _ ih =>
    cases r with
    | zero => exact .inr ⟨_, _, rfl, rfl, h⟩
    | succ r => exact ih r

theorem onClosure {r : Ref} {f : Closure → Exec α} {g : Closure → Exec β} {other : Exec α}
    {other' : Exec β}
    (h : ∀ W' c d, W <+: W' → c.Twins locals W' d → Twins locals W' R (f c) (g d))
    (hother : Twins locals W R other other') :
    Twins locals W R (withClosure r f other) (withClosure r g other') := by
  intro W' hW s t hst
  rw [withClosure_apply, withClosure_apply, ← Array.getElem?_toList, ← Array.getElem?_toList]
  obtain ⟨hc, hd⟩ | ⟨c, d, hc, hd, hcd⟩ := closures_cases hst.frame.closures r
  · rw [show s.heap.closures.toList[r]? = none from hc, show t.heap.closures.toList[r]? = none from hd]
    exact hother W' hW s t hst
  · rw [show s.heap.closures.toList[r]? = some c from hc,
      show t.heap.closures.toList[r]? = some d from hd]
    exact h W' c d hW hcd W' List.prefix_rfl s t hst

/-! ## Calls, loops and guarded blocks -/

theorem limiting (h : Twins locals W R x y) : Twins locals W R (limited x) (limited y) := by
  refine read (f := fun s => (s.maxDepth, s.depth))
    (g := fun c => if c.1 ≤ c.2 then MonadExcept.throw (.halt (.depthExceeded c.1)) else x)
    (k := fun c => if c.1 ≤ c.2 then MonadExcept.throw (.halt (.depthExceeded c.1)) else y)
    (fun _ _ => rfl) fun c => ?_
  split
  · exact throw (.refl _)
  · exact h

theorem tooDeep : Twins locals W R (Machine.tooDeep : Exec α) (Machine.tooDeep : Exec β) :=
  read (f := State.maxDepth) (g := fun depth => MonadExcept.throw (.halt (.depthExceeded depth)))
    (k := fun depth => MonadExcept.throw (.halt (.depthExceeded depth))) (fun _ _ => rfl)
    fun _ => throw (.refl _)

theorem deepening (h : Twins locals W R x y) : Twins locals W R (deeper x) (deeper y) := by
  have hdown : Framed (modify fun s : State => { s with depth := s.depth + 1 }) :=
    .change (fun _ _ => rfl) fun _ => rfl
  have hup : Framed (modify fun s : State => { s with depth := s.depth - 1 }) :=
    .change (fun _ _ => rfl) fun _ => rfl
  exact seq (framed hdown) fun _ => h.attempt.bind fun _ _ hr => seq (framed hup) fun _ => ofExcept hr

theorem forItems {body body' : Value → Exec Flow} (h : ∀ v, Twins locals W Eq (body v) (body' v))
    (items : List Value) : Twins locals W Eq (forItems body items) (forItems body' items) := by
  induction items with
  | nil => exact ret rfl
  | cons x xs ih =>
    rw [Machine.forItems, Machine.forItems]
    refine seq (h x) fun flow => ?_
    split
    · exact ret rfl
    · exact ih

theorem whileHolds {test test' : Exec Bool} {body body' : Exec Flow}
    (htest : Twins locals W Eq test test') (hbody : Twins locals W Eq body body') (turns : Nat) :
    Twins locals W Eq (whileHolds test body turns) (whileHolds test' body' turns) := by
  induction turns with
  | zero => exact exhaust
  | succ turns ih =>
    rw [Machine.whileHolds, Machine.whileHolds]
    refine seq htest fun holds => ?_
    split
    · refine seq hbody fun flow => ?_
      split
      · exact ret rfl
      · exact ih
    · exact ret rfl

theorem repeats {test test' : Exec Bool} {body body' : Exec Flow}
    (htest : Twins locals W Eq test test') (hbody : Twins locals W Eq body body') :
    Twins locals W Eq (repeating test body) (repeating test' body') :=
  read (f := State.fuel) (fun _ _ => rfl) fun fuel => whileHolds htest hbody (fuel + 1)

/-- What comes after a guarded block and its handlers. -/
theorem finishing {final final' : Option (Exec Flow)} (r r' : Except Signal Flow) (hr : Kept Eq r r') :
    Option.Rel (Twins locals W Eq) final final' → Twins locals W Eq
      (match final with
        | none => Exec.ofExcept r
        | some final => final >>= fun | .next => Exec.ofExcept r | exit => pure exit)
      (match final' with
        | none => Exec.ofExcept r'
        | some final' => final' >>= fun | .next => Exec.ofExcept r' | exit => pure exit) := by
  intro hfinal
  cases hfinal with
  | none => exact ofExcept hr
  | some hfinal =>
    refine seq hfinal fun flow => ?_
    cases flow with
    | next => exact ofExcept hr
    | _ => exact ret rfl

theorem guarding {body body' orelse orelse' : Exec Flow} {handle handle' : Exception → Exec Flow}
    {final final' : Option (Exec Flow)} (hbody : Twins locals W Eq body body')
    (horelse : Twins locals W Eq orelse orelse')
    (hhandle : ∀ e e', e.Like e' → Twins locals W Eq (handle e) (handle' e')) :
    Option.Rel (Twins locals W Eq) final final' →
      Twins locals W Eq (guarded body orelse handle final) (guarded body' orelse' handle' final') := by
  unfold guarded
  intro hfinal
  refine hbody.attempt.bind fun r r' hr => ?_
  cases hr with
  | ok h =>
    subst h
    rename_i flow
    cases flow with
    | next => exact horelse.attempt.bind fun r r' hr => finishing r r' hr hfinal
    | _ => exact bind (ret (.ok rfl)) fun r r' hr => finishing r r' hr hfinal
  | error h =>
    cases h with
    | raise he => exact (hhandle _ _ he).attempt.bind fun r r' hr => finishing r r' hr hfinal
    | halt h => exact bind (throw (.refl _)) fun r r' hr => finishing r r' hr hfinal

/-! ## Exceptions being handled -/

theorem handling {e e' : Exception} {x y : Exec Flow} (he : e.Like e') (h : Twins locals W Eq x y) :
    Twins locals W Eq (whileHandling e x) (whileHandling e' y) := by
  unfold whileHandling
  refine seq (reframe (f := fun F => { F with handling := e :: F.handling })
    (g := fun G => { G with handling := e' :: G.handling }) ?_) fun _ => h.attempt.bind ?_
  · exact fun W' F G _ hFG => { hFG with handling := .cons he hFG.handling }
  · intro r r' hr
    refine seq (reframe (f := fun F => { F with handling := F.handling.tail })
      (g := fun G => { G with handling := G.handling.tail }) ?_) fun _ => ofExcept hr
    intro W' F G _ hFG
    have hhandling := hFG.handling
    refine { hFG with handling := ?_ }
    dsimp only
    generalize F.handling = es, G.handling = fs at hhandling
    cases hhandling with
    | nil => exact .nil
    | cons _ h => exact h

/-- Raising again what is being handled. -/
theorem reraise : Twins locals W R
    (do match (← get).handling with
      | e :: _ => MonadExcept.throw (.raise e)
      | [] => MonadExcept.throw (.error .runtime "No active exception to reraise") : Exec α)
    (do match (← get).handling with
      | e :: _ => MonadExcept.throw (.raise e)
      | [] => MonadExcept.throw (.error .runtime "No active exception to reraise") : Exec β) := by
  intro W' hW s t hst
  refine ⟨W', List.prefix_rfl, ?_⟩
  have hhandling := hst.frame.handling
  show Ending.Twins locals W' R
    ((match s.handling with
      | e :: _ => MonadExcept.throw (.raise e)
      | [] => MonadExcept.throw (.error .runtime "No active exception to reraise") : Exec α) s)
    ((match t.handling with
      | e :: _ => MonadExcept.throw (.raise e)
      | [] => MonadExcept.throw (.error .runtime "No active exception to reraise") : Exec β) t)
  rw [show s.frame.handling = s.handling from rfl, show t.frame.handling = t.handling from rfl]
    at hhandling
  cases hs : s.handling <;> cases ht : t.handling <;> rw [hs, ht] at hhandling <;> cases hhandling
  · exact .error (.refl _) hst
  · exact .error (.raise ‹_›) hst

end Twins

end Concord.Machine
