import Concord.Proofs.Machine.Abreast
import Concord.Machine.Call
import Concord.Tree.Scope

/-!
# A loop and a comprehension in step

A loop runs at a position `env` and collects in a list of its own, which its accumulator names; a
comprehension goes through the same items in a scope inside `env`. `Turning` relates their states between
two steps: the comprehension has the loop's targets in its own scope, the loop has them where the names
are bound at `env`, and apart from these and the accumulator both have all variables as they were in the
state `s` where both began.
-/

namespace Concord.Machine

/-! ## States in which nothing dangles -/

/-- The value refers to no list from place `n` on. -/
def Value.Below (n : Nat) : Value → Prop
  | .list r => r < n
  | .method receiver _ => receiver.Below n
  | _ => True

theorem Value.Below.past_eq {n : Nat} {v : Value} (h : v.Below n) : v.past n = v := by
  induction v with
  | list r => exact congrArg Value.list (pastRef_of_lt h)
  | method v name ih => exact congrArg (Value.method · name) (ih h)
  | _ => rfl

/-- Every list that a value of the state refers to exists, and scopes stand inside older ones. -/
structure State.Whole (s : State) : Prop where
  nested : s.Nested s.scopes.size
  globals : ∀ m v, s.globals.get? m = some v → v.Below s.heap.lists.size
  scopes : ∀ (i : Nat) (a : Scope), s.scopes[i]? = some a →
    ∀ m v, a.vars.get? m = some v → v.Below s.heap.lists.size
  list : ∀ r, ∀ v ∈ s.heap.list r, v.Below s.heap.lists.size
  tuple : ∀ r, ∀ v ∈ s.heap.tuple r, v.Below s.heap.lists.size
  set : ∀ r, ∀ v ∈ s.heap.set r, v.Below s.heap.lists.size
  dict : ∀ r, ∀ e ∈ s.heap.dict r, e.1.Below s.heap.lists.size ∧ e.2.Below s.heap.lists.size

namespace State.Whole

variable {s : State} (h : s.Whole)
include h

theorem lookupLocal {f : Nat} {env : Env} {m : String} {v : Value}
    (hv : Exec.lookupLocal s.scopes m f env = some v) : v.Below s.heap.lists.size := by
  induction f generalizing env with
  | zero => cases hv
  | succ f ih =>
    cases env with
    | none => cases hv
    | some i =>
      rw [Exec.lookupLocal] at hv
      split at hv
      · cases hv
      · rename_i a ha
        split at hv
        · cases hv
        · rcases Option.or_eq_some_iff.mp hv with hv | ⟨-, hv⟩
          · exact h.scopes i a ha m v hv
          · exact ih hv

/-- What a name stands for is the same with one list more. -/
theorem past_found? {env : Env} {m : String} {v : Value} (hv : s.found? env m = some v) :
    v.past s.heap.lists.size = v := by
  rcases Option.or_eq_some_iff.mp hv with hv | ⟨-, hv⟩
  · exact (h.lookupLocal hv).past_eq
  · rcases Option.or_eq_some_iff.mp hv with hv | ⟨-, hv⟩
    · exact (h.globals m v hv).past_eq
    · exact Value.past_of_predefined? _ _ hv

theorem map_past_found? (env : Env) (m : String) :
    (s.found? env m).map (·.past s.heap.lists.size) = s.found? env m := by
  cases hv : s.found? env m with
  | none => rfl
  | some v => exact congrArg some (h.past_found? hv)

omit h in
theorem map_past {items : List Value} (hitems : ∀ v ∈ items, v.Below s.heap.lists.size) :
    items.map (·.past s.heap.lists.size) = items :=
  (List.map_congr_left fun v hv => (hitems v hv).past_eq).trans (List.map_id' items)

/-- The heap with an empty list more at its end. -/
theorem withList : Heap.WithList s.heap.lists.size []
    { s.heap with lists := s.heap.lists.push [] } s.heap where
  room := Nat.le_refl _
  lists := Array.size_push _
  tuples := rfl
  sets := rfl
  dicts := rfl
  built := (Heap.getD_push _ _ _).trans (if_pos rfl)
  list r := by
    refine (Heap.getD_push _ _ _).trans ?_
    rw [map_past (h.list r)]
    by_cases hr : r < s.heap.lists.size
    · rw [pastRef_of_lt hr, if_neg (Nat.ne_of_lt hr)]
      rfl
    · have hout : s.heap.lists.size ≤ r := Nat.le_of_not_lt hr
      have hnone {q : Nat} (hq : s.heap.lists.size ≤ q) : s.heap.lists[q]?.getD [] = [] := by
        rw [Array.getElem?_eq_none hq]
        rfl
      rw [pastRef_of_le hout, if_neg (Nat.ne_of_gt (Nat.lt_succ_of_le hout)),
        hnone (Nat.le_succ_of_le hout)]
      exact (hnone hout).symm
  tuple r := (map_past (h.tuple r)).symm
  set r := (map_past (h.set r)).symm
  dict r := by
    refine (List.map_id' _).symm.trans (List.map_congr_left fun e he => ?_)
    exact (Prod.ext ((h.dict r e he).1.past_eq) ((h.dict r e he).2.past_eq)).symm

end State.Whole

/-! ## Targets of names -/

/-- A name, a tuple or a list. -/
def Expr.isTargetPart : Expr → Bool
  | .name _ | .tuple _ | .list _ => true
  | _ => false

/-- Nothing but names, and tuples and lists of them. -/
def OfNames (es : List Expr) : Prop := ∀ e ∈ es, Expr.isTargetPart e

instance (es : List Expr) : Decidable (OfNames es) :=
  inferInstanceAs (Decidable (∀ e ∈ es, Expr.isTargetPart e))

/-! ## The beginnings -/

namespace State

/-- The state of a loop that has bound its accumulator to an empty list. -/
def collecting (s : State) (env : Env) (acc : String) (fuel : Nat) : State :=
  { s with fuel := fuel, heap := { s.heap with lists := s.heap.lists.push [] } }.write
    (s.place env acc) acc (.list s.heap.lists.size)

/-- The state of a comprehension that has made its scope. -/
def inside (s : State) (env : Env) (fuel : Nat) : State :=
  { s with fuel := fuel, scopes := s.scopes.push { parent := env } }

variable {s : State} {env : Env} {acc m : String} {fuel : Nat}

theorem size_collecting : (s.collecting env acc fuel).scopes.size = s.scopes.size :=
  size_write _ _ _ _

theorem keeps_withList : s.Keeps s.scopes.size m
    { s with fuel := fuel, heap := { s.heap with lists := s.heap.lists.push [] } } :=
  .of_eq (Nat.le_refl _) rfl rfl

theorem keeps_collecting (hm : m ≠ acc) : s.Keeps s.scopes.size m (s.collecting env acc fuel) :=
  keeps_withList.trans (keeps_write_of_ne (Nat.le_refl _) hm.symm)

theorem write_keeps_collecting : (s.write (s.place env acc) acc (.list s.heap.lists.size)).Keeps
    s.scopes.size acc (s.collecting env acc fuel) :=
  keeps_withList.write _ _

theorem keeps_inside : s.Keeps s.scopes.size m (s.inside env fuel) :=
  (keeps_pushScope (Nat.le_refl _) { parent := env }).trans (.of_eq (by simp) rfl rfl)

end State

/-! ## The relation -/

variable {s S T S' T' : State} {env : Env} {acc : String} {targets : List String}
  {built : List Value} {c d : Nat}

/-- The state of the loop and that of the comprehension between two steps, where both began at `s`. The
loop has collected `built`. -/
structure Turning (s : State) (env : Env) (acc : String) (targets : List String)
    (built : List Value) (S T : State) : Prop where
  states : Abreast s.heap.lists.size built s.scopes.size env S T s.scopes.size S T
  ground : Ground s.heap.lists.size s.scopes.size env acc S T
  kept : ∀ m, m ≠ acc → m ∉ targets → s.Keeps s.scopes.size m S
  rebound : ∀ m, m = acc ∨ m ∈ targets → s.Rebinds env m S
  same : ∀ m, s.Keeps s.scopes.size m T
  accumulator : (s.write (s.place env acc) acc (.list s.heap.lists.size)).Keeps s.scopes.size acc S
  inner : ∃ b, T.scopes[s.scopes.size]? = some b ∧ b.globals = [] ∧ b.nonlocals = []

namespace State

theorem Keeps.nested {k : Nat} {s t : State} (h : ∀ m, s.Keeps k m t) (hs : s.Nested k) :
    t.Nested k := by
  intro i hi b hb
  obtain ⟨a, b', ha, hb', hview⟩ := (h "").scope hi
  rw [hb] at hb'
  cases hb'
  rw [show b.parent = a.parent from congrArg Prod.fst hview]
  exact hs i hi a ha

end State

namespace Turning

theorem nested (h : Turning s env acc targets built S T) : s.Nested s.scopes.size :=
  State.Keeps.nested (fun m => (h.same m).symm) fun i hi => h.ground.right i (Nat.lt_succ_of_lt hi)

/-- A scope without variables shows what is around it. -/
theorem found?_inner {k : Nat} (hlast : T.scopes[k]? = some { parent := env }) {m : String}
    (h : s.Keeps k m T) (hs : s.Nested k) (henv : Env.Below k env) :
    T.found? (some k) m = s.found? env m := by
  have hparent := h.lookupLocal_eq hs henv (h.within_left henv) (henv.mono h.right)
  rw [State.found?, Exec.lookupLocal, hlast]
  dsimp only
  rw [hparent, h.globals]
  rfl

/-- What holds where both begin. -/
theorem start (hs : s.Whole) (henv : Env.Below s.scopes.size env) {u w : Nat} (hle : u ≤ w) :
    Turning s env acc targets [] (s.collecting env acc u) (s.inside env w) := by
  have hlast : (s.inside env w).scopes[s.scopes.size]? = some { parent := env } := by
    simp [State.inside]
  have hsize : (s.collecting env acc u).scopes.size = s.scopes.size := State.size_collecting
  constructor
  case states =>
    have hsize' : (s.inside env w).scopes.size = s.scopes.size + 1 := Array.size_push _
    refine ⟨?_, ?_, fun m => .refl hsize.ge, fun m => .refl hsize'.ge, ?_, hsize.ge, fun i hi his => ?_⟩
    · rw [State.collecting, State.fuel_write]
      exact hle
    · rw [State.collecting, State.heap_write]
      exact hs.withList
    · rw [hsize, hsize']
    · exact absurd (hsize ▸ his) (Nat.not_lt_of_le hi)
  case ground =>
    refine ⟨(State.Keeps.nested (fun m => State.keeps_withList) hs.nested).write _ _ _,
      fun i hi a ha => ?_, henv,
      fun m hm => ?_⟩
    · rw [State.inside, Array.getElem?_push] at ha
      split at ha
      · rename_i he
        cases ha
        exact he ▸ henv
      · exact hs.nested i (by omega) a ha
    · rw [(State.keeps_collecting hm).found?_eq hs.nested henv,
        found?_inner hlast State.keeps_inside hs.nested henv, hs.map_past_found?]
  case kept => exact fun m hm _ => State.keeps_collecting hm
  case rebound =>
    rintro m -
    by_cases hm : m = acc
    · subst hm
      exact .inr ⟨_, State.write_keeps_collecting⟩
    · exact .inl (State.keeps_collecting hm)
  case same => exact fun m => State.keeps_inside
  case accumulator => exact State.write_keeps_collecting
  case inner => exact ⟨_, hlast, rfl, rfl⟩

/-- What keeps the states abreast keeps the runs in step. -/
theorem after {built' : List Value} (h : Turning s env acc targets built S T)
    (h' : Abreast s.heap.lists.size built' s.scopes.size env S T d S' T') :
    Turning s env acc targets built' S' T' := by
  have hk : s.scopes.size ≤ S'.scopes.size := (h'.left acc).right
  have hright (m : String) : T'.Keeps (s.scopes.size + 1) m T' := .refl (h'.right m).right
  refine ⟨{ h' with left := fun m => .refl hk, right := hright, deep := hk },
    ⟨State.Keeps.nested h'.left h.ground.left, State.Keeps.nested h'.right h.ground.right,
      h.ground.within, fun m hm => ?_⟩,
    fun m hacc hm => (h.kept m hacc hm).trans (h'.left m),
    fun m hm => (h.rebound m hm).trans (h'.left m),
    fun m => (h.same m).trans ((h'.right m).mono (Nat.le_succ _)),
    h.accumulator.trans (h'.left acc), ?_⟩
  · rw [(h'.left m).found?_eq h.ground.left h.ground.within,
      (h'.right m).found?_eq h.ground.right (Nat.lt_succ_self _)]
    exact h.ground.sees m hm
  · obtain ⟨b, hb, hglobals, hnonlocals⟩ := h.inner
    obtain ⟨b₁, b₂, hb₁, hb₂, hview⟩ := (h'.right acc).scope (Nat.lt_succ_self _)
    rw [hb] at hb₁
    cases hb₁
    simp only [Scope.view, Prod.mk.injEq] at hview
    exact ⟨b₂, hb₂, hview.2.1.trans hglobals, hview.2.2.1.trans hnonlocals⟩

theorem work {built' : List Value} {h g : Heap} {u w : Nat}
    (hst : Turning s env acc targets built S T)
    (H : h.WithList s.heap.lists.size built' g) (hle : u ≤ w) :
    Turning s env acc targets built' { S with heap := h, fuel := u } { T with heap := g, fuel := w } :=
  hst.after (hst.states.work H hle)

/-- The states between two steps, as a pace. -/
def pace (s : State) (env : Env) (acc : String) (targets : List String) (built : List Value) :
    Pace s.heap.lists.size built where
  Rel := Turning s env acc targets built
  fuel h := h.states.fuel
  heap h := h.states.heap
  work := work

variable {α β : Type} {f : β → α} {y : Exec α} {x : Exec β}

/-- Steps that keep the states abreast keep the runs in step. -/
theorem step (h : ∀ S T, Turning s env acc targets built S T →
      (Abreast.pace s.heap.lists.size built s.scopes.size env S T s.scopes.size).Step c d f y x) :
    (pace s env acc targets built).Step c d f y x := by
  intro S T hst hroom a S' hy
  obtain ⟨b, T', hx, hab, hst', hroom'⟩ := h S T hst S T hst.states hroom a S' hy
  exact ⟨b, T', hx, hab, hst.after hst', hroom'⟩

/-- A calm expression in the loop and in the comprehension. -/
theorem evalBoth {call : Call} {e : Expr} (h : Calm acc e.subterms) :
    (pace s env acc targets built).Step c c (·.past s.heap.lists.size) (eval call env e)
      (eval call (some s.scopes.size) e) :=
  step fun _ _ hst => Pace.eval call hst.ground (Nat.le_refl _) .base e h

/-! ## Targets -/

/-- Binding a target of the loop, in the scope of the comprehension and where the loop binds it. -/
theorem write (henv : Env.Below s.scopes.size env) (h : Turning s env acc targets built S T)
    {m : String} (hm : m ∈ targets) (hacc : m ≠ acc) (hanswers : s.Answers env m) (v : Value) :
    Turning s env acc targets built (S.write (s.place env m) m (v.past s.heap.lists.size))
      (T.write (some s.scopes.size) m v) := by
  have hk : s.scopes.size ≤ S.scopes.size := (h.states.left m).right
  have hk' : s.scopes.size + 1 ≤ T.scopes.size := (h.states.right m).right
  have hplace : Env.Below s.scopes.size (s.place env m) := State.within_place henv
  have hleft {m' : String} (hm' : m' ≠ m) : S.Keeps s.scopes.size m'
      (S.write (s.place env m) m (v.past s.heap.lists.size)) :=
    State.keeps_write_of_ne hk hm'.symm
  have hright {m' : String} (hm' : m' ≠ m) :
      T.Keeps (s.scopes.size + 1) m' (T.write (some s.scopes.size) m v) :=
    State.keeps_write_of_ne hk' hm'.symm
  have hrebound := (h.rebound m (.inr hm)).write (v.past s.heap.lists.size)
  obtain ⟨b, hb, hglobals, hnonlocals⟩ := h.inner
  constructor
  case states =>
    have hsize := State.size_write S (s.place env m) m (v.past s.heap.lists.size)
    have hsize' := State.size_write T (some s.scopes.size) m v
    refine ⟨?_, ?_, fun m => .refl (hsize.symm ▸ hk), fun m => .refl (hsize'.symm ▸ hk'), ?_, ?_,
      fun i hi his => ?_⟩
    · rw [State.fuel_write, State.fuel_write]
      exact h.states.fuel
    · rw [State.heap_write, State.heap_write]
      exact h.states.heap
    · rw [hsize, hsize', h.states.size]
    · rw [hsize]
      exact h.states.deep
    · rw [State.size_write] at his
      obtain ⟨a, b, ha, hb, hab⟩ := h.states.scopes i hi his
      have hp : s.place env m ≠ some i := fun hp => by
        rw [hp] at hplace
        exact absurd hplace (Nat.not_lt_of_le hi)
      have hq : (some s.scopes.size : Env) ≠ some (i + 1) := fun hq =>
        absurd (Option.some.inj hq) (Nat.ne_of_lt (Nat.lt_succ_of_le hi))
      refine ⟨a, b, ?_, ?_, hab⟩
      · rw [State.scopes_write, ha, Option.map_some, if_neg hp]
      · rw [State.scopes_write, hb, Option.map_some, if_neg hq]
  case ground =>
    refine ⟨h.ground.left.write _ m _, h.ground.right.write _ m _, henv, fun m' hm' => ?_⟩
    by_cases hne : m' = m
    · subst hne
      rw [hrebound.found?_eq (h.nested.write _ _ _) henv, hanswers,
        State.found?_own hb (hglobals ▸ List.not_mem_nil)]
      rfl
    · rw [(hleft hne).found?_eq h.ground.left henv,
        (hright hne).found?_eq h.ground.right (Nat.lt_succ_self _)]
      exact h.ground.sees m' hm'
  case kept =>
    exact fun m' hacc' hm' => (h.kept m' hacc' hm').trans (hleft fun he => hm' (he ▸ hm))
  case rebound =>
    intro m' hm'
    by_cases hne : m' = m
    · subst hne
      exact .inr ⟨_, hrebound⟩
    · exact (h.rebound m' hm').trans (hleft hne)
  case same =>
    exact fun m' => (h.same m').trans
      (State.keeps_write_of_le (Nat.le_of_succ_le hk') (Nat.le_refl _))
  case accumulator => exact h.accumulator.trans (hleft hacc.symm)
  case inner =>
    refine ⟨{ b with vars := b.vars.set m v }, ?_, hglobals, hnonlocals⟩
    rw [State.scopes_write, hb, Option.map_some, if_pos rfl]

theorem bind (henv : Env.Below s.scopes.size env) (htargets : ∀ m ∈ targets, m ≠ acc ∧ s.Answers env m)
    {m : String} (hm : m ∈ targets) (v : Value) :
    (pace s env acc targets built).Step c c id (Exec.bind env m (v.past s.heap.lists.size))
      (Exec.bind (some s.scopes.size) m v) := by
  intro S T hst hroom u S' hy
  obtain ⟨b, hb, hglobals, hnonlocals⟩ := hst.inner
  have hplace : T.place (some s.scopes.size) m = some s.scopes.size := by
    simp [State.place, hb, hglobals, hnonlocals]
  rw [State.bind_eq_write, (hst.rebound m (.inr hm)).place_eq hst.nested henv] at hy
  cases hy
  rw [State.bind_eq_write, hplace]
  refine ⟨(), _, rfl, rfl, hst.write henv hm (htargets m hm).1 (htargets m hm).2 v, ?_⟩
  unfold State.Room at hroom ⊢
  rwa [State.heap_write, State.fuel_write]

section

variable (call : Call)

mutual

theorem assign (henv : Env.Below s.scopes.size env)
    (htargets : ∀ m ∈ targets, m ≠ acc ∧ s.Answers env m) :
    (t : Expr) → OfNames t.subterms → t.targetNames ⊆ targets → (v : Value) →
    (pace s env acc targets built).Step c c id (assign call env t (v.past s.heap.lists.size))
      (assign call (some s.scopes.size) t v)
  | .name m, _, hsub, v => by
    rw [Machine.assign, Machine.assign]
    exact bind henv htargets (hsub (by simp [Expr.targetNames])) v
  | .tuple ts, hof, hsub, v | .list ts, hof, hsub, v => by
    rw [Machine.assign, Machine.assign]
    exact (Pace.unpack ts v).bind fun vs =>
      assignAll henv htargets ts (List.forall_mem_cons.mp hof).2 hsub vs
  | .int _, hof, _, _ | .float _, hof, _, _ | .str _, hof, _, _ | .bool _, hof, _, _ | .none, hof, _, _
  | .bin _ _ _, hof, _, _ | .unary _ _, hof, _, _ | .logic _ _ _, hof, _, _ | .compare _ _, hof, _, _
  | .call _ _, hof, _, _ | .attribute _ _, hof, _, _ | .subscript _ _, hof, _, _
  | .slice _ _ _, hof, _, _ | .set _, hof, _, _ | .dict _, hof, _, _ | .comp _ _ _ _, hof, _, _
  | .ifExp _ _ _, hof, _, _ | .lambda _ _, hof, _, _ | .starred _, hof, _, _
  | .verbatim _, hof, _, _ => absurd (List.forall_mem_cons.mp hof).1 (by simp [Expr.isTargetPart])
termination_by structural x => x

theorem assignAll (henv : Env.Below s.scopes.size env)
    (htargets : ∀ m ∈ targets, m ≠ acc ∧ s.Answers env m) :
    (ts : List Expr) → OfNames (Expr.subtermsList ts) →
    Expr.targetNamesList ts ⊆ targets → (vs : List Value) →
    (pace s env acc targets built).Step c c id
      (assignAll call env ts (vs.map (·.past s.heap.lists.size)))
      (assignAll call (some s.scopes.size) ts vs)
  | t :: ts, hof, hsub, v :: vs => by
    rw [List.map_cons, Machine.assignAll, Machine.assignAll]
    have hof := List.forall_mem_append.mp hof
    have hsub := List.append_subset.mp hsub
    exact (assign henv htargets t hof.1 hsub.1 v).bind fun _ =>
      assignAll henv htargets ts hof.2 hsub.2 vs
  | _ :: _, _, _, [] | [], _, _, _ => by
    rw [Machine.assignAll, Machine.assignAll]
    · exact Pace.ret rfl
    all_goals simp
termination_by structural x => x

end

end

/-! ## Collecting -/

/-- An element that the comprehension produced, as the loop has it. -/
def collected (n : Nat) (p : Value × Option Value) : Value := p.1.past n

/-- What the loop gets done, the comprehension gets done too; where this ends with `b`, the loop has
collected `g b`. -/
def Gathers (s : State) (env : Env) (acc : String) (targets : List String) (c d : Nat) (f : β → α)
    (g : β → List Value) (y : Exec α) (x : Exec β) : Prop :=
  ∀ built S T, Turning s env acc targets built S T → S.Room c → ∀ a S', y S = .ok a S' →
    ∃ b T', x T = .ok b T' ∧ a = f b ∧ Turning s env acc targets (built ++ g b) S' T' ∧ S'.Room d

namespace Gathers

variable {γ δ : Type} {f' : δ → γ} {g : δ → List Value} {e : Nat} {y' : Exec γ} {x' : Exec δ}

/-- Go on after steps that collect nothing. -/
theorem after {k : α → Exec γ} {l : β → Exec δ}
    (h : ∀ built, (pace s env acc targets built).Step c d f y x)
    (hk : ∀ b, Gathers s env acc targets d e f' g (k (f b)) (l b)) :
    Gathers s env acc targets c e f' g (y >>= k) (x >>= l) := by
  intro built S T hst hroom a S₂ hrun
  rw [Exec.bind_apply] at hrun ⊢
  cases hy : y S with
  | error _ _ => rw [hy] at hrun; cases hrun
  | ok a₁ S₁ =>
    rw [hy] at hrun
    obtain ⟨b, T₁, hx, rfl, hst₁, hroom₁⟩ := h built S T hst hroom a₁ S₁ hy
    rw [hx]
    exact hk b built S₁ T₁ hst₁ hroom₁ a S₂ hrun

/-- Fuel that the loop alone spends. -/
theorem charged {k : Nat} (h : Gathers s env acc targets c d f' g y' x') :
    Gathers s env acc targets c d f' g (Exec.charge k >>= fun _ => y') x' := by
  intro built S T hst hroom a S' hrun
  obtain ⟨-, hrun⟩ := Exec.of_charge hrun
  refine h built _ T (hst.work hst.states.heap ?_) ?_ a S' hrun
  · exact Nat.le_trans (Nat.sub_le _ _) hst.states.fuel
  · unfold State.Room at hroom ⊢
    dsimp only
    omega

/-- The accumulator stands for the list that the loop collects in. -/
theorem lookup (henv : Env.Below s.scopes.size env) (hanswers : s.Answers env acc) {k : Value → Exec γ}
    (h : Gathers s env acc targets c d f' g (k (.list s.heap.lists.size)) x') :
    Gathers s env acc targets c d f' g (Exec.lookup env acc >>= k) x' := by
  intro built S T hst hroom a S' hrun
  have hfound : S.found? env acc = some (.list s.heap.lists.size) := by
    rw [hst.accumulator.found?_eq (hst.nested.write _ _ _) henv, hanswers]
  rw [Exec.bind_apply, State.lookup_of_found? hfound] at hrun
  exact h built S T hst hroom a S' hrun

/-- Adding an element to the list that the loop collects in. -/
theorem append {b : δ} {w : Value} (hw : g b = [w]) (r : γ) :
    Gathers s env acc targets c c (fun _ => r) g
      (do let items ← Exec.ofHeap (·.list s.heap.lists.size)
          Exec.setList s.heap.lists.size (items ++ [w])
          return r)
      (pure b) := by
  intro built S T hst hroom a S' hrun
  cases hrun
  refine ⟨b, T, rfl, rfl, ?_, ?_⟩
  · have hbuilt : S.heap.list s.heap.lists.size = built := hst.states.heap.built
    dsimp only
    rw [hbuilt, hw]
    exact hst.work (hst.states.heap.rebuild _) hst.states.fuel
  · unfold State.Room Heap.containers at hroom ⊢
    simpa using hroom

/-- Nothing is collected. -/
theorem nothing {b : δ} (hb : g b = []) (r : γ) :
    Gathers s env acc targets c c (fun _ => r) g (pure r) (pure b) := by
  intro built S T hst hroom a S' hrun
  cases hrun
  exact ⟨b, T, rfl, rfl, by simpa [hb] using hst, hroom⟩

/-- A result of the loop that does not depend on what was collected. -/
theorem ending {k : α → Exec γ} {f : β → α} {g : β → List Value} {y : Exec α} {x : Exec β} {r : γ}
    (h : Gathers s env acc targets c d f g y x) (hk : ∀ b, k (f b) = pure r) :
    Gathers s env acc targets c d (fun _ => r) g (y >>= k) x := by
  intro built S T hst hroom a S' hrun
  rw [Exec.bind_apply] at hrun
  cases hy : y S with
  | error _ _ => rw [hy] at hrun; cases hrun
  | ok a₁ S₁ =>
    rw [hy] at hrun
    obtain ⟨b, T₁, hx, rfl, hst₁, hroom₁⟩ := h built S T hst hroom a₁ S₁ hy
    dsimp only at hrun
    rw [hk b] at hrun
    cases hrun
    exact ⟨b, T₁, hx, rfl, hst₁, hroom₁⟩

/-- The same elements in another form. -/
theorem reshaped {g' : β → List Value} {h : β → δ} {r : γ}
    (H : Gathers s env acc targets c d (fun _ => r) g' y' x) (hg : ∀ b, g (h b) = g' b) :
    Gathers s env acc targets c d (fun _ => r) g y' (x >>= fun b => pure (h b)) := by
  intro built S T hst hroom a S' hrun
  obtain ⟨b, T', hx, ha, hst', hroom'⟩ := H built S T hst hroom a S' hrun
  rw [Exec.bind_apply, hx]
  exact ⟨h b, T', rfl, ha, (hg b).symm ▸ hst', hroom'⟩

/-- The call that adds an element to a list. -/
theorem callAt_append (levels : Nat) (r : Ref) (w : Value) :
    callAt levels (.method (.list r) "append") [w] [] = (do
      Exec.charge 1
      let items ← Exec.ofHeap (·.list r)
      Exec.setList r (items ++ [w])
      return .none) := by
  cases levels <;> rfl

/-- The statement that adds an element to the accumulator. -/
theorem exec_append (call : Call) (element : Expr) :
    exec call env (.expr (.call (.attribute (.name acc) "append") [.positional element])) = (do
      Exec.charge 1
      Exec.charge 1
      Exec.charge 1
      Exec.charge 1
      let receiver ← Exec.lookup env acc
      let v ← eval call env element
      let _ ← call (.method receiver "append") [v] []
      return .next) := by
  simp only [Machine.exec, Machine.eval, Machine.evalArgs, bind_assoc, pure_bind]

section

variable (levels : Nat) {element : Expr}

theorem appended (henv : Env.Below s.scopes.size env) (hanswers : s.Answers env acc)
    (hcalm : Calm acc element.subterms) :
    Gathers s env acc targets c c (fun _ => Flow.next) (List.map (collected s.heap.lists.size))
      (exec (callAt levels) env
        (.expr (.call (.attribute (.name acc) "append") [.positional element])))
      (do let key ← eval (callAt levels) (some s.scopes.size) element
          return [(key, none)]) := by
  rw [exec_append]
  refine charged (charged (charged (charged (lookup henv hanswers ?_))))
  refine after (fun built => evalBoth hcalm) fun v => ?_
  rw [callAt_append]
  simp only [bind_assoc, pure_bind]
  refine charged (append ?_ Flow.next)
  rfl

end

/-- Going through all items. -/
theorem items {body : Value → Exec Flow} {turn : Value → Exec (List δ)} {g : δ → Value}
    (h : ∀ v, Gathers s env acc targets c c (fun _ => Flow.next) (List.map g)
      (body (v.past s.heap.lists.size)) (turn v)) (vs : List Value) :
    Gathers s env acc targets c c (fun _ => none) (fun ps => ps.flatten.map g)
      (forItems body (vs.map (·.past s.heap.lists.size))) (vs.mapM turn) := by
  induction vs with
  | nil =>
    intro built S T hst hroom a S' hrun
    cases hrun
    exact ⟨[], T, rfl, rfl, by simpa using hst, hroom⟩
  | cons v vs ih =>
    intro built S T hst hroom a S₂ hrun
    rw [List.map_cons, forItems, Exec.bind_apply] at hrun
    rw [List.mapM_cons, Exec.bind_apply]
    cases hy : body (v.past s.heap.lists.size) S with
    | error _ _ => rw [hy] at hrun; cases hrun
    | ok flow S₁ =>
      rw [hy] at hrun
      obtain ⟨p, T₁, hx, rfl, hst₁, hroom₁⟩ := h v built S T hst hroom flow S₁ hy
      obtain ⟨ps, T₂, hxs, rfl, hst₂, hroom₂⟩ := ih _ S₁ T₁ hst₁ hroom₁ a S₂ hrun
      rw [hx]
      dsimp only
      rw [Exec.bind_apply, hxs]
      refine ⟨p :: ps, T₂, rfl, rfl, ?_, hroom₂⟩
      simpa [List.append_assoc] using hst₂

end Gathers

end Turning

end Concord.Machine
