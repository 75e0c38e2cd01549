import Concord.Proofs.Machine.Execution

/-!
# Runs with a larger budget

A run with more fuel, or with more room for nested calls, does what the run with less does, up to the
point where the smaller one stops for want of what it has less of. `Allowance.simulation` is the
simulation behind this. With fuel alone it covers every program, because a `finally` block that is
entered without fuel cannot take a step. With depth it covers the programs whose `try` statements are
sealed: elsewhere a `finally` block may replace a halt by an outcome of its own.
-/

namespace Concord.Machine

variable {α β : Type}

/-- The state with more fuel and more room for nested calls. -/
def State.grow (fuel depth : Nat) (s : State) : State :=
  { s with fuel := s.fuel + fuel, maxDepth := s.maxDepth + depth }

/-- All functions of the program are sealed. -/
def State.IsSealed (s : State) : Prop :=
  ∀ (r : Ref) (c : Closure), s.heap.closures[r]? = some c → c.code.isSealed = true

/-! ## Steps in a state -/

theorem Exec.charge_apply (n : Nat) (s : State) :
    Exec.charge n s = if s.fuel < n then .error (.halt .fuelExhausted) { s with fuel := 0 }
      else .ok () { s with fuel := s.fuel - n } := by
  show (if s.fuel < n then Exec.exhaust else modify fun s => { s with fuel := s.fuel - n } :
    Exec Unit) s = _
  split <;> rfl

theorem Exec.charge_bind {k : Nat} {x : Exec α} {s : State} (hfuel : k ≤ s.fuel) :
    (do Exec.charge k; x) s = x { s with fuel := s.fuel - k } := by
  rw [Exec.bind_apply, Exec.charge_apply, if_neg (Nat.not_lt_of_le hfuel)]

theorem Exec.of_charge {k : Nat} {x : Exec α} {a : α} {s t : State}
    (h : (do Exec.charge k; x) s = .ok a t) :
    k ≤ s.fuel ∧ x { s with fuel := s.fuel - k } = .ok a t := by
  by_cases hfuel : s.fuel < k
  · rw [Exec.bind_apply, Exec.charge_apply, if_pos hfuel] at h
    cases h
  · have hfuel := Nat.le_of_not_lt hfuel
    exact ⟨hfuel, (Exec.charge_bind hfuel).symm.trans h⟩

theorem limited_apply (x : Exec α) (s : State) :
    limited x s = if s.maxDepth ≤ s.depth then .error (.halt (.depthExceeded s.maxDepth)) s
      else x s := by
  show (if s.maxDepth ≤ s.depth then throw _ else x : Exec α) s = _
  split <;> rfl

theorem deeper_apply (x : Exec α) (s : State) :
    deeper x s = Ending.map (fun t => { t with depth := t.depth - 1 })
      (x { s with depth := s.depth + 1 }) := by
  unfold deeper
  rw [Exec.bind_apply]
  show (Exec.attempt x >>= _) _ = _
  rw [Exec.bind_apply, Exec.attempt]
  cases x { s with depth := s.depth + 1 } <;> rfl

theorem whileHandling_apply (e : Exception) (x : Exec Flow) (s : State) :
    whileHandling e x s = Ending.map (fun t => { t with handling := t.handling.tail })
      (x { s with handling := e :: s.handling }) := by
  unfold whileHandling
  rw [Exec.bind_apply]
  show (Exec.attempt x >>= _) _ = _
  rw [Exec.bind_apply, Exec.attempt]
  cases x { s with handling := e :: s.handling } <;> rfl

/-- What `finally` makes of an ending: it replaces the ending unless it just goes on. -/
def Ending.finish : Option (Exec Flow) → Ending Flow → Ending Flow
  | none, r => r
  | some final, r =>
    match final r.state with
    | .ok .next t => Ending.map (fun _ => t) r
    | r' => r'

/-- What comes after the guarded block and its handlers: a `finally` block runs, and an exit from it
replaces the outcome. -/
def closing (final : Option (Exec Flow)) (x : Exec Flow) : Exec Flow := do
  let outcome ← Exec.attempt x
  match final with
  | none => Exec.ofExcept outcome
  | some final =>
    match ← final with
    | .next => Exec.ofExcept outcome
    | exit => pure exit

theorem closing_apply (final : Option (Exec Flow)) (x : Exec Flow) (s : State) :
    closing final x s = Ending.finish final (x s) := by
  unfold closing
  rw [Exec.bind_apply, Exec.attempt]
  cases final with
  | none => cases x s <;> rfl
  | some final =>
    rw [Ending.finish]
    rcases x s with ⟨flow, t⟩ | ⟨e, t⟩
    · show (final >>= _) t = _
      rw [Exec.bind_apply, Ending.state]
      rcases final t with ⟨_ | _ | _ | _, u⟩ | ⟨e, u⟩ <;> rfl
    · show (final >>= _) t = _
      rw [Exec.bind_apply, Ending.state]
      rcases final t with ⟨_ | _ | _ | _, u⟩ | ⟨e, u⟩ <;> rfl

theorem guarded_apply (body orelse : Exec Flow) (handle : Exception → Exec Flow)
    (final : Option (Exec Flow)) (s : State) :
    guarded body orelse handle final s = match body s with
      | .ok .next t => Ending.finish final (orelse t)
      | .ok exit t => Ending.finish final (.ok exit t)
      | .error (.raise e) t => Ending.finish final (handle e t)
      | .error (.halt h) t => .error (.halt h) t := by
  unfold guarded
  rw [Exec.bind_apply, Exec.attempt]
  rcases body s with ⟨_ | _ | _ | _, t⟩ | ⟨_ | _, t⟩
  · exact closing_apply final orelse t
  · exact closing_apply final (pure _) t
  · exact closing_apply final (pure _) t
  · exact closing_apply final (pure _) t
  · exact closing_apply final (handle _) t
  · rfl

/-- What a run has more than another one, and with which halts the other one may part from it. -/
structure Allowance where
  fuel : Nat
  depth : Nat
  /-- Only sealed programs are compared. -/
  strict : Prop
  /-- A halt that ends the comparison, by the fuel left at that point. -/
  Stop : Halt → Nat → Prop
  spent : Stop .fuelExhausted 0
  deep : depth = 0 ∨ ∀ limit left, Stop (.depthExceeded limit) left
  /-- Where programs need not be sealed, a comparison only ends when all fuel is gone. -/
  lenient : strict ∨ ∀ h left, Stop h left → h = .fuelExhausted ∧ left = 0

namespace Allowance

variable (A : Allowance)

/-- The larger state. -/
abbrev grow (s : State) : State := s.grow A.fuel A.depth

/-- An ending at which the comparison ends. -/
def Stopped (r : Ending α) : Prop := ∃ h t, r = .error (.halt h) t ∧ A.Stop h t.fuel

/-- An ending with its counterpart in the larger run. -/
def Matches (r r' : Ending α) : Prop :=
  A.Stopped r ∨ (r' = r.map A.grow ∧ (A.strict → r.state.IsSealed))

/-- The step `y` does in a larger state what `x` does, unless `x` stops. -/
def Follows (x y : Exec α) : Prop :=
  ∀ s : State, (A.strict → s.IsSealed) → A.Matches (x s) (y (A.grow s))

variable {A}

theorem Matches.ok {a : α} {s : State} (h : A.strict → s.IsSealed) :
    A.Matches (.ok a s) (.ok a (A.grow s)) := .inr ⟨rfl, h⟩

theorem Matches.error {e : Signal} {s : State} (h : A.strict → s.IsSealed) :
    A.Matches (.error e s : Ending α) (.error e (A.grow s)) := .inr ⟨rfl, h⟩

theorem Matches.stop {h : Halt} {s : State} {r' : Ending α} (hs : A.Stop h s.fuel) :
    A.Matches (.error (.halt h) s) r' := .inl ⟨h, s, rfl, hs⟩

/-- The ways in which two endings match. -/
theorem Matches.elim {r r' : Ending α} (h : A.Matches r r') :
    (∃ a t, r = .ok a t ∧ r' = .ok a (A.grow t) ∧ (A.strict → t.IsSealed)) ∨
    (∃ e t, r = .error e t ∧ r' = .error e (A.grow t) ∧ (A.strict → t.IsSealed)) ∨
    (∃ h t, r = .error (.halt h) t ∧ A.Stop h t.fuel) := by
  obtain hstop | ⟨rfl, hs⟩ := h
  · exact .inr (.inr hstop)
  · cases r with
    | ok a t => exact .inl ⟨a, t, rfl, rfl, hs⟩
    | error e t => exact .inr (.inl ⟨e, t, rfl, rfl, hs⟩)

/-- Matching endings match after a change of the state that does not touch what they are compared
by. -/
theorem Matches.map {r r' : Ending α} (h : A.Matches r r') {f : State → State}
    (hgrow : ∀ t, f (A.grow t) = A.grow (f t)) (hfuel : ∀ t, (f t).fuel = t.fuel)
    (hseal : ∀ t, t.IsSealed → (f t).IsSealed) : A.Matches (Ending.map f r) (Ending.map f r') := by
  obtain ⟨a, t, rfl, rfl, ht⟩ | ⟨e, t, rfl, rfl, ht⟩ | ⟨h, t, rfl, hstop⟩ := h.elim
  · rw [Ending.map, Ending.map, hgrow]
    exact .ok fun hstrict => hseal t (ht hstrict)
  · rw [Ending.map, Ending.map, hgrow]
    exact .error fun hstrict => hseal t (ht hstrict)
  · exact .stop (by rwa [hfuel])

theorem follows_bind {x y : Exec α} {f g : α → Exec β} (hxy : A.Follows x y)
    (hfg : ∀ a, A.Follows (f a) (g a)) : A.Follows (x >>= f) (y >>= g) := by
  intro s hs
  rw [Exec.bind_apply, Exec.bind_apply]
  obtain ⟨a, t, hx, hy, ht⟩ | ⟨e, t, hx, hy, ht⟩ | ⟨h, t, hx, hstop⟩ := (hxy s hs).elim
  · rw [hx, hy]
    exact hfg a t ht
  · rw [hx, hy]
    exact .error ht
  · rw [hx]
    exact .stop hstop

/-- A step that leaves the clock alone ends in the larger clock where it ends in the larger state. -/
theorem withClock_grow {s t : State} (h : t.clock = s.clock) :
    t.withClock (A.grow s).clock = A.grow t := by
  obtain ⟨hfuel, hmax, hdepth⟩ := Clock.mk.inj h
  unfold State.withClock grow State.grow State.clock
  rw [hfuel, hmax, hdepth]

theorem follows_quiet {x : Exec α} (h : Quiet x) : A.Follows x x := by
  intro s hs
  have hclock := h.clock s
  refine .inr ⟨?_, fun hstrict r c hc => ?_⟩
  · have hgrow : x (A.grow s) = Ending.map (·.withClock (A.grow s).clock) (x s) :=
      h.clocked s (A.grow s).clock
    rw [hgrow]
    cases hx : x s with
    | ok a t =>
      rw [hx] at hclock
      exact congrArg (EStateM.Result.ok a) (withClock_grow hclock)
    | error e t =>
      rw [hx] at hclock
      exact congrArg (EStateM.Result.error e) (withClock_grow hclock)
  · rw [h.closures s] at hc
    exact hs hstrict r c hc

theorem follows_exhaust : A.Follows (Exec.exhaust : Exec α) Exec.exhaust :=
  fun _ _ => .stop A.spent

theorem follows_charge (n : Nat) : A.Follows (Exec.charge n) (Exec.charge n) := by
  intro s hs
  rw [Exec.charge_apply, Exec.charge_apply]
  by_cases hn : s.fuel < n
  · rw [if_pos hn]
    exact .stop A.spent
  · -- What the smaller run can pay, the larger one can pay too.
    have hmore : ¬ (A.grow s).fuel < n := fun h => hn (Nat.lt_of_le_of_lt (Nat.le_add_right _ _) h)
    rw [if_neg hn, if_neg hmore]
    refine .inr ⟨?_, hs⟩
    have hfuel : s.fuel + A.fuel - n = s.fuel - n + A.fuel := by omega
    simp only [grow, State.grow, Ending.map, hfuel]

theorem follows_newClosure (c : Closure) (hc : A.strict → c.code.isSealed = true) :
    A.Follows (Exec.newClosure c) (Exec.newClosure c) := by
  refine fun s hs => .ok fun hstrict r c' hr => ?_
  rw [Array.getElem?_push] at hr
  split at hr
  · cases hr
    exact hc hstrict
  · exact hs hstrict r c' hr

theorem follows_withClosure (r : Ref) {f g : Closure → Exec α} {other : Exec α}
    (hfg : ∀ c, (A.strict → c.code.isSealed = true) → A.Follows (f c) (g c)) (ho : Quiet other) :
    A.Follows (withClosure r f other) (withClosure r g other) := by
  intro s hs
  rw [withClosure_apply, withClosure_apply, show (A.grow s).heap = s.heap from rfl]
  cases hr : s.heap.closures[r]? with
  | none => exact follows_quiet ho s hs
  | some c => exact hfg c (fun hstrict => hs hstrict r c hr) s hs

theorem follows_limited {x y : Exec α} (h : A.Follows x y) : A.Follows (limited x) (limited y) := by
  intro s hs
  rw [limited_apply, limited_apply]
  by_cases hdepth : s.maxDepth ≤ s.depth
  · rw [if_pos hdepth]
    -- Either both runs are bound alike, or such a halt ends the comparison.
    obtain hsame | hstop := A.deep
    · have hgrow : (A.grow s).maxDepth = s.maxDepth := by
        simp only [grow, State.grow, hsame, Nat.add_zero]
      have hless : (A.grow s).maxDepth ≤ (A.grow s).depth := hgrow ▸ hdepth
      rw [if_pos hless, hgrow]
      exact .error hs
    · exact .stop (hstop _ _)
  · have hmore : ¬ (A.grow s).maxDepth ≤ (A.grow s).depth :=
      fun h => hdepth (Nat.le_trans (Nat.le_add_right _ _) h)
    rw [if_neg hdepth, if_neg hmore]
    exact h s hs

theorem follows_deeper {x y : Exec α} (h : A.Follows x y) : A.Follows (deeper x) (deeper y) := by
  intro s hs
  rw [deeper_apply, deeper_apply]
  exact (h { s with depth := s.depth + 1 } hs).map (fun _ => rfl) (fun _ => rfl) fun _ => id

theorem follows_whileHandling (e : Exception) {x y : Exec Flow} (h : A.Follows x y) :
    A.Follows (whileHandling e x) (whileHandling e y) := by
  intro s hs
  rw [whileHandling_apply, whileHandling_apply]
  exact (h { s with handling := e :: s.handling } hs).map (fun _ => rfl) (fun _ => rfl) fun _ => id

theorem follows_whileHolds {test test' : Exec Bool} {body body' : Exec Flow}
    (htest : A.Follows test test') (hbody : A.Follows body body') (turns : Nat) :
    A.Follows (whileHolds test body turns) (whileHolds test' body' (turns + A.fuel)) := by
  induction turns with
  | zero => exact fun _ _ => .stop A.spent
  | succ turns ih =>
    rw [Nat.succ_add, whileHolds, whileHolds]
    refine follows_bind htest fun holds => ?_
    split
    · refine follows_bind hbody fun flow => ?_
      split
      · exact follows_quiet (.ret _)
      · exact ih
    · exact follows_quiet (.ret _)

theorem follows_repeating {test test' : Exec Bool} {body body' : Exec Flow}
    (htest : A.Follows test test') (hbody : A.Follows body body') :
    A.Follows (repeating test body) (repeating test' body') := by
  intro s hs
  -- The turns of a loop come from the fuel, so the larger run has as many more of them.
  have hturns : (A.grow s).fuel + 1 = s.fuel + 1 + A.fuel := Nat.add_right_comm ..
  show A.Matches (whileHolds test body (s.fuel + 1) s)
    (whileHolds test' body' ((A.grow s).fuel + 1) (A.grow s))
  rw [hturns]
  exact follows_whileHolds htest hbody (s.fuel + 1) s hs

/-- What `finally` makes of matching endings matches, if it lets every stop through. -/
theorem Matches.finish {final final' : Exec Flow} (hfinal : A.Follows final final')
    {r r' : Ending Flow} (h : A.Matches r r')
    (hstop : A.Stopped r → A.Stopped (Ending.finish (some final) r)) :
    A.Matches (Ending.finish (some final) r) (Ending.finish (some final') r') := by
  obtain hr | ⟨rfl, hr⟩ := h
  · exact .inl (hstop hr)
  · have hstate : (Ending.map A.grow r).state = A.grow r.state := by cases r <;> rfl
    rw [Ending.finish, Ending.finish, hstate]
    obtain ⟨flow, t, hx, hy, ht⟩ | ⟨e, t, hx, hy, ht⟩ | ⟨h, t, hx, hs⟩ := (hfinal r.state hr).elim
    · rw [hx, hy]
      -- After `next` the old ending comes back, in the state that `finally` leaves.
      cases flow with
      | next => cases r <;> exact .inr ⟨rfl, ht⟩
      | _ => exact .ok ht
    · rw [hx, hy]
      exact .error ht
    · rw [hx]
      exact .stop hs

theorem follows_guarded {body body' orelse orelse' : Exec Flow}
    {handle handle' : Exception → Exec Flow} {final final' : Option (Exec Flow)}
    (hbody : A.Follows body body')
    (hfinish : ∀ r r' : Ending Flow,
      (∃ t, r = orelse t) ∨ (∃ e t, r = handle e t) ∨ (∃ flow t, r = .ok flow t) →
        A.Matches r r' → A.Matches (r.finish final) (r'.finish final'))
    (horelse : A.Follows orelse orelse') (hhandle : ∀ e, A.Follows (handle e) (handle' e)) :
    A.Follows (guarded body orelse handle final) (guarded body' orelse' handle' final') := by
  intro s hs
  rw [guarded_apply, guarded_apply]
  obtain ⟨flow, t, hx, hy, ht⟩ | ⟨e, t, hx, hy, ht⟩ | ⟨h, t, hx, hstop⟩ := (hbody s hs).elim
  · rw [hx, hy]
    cases flow with
    | next => exact hfinish _ _ (.inl ⟨t, rfl⟩) (horelse t ht)
    | _ => exact hfinish _ _ (.inr (.inr ⟨_, t, rfl⟩)) (.ok ht)
  · rw [hx, hy]
    cases e with
    | raise e => exact hfinish _ _ (.inr (.inl ⟨e, t, rfl⟩)) (hhandle e t ht)
    | halt h => exact .error ht
  · rw [hx]
    exact .stop hstop

/-- A `finally` block that has to pay lets a stop for want of fuel through. -/
theorem Stopped.finish_paid {final : Exec Flow} (hpaid : Paid final)
    (hlenient : ∀ h left, A.Stop h left → h = .fuelExhausted ∧ left = 0) {r : Ending Flow}
    (h : A.Stopped r) : A.Stopped (Ending.finish (some final) r) := by
  obtain ⟨h, t, rfl, hstop⟩ := h
  obtain ⟨rfl, hfuel⟩ := hlenient h t.fuel hstop
  obtain ⟨y, rfl⟩ := hpaid
  have hfinal : (Exec.charge 1 >>= fun _ => y) t =
      .error (.halt .fuelExhausted) { t with fuel := 0 } := by
    rw [Exec.bind_apply, Exec.charge_apply, if_pos (by omega)]
  refine ⟨.fuelExhausted, { t with fuel := 0 }, ?_, A.spent⟩
  rw [Ending.finish, Ending.state, hfinal]

theorem follows_finishing {body body' orelse orelse' final final' : Exec Flow}
    {handle handle' : Exception → Exec Flow} (hbody : A.Follows body body')
    (horelse : A.Follows orelse orelse') (hhandle : ∀ e, A.Follows (handle e) (handle' e))
    (hfinal : A.Follows final final') (hpaid : Paid final)
    (hsealed : A.strict → orelse = pure .next ∧ ∀ e, handle e = throw (.raise e)) :
    A.Follows (guarded body orelse handle (some final))
      (guarded body' orelse' handle' (some final')) := by
  refine follows_guarded hbody (fun r r' hr h => h.finish hfinal fun hstop => ?_) horelse hhandle
  obtain hstrict | hlenient := A.lenient
  · -- Between the guarded block and `finally` nothing runs that could stop.
    obtain ⟨rfl, hthrow⟩ := hsealed hstrict
    obtain ⟨h, u, hu, -⟩ := hstop
    obtain ⟨t, rfl⟩ | ⟨e, t, rfl⟩ | ⟨flow, t, rfl⟩ := hr
    · cases hu
    · rw [hthrow e] at hu
      cases hu
    · cases hu
  · exact hstop.finish_paid hpaid hlenient

variable (A) in
/-- Steps of a run with those of one with a larger budget. -/
def simulation : Simulation where
  Rel := A.Follows
  strict := A.strict
  quiet := follows_quiet
  bind := follows_bind
  charge := follows_charge
  exhaust := follows_exhaust
  newClosure := follows_newClosure
  onClosure := follows_withClosure
  limiting := follows_limited
  deepening := follows_deeper
  repeats htest hbody := follows_repeating (follows_bind (follows_charge 1) fun _ => htest) hbody
  handling := follows_whileHandling
  guarding hbody horelse hhandle :=
    follows_guarded hbody (fun _ _ _ h => h) horelse hhandle
  finishing := follows_finishing

/-- Calls in a run with those in the larger one, which has as many more levels as it has room. -/
theorem follows_callAt (levels : Nat) :
    A.simulation.Calls (callAt levels) (callAt (levels + A.depth)) := by
  refine A.simulation.callAt (fun y hy s hs => ?_) levels
  obtain hsame | hstop := A.deep
  · rw [hy hsame]
    have hmax : (A.grow s).maxDepth = s.maxDepth := by
      simp only [grow, State.grow, hsame, Nat.add_zero]
    show A.Matches (.error (.halt (.depthExceeded s.maxDepth)) s)
      (.error (.halt (.depthExceeded (A.grow s).maxDepth)) (A.grow s))
    rw [hmax]
    exact .error hs
  · exact .stop (hstop s.maxDepth s.fuel)

end Allowance

/-! ## Whole runs -/

/-- The state with all the fuel of a budget, before a call. -/
def State.refill (b : Budget) (s : State) : State := { s with fuel := b.fuel, depth := 0 }

/-- What the ending of a call says. -/
def Ending.result : Ending Value → Except Halt Outcome × State
  | .ok v t => (.ok (.returned v), t)
  | .error (.raise e) t => (.ok (.raised e), t)
  | .error (.halt h) t => (.error h, t)

theorem State.call_function {b : Budget} {name : String} {args : List Value} {s : State} {r : Ref}
    (h : s.globals.get? name = some (.function r)) :
    s.call b name args = Ending.result (callAt b.maxDepth (.function r) args [] (s.refill b)) := by
  unfold State.call
  rw [h]
  rfl

theorem State.call_missing {b : Budget} {name : String} {args : List Value} {s : State}
    (h : ¬ ∃ r, s.globals.get? name = some (.function r)) :
    s.call b name args = (.error (.missingFunction name), s) := by
  unfold State.call
  split
  · exact absurd ⟨_, ‹_›⟩ h
  · rfl

/-- Put arguments on the heap and call a function. The arguments come back with the outcome and the
final heap, which says what has become of them. -/
def State.invoke (b : Budget) (name : String) (place : Heap → List Value × Heap) (s : State) :
    Except Halt (Outcome × List Value × Heap) :=
  let (args, heap) := place s.heap
  let (outcome, t) := { s with heap }.call b name args
  outcome.map fun o => (o, args, t.heap)

/-- Load a module and call one of its functions. -/
def invoke (b : Budget) (m : Module) (name : String) (place : Heap → List Value × Heap) :
    Except Halt (Outcome × List Value × Heap) := do
  (← load b m).invoke b name place

namespace Allowance

variable (A : Allowance)

/-- The larger budget. -/
def budget (b : Budget) : Budget := ⟨b.fuel + A.fuel, b.maxDepth + A.depth⟩

/-- A halt that can end the comparison of two runs. -/
def Ends (h : Halt) : Prop := ∃ left, A.Stop h left

variable {A}

theorem load_budget {b : Budget} {m : Module} (hm : A.strict → Stmt.areSealed m.body = true) :
    (∃ h, load b m = .error h ∧ A.Ends h) ∨
    (∃ h, load b m = .error h ∧ load (A.budget b) m = .error h) ∨
    (∃ s, load b m = .ok s ∧ load (A.budget b) m = .ok (A.grow s) ∧ (A.strict → s.IsSealed)) := by
  have hinitial : A.strict → (State.initial b).IsSealed := fun _ r c hc => by
    cases hc
  have hrun := (follows_callAt b.maxDepth).execBlock none m.body hm (State.initial b) hinitial
  unfold load
  rw [show State.initial (A.budget b) = A.grow (State.initial b) from rfl,
    show (A.budget b).maxDepth = b.maxDepth + A.depth from rfl]
  obtain ⟨flow, s, hx, hy, hs⟩ | ⟨e, s, hx, hy, -⟩ | ⟨h, s, hx, hstop⟩ := hrun.elim
  · rw [hx, hy]
    exact .inr (.inr ⟨s, rfl, rfl, hs⟩)
  · rw [hx, hy]
    cases e <;> exact .inr (.inl ⟨_, rfl, rfl⟩)
  · rw [hx]
    exact .inl ⟨h, rfl, s.fuel, hstop⟩

theorem call_budget (b : Budget) {s : State} (hs : A.strict → s.IsSealed) (name : String)
    (args : List Value) :
    (∃ h, (s.call b name args).1 = .error h ∧ A.Ends h) ∨
    (A.grow s).call (A.budget b) name args =
      ((s.call b name args).1, A.grow (s.call b name args).2) := by
  by_cases hname : ∃ r, s.globals.get? name = some (.function r)
  · obtain ⟨r, hname⟩ := hname
    have hname' : (A.grow s).globals.get? name = some (.function r) := hname
    -- The call starts with the fuel of its budget, whatever loading has left.
    rw [State.call_function hname, State.call_function hname']
    have hrun : A.Matches (callAt b.maxDepth (.function r) args [] (s.refill b))
        (callAt (A.budget b).maxDepth (.function r) args [] ((A.grow s).refill (A.budget b))) :=
      follows_callAt b.maxDepth (.function r) args [] (s.refill b) hs
    obtain ⟨v, t, hx, hy, -⟩ | ⟨e, t, hx, hy, -⟩ | ⟨h, t, hx, hstop⟩ := hrun.elim
    · rw [hx, hy]
      exact .inr rfl
    · rw [hx, hy]
      cases e <;> exact .inr rfl
    · rw [hx]
      exact .inl ⟨h, rfl, t.fuel, hstop⟩
  · have hname' : ¬ ∃ r, (A.grow s).globals.get? name = some (.function r) := hname
    rw [State.call_missing hname, State.call_missing hname']
    exact .inr rfl

theorem invoke_budget (b : Budget) (m : Module) (hm : A.strict → Stmt.areSealed m.body = true)
    (name : String) (place : Heap → List Value × Heap)
    (hplace : A.strict → ∀ h, (place h).2.closures = h.closures) :
    (∃ h, invoke b m name place = .error h ∧ A.Ends h) ∨
    invoke (A.budget b) m name place = invoke b m name place := by
  unfold invoke
  obtain ⟨h, hload, hends⟩ | ⟨h, hload, hload'⟩ | ⟨s, hload, hload', hs⟩ := load_budget hm (b := b)
  · rw [hload]
    exact .inl ⟨h, rfl, hends⟩
  · rw [hload, hload']
    exact .inr rfl
  · rw [hload, hload']
    have hplaced : A.strict → { s with heap := (place s.heap).2 }.IsSealed := by
      intro hstrict r c hc
      rw [hplace hstrict s.heap] at hc
      exact hs hstrict r c hc
    show (∃ h, s.invoke b name place = .error h ∧ A.Ends h) ∨
      (A.grow s).invoke (A.budget b) name place = s.invoke b name place
    unfold State.invoke
    dsimp only
    obtain ⟨h, hcall, hends⟩ | hcall := call_budget b hplaced name (place s.heap).1
    · rw [hcall]
      exact .inl ⟨h, rfl, hends⟩
    · let report (p : Except Halt Outcome × State) := p.1.map fun o => (o, (place s.heap).1, p.2.heap)
      have hreport := congrArg report hcall
      exact .inr hreport

end Allowance

/-! ## More fuel -/

/-- More fuel alone. -/
def Allowance.ofFuel (extra : Nat) : Allowance where
  fuel := extra
  depth := 0
  strict := False
  Stop h left := h = .fuelExhausted ∧ left = 0
  spent := ⟨rfl, rfl⟩
  deep := .inl rfl
  lenient := .inr fun _ _ h => h

/-- A step follows itself. -/
theorem Allowance.Follows.refl (x : Exec α) : (Allowance.ofFuel 0).Follows x x := by
  intro s _
  refine .inr ⟨?_, nofun⟩
  show x s = Ending.map id (x s)
  cases x s <;> rfl

/-- A step that follows another one ends as that does, unless the other has used up its fuel. -/
theorem Allowance.Follows.ends {x y : Exec α} (h : (Allowance.ofFuel 0).Follows x y) (s : State) :
    (∃ t, x s = .error (.halt .fuelExhausted) t ∧ t.fuel = 0) ∨ y s = x s := by
  obtain ⟨_, t, hx, rfl, ht⟩ | ⟨hsame, -⟩ := h s nofun
  · exact .inl ⟨t, hx, ht⟩
  · refine .inr (hsame.trans ?_)
    cases x s <;> rfl

/-- A call that does not run out of fuel ends the same with more of it, and it leaves its arguments the
same. -/
theorem invoke_of_fuel_le {fuel fuel' : Nat} (hfuel : fuel ≤ fuel') (maxDepth : Nat) (m : Module)
    (name : String) (place : Heap → List Value × Heap)
    (h : invoke ⟨fuel, maxDepth⟩ m name place ≠ .error .fuelExhausted) :
    invoke ⟨fuel', maxDepth⟩ m name place = invoke ⟨fuel, maxDepth⟩ m name place := by
  obtain ⟨extra, rfl⟩ := Nat.exists_eq_add_of_le hfuel
  have hrun := Allowance.invoke_budget (A := .ofFuel extra) ⟨fuel, maxDepth⟩ m nofun name place nofun
  obtain ⟨_, hstop, _, rfl, -⟩ | hsame := hrun
  · exact absurd hstop h
  · exact hsame

/-- `def push(xs): xs.append(2); return len(xs)` answers with 14 units of fuel, so it gives the same
answer and the same list with 100. -/
theorem invoke_of_fuel_le_push :
    let m : Module := ⟨[.define ⟨"push", [⟨"xs", .regular, none, none⟩],
      [.expr (.call (.attribute (.name "xs") "append") [.positional (.int 2)]),
        .ret (some (.call (.name "len") [.positional (.name "xs")]))], [], none, false⟩]⟩
    let place (h : Heap) : List Value × Heap :=
      ([.list h.lists.size], { h with lists := h.lists.push [.int 1] })
    (invoke ⟨14, 1⟩ m "push" place).isOk = true ∧
      invoke ⟨100, 1⟩ m "push" place = invoke ⟨14, 1⟩ m "push" place := by
  intro m place
  have hok : (invoke ⟨14, 1⟩ m "push" place).isOk = true := by decide +kernel
  refine ⟨hok, invoke_of_fuel_le (by decide) 1 m "push" place fun h => ?_⟩
  rw [h] at hok
  cases hok

/-! ## More depth -/

/-- More room for nested calls alone. -/
def Allowance.ofDepth (extra : Nat) : Allowance where
  fuel := 0
  depth := extra
  strict := True
  Stop _ _ := True
  spent := trivial
  deep := .inr fun _ _ => trivial
  lenient := .inl trivial

/-- In a sealed module, an outcome that a call reaches does not depend on the bound on nested calls. -/
theorem invoke_of_maxDepth_le {maxDepth maxDepth' : Nat} (hdepth : maxDepth ≤ maxDepth') (fuel : Nat)
    {m : Module} (hm : Stmt.areSealed m.body = true) (name : String)
    {place : Heap → List Value × Heap} (hplace : ∀ h, (place h).2.closures = h.closures)
    {result : Outcome × List Value × Heap} (h : invoke ⟨fuel, maxDepth⟩ m name place = .ok result) :
    invoke ⟨fuel, maxDepth'⟩ m name place = .ok result := by
  obtain ⟨extra, rfl⟩ := Nat.exists_eq_add_of_le hdepth
  have hrun := Allowance.invoke_budget (A := .ofDepth extra) ⟨fuel, maxDepth⟩ m (fun _ => hm) name
    place fun _ => hplace
  obtain ⟨_, hstop, -⟩ | hsame := hrun
  · rw [h] at hstop
    cases hstop
  · exact hsame.trans h

/-- A handler that raises again, and a `finally` block around it: the outcome is there with room for
one call, so it is the same with room for 40. -/
theorem invoke_of_maxDepth_le_nested :
    let m : Module := ⟨[.define ⟨"f", [],
      [.tryBlock
        [.tryBlock [.raise (some (.name "ValueError")) none]
          [⟨some (.name "ValueError"), none, [.raise none none]⟩] [] []]
        [] [] [.ret (some (.int 3))]], [], none, false⟩]⟩
    let run (maxDepth : Nat) := invoke ⟨100, maxDepth⟩ m "f" fun h => ([], h)
    ∃ result, run 1 = .ok result ∧ run 40 = .ok result := by
  intro m run
  have hok : (run 1).isOk = true := by decide +kernel
  cases h : run 1 with
  | error e =>
    rw [h] at hok
    cases hok
  | ok result =>
    exact ⟨result, rfl, invoke_of_maxDepth_le (by decide) 100 (by decide) "f" (fun _ => rfl) h⟩

/-- With room for one call only, the handler cannot call `one`; the `finally` block returns all the
same, with what it finds. With room for two, it finds something else. -/
theorem invoke_halting_handler :
    let m : Module := ⟨[.define ⟨"one", [], [.ret (some (.int 1))], [], none, false⟩,
      .define ⟨"f", [],
        [.assign [.name "x"] (.int 0) none,
          .tryBlock [.raise (some (.name "ValueError")) none]
            [⟨some (.name "ValueError"), none,
              [.assign [.name "x"] (.call (.name "one") []) none]⟩]
            [] [.ret (some (.name "x"))]], [], none, false⟩]⟩
    let answer (b : Budget) :=
      (invoke b m "f" fun h => ([], h)).toOption.map fun r => r.1.text r.2.2
    answer ⟨100, 1⟩ = some "0" ∧ answer ⟨100, 2⟩ = some "1" := by
  intro m answer
  constructor
  · decide +kernel
  · decide +kernel

end Concord.Machine
