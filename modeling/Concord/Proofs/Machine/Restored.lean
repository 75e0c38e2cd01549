import Concord.Proofs.Machine.Budget

/-!
# What a run puts back

A call of a function goes one level deeper, and a handler puts the exception it handles on top of
those that are being handled already. Both are undone when the code in between has ended, and that
may be with a value, by an exception or by a halt. So every step leaves the level and the exceptions
being handled as it found them. What it has spent of the fuel is gone: nothing gives fuel back.

The steps of one run are treated as a simulation that does not look at its second run (`restoring`).

Main statement: `bookkeeping_restored`.
-/

namespace Concord.Machine

variable {α β : Type}

/-- The second state is on the level of the first one and handles the same exceptions, and it has no
more fuel. -/
structure State.Restored (s t : State) : Prop where
  depth_eq : t.depth = s.depth
  handling_eq : t.handling = s.handling
  fuel_le : t.fuel ≤ s.fuel

theorem State.Restored.refl (s : State) : s.Restored s := ⟨rfl, rfl, Nat.le_refl _⟩

theorem State.Restored.trans {s t u : State} (hst : s.Restored t) (htu : t.Restored u) :
    s.Restored u where
  depth_eq := htu.depth_eq.trans hst.depth_eq
  handling_eq := htu.handling_eq.trans hst.handling_eq
  fuel_le := Nat.le_trans htu.fuel_le hst.fuel_le

/-- However the step ends, it puts back what it changed on the way. -/
def Restores (x : Exec α) : Prop := ∀ s : State, s.Restored (Ending.state (x s))

/-! ## Single steps -/

namespace Restores

theorem bind {x : Exec α} {f : α → Exec β} (hx : Restores x) (hf : ∀ a, Restores (f a)) :
    Restores (x >>= f) := by
  intro s
  have hs := hx s
  rw [Exec.bind_apply]
  cases hxs : x s with
  | ok a t =>
    rw [hxs] at hs
    exact hs.trans (hf a t)
  | error e t =>
    rw [hxs] at hs
    exact hs

theorem quiet {x : Exec α} (h : Quiet x) : Restores x := by
  intro s
  obtain ⟨hfuel, -, hdepth⟩ := Clock.mk.inj (h.clock s)
  exact ⟨hdepth, h.handling s, Nat.le_of_eq hfuel⟩

theorem charge (n : Nat) : Restores (Exec.charge n) := by
  intro s
  rw [Exec.charge_apply]
  split
  · exact ⟨rfl, rfl, Nat.zero_le _⟩
  · exact ⟨rfl, rfl, Nat.sub_le _ _⟩

theorem exhaust : Restores (Exec.exhaust : Exec α) := fun _ => ⟨rfl, rfl, Nat.zero_le _⟩

theorem newClosure (c : Closure) : Restores (Exec.newClosure c) := fun _ => ⟨rfl, rfl, Nat.le_refl _⟩

theorem withClosure (r : Ref) {f : Closure → Exec α} {other : Exec α} (hf : ∀ c, Restores (f c))
    (hother : Quiet other) : Restores (withClosure r f other) := by
  intro s
  rw [withClosure_apply]
  cases s.heap.closures[r]? with
  | none => exact quiet hother s
  | some c => exact hf c s

theorem limited {x : Exec α} (h : Restores x) : Restores (limited x) := by
  intro s
  rw [limited_apply]
  split
  · exact .refl s
  · exact h s

theorem tooDeep : Restores (tooDeep : Exec α) := fun s => .refl s

/-! ## Changes that are undone -/

/-- The step runs one level deeper, and whatever it ends with, the level is left again. -/
theorem deeper {x : Exec α} (h : Restores x) : Restores (deeper x) := by
  intro s
  have hinside := h { s with depth := s.depth + 1 }
  rw [deeper_apply]
  cases hx : x { s with depth := s.depth + 1 } with
  | ok a t | error e t =>
    rw [hx] at hinside
    exact ⟨congrArg (· - 1) hinside.depth_eq, hinside.handling_eq, hinside.fuel_le⟩

/-- The step runs with one more exception being handled, and that one is taken away again. -/
theorem whileHandling (e : Exception) {x : Exec Flow} (h : Restores x) :
    Restores (whileHandling e x) := by
  intro s
  have hinside := h { s with handling := e :: s.handling }
  rw [whileHandling_apply]
  cases hx : x { s with handling := e :: s.handling } with
  | ok a t | error e t =>
    rw [hx] at hinside
    exact ⟨hinside.depth_eq, congrArg List.tail hinside.handling_eq, hinside.fuel_le⟩

/-! ## Loops and guarded blocks -/

theorem whileHolds {test : Exec Bool} {body : Exec Flow} (htest : Restores test)
    (hbody : Restores body) (turns : Nat) : Restores (whileHolds test body turns) := by
  induction turns with
  | zero => exact exhaust
  | succ turns ih =>
    rw [Machine.whileHolds]
    refine htest.bind fun holds => ?_
    split
    · refine hbody.bind fun flow => ?_
      split
      · exact quiet (.ret _)
      · exact ih
    · exact quiet (.ret _)

/-- What is put back when a block has ended still is after `finally`, which may replace the ending. -/
theorem finish {final : Exec Flow} (hfinal : Restores final) {s : State} {r : Ending Flow}
    (hr : s.Restored r.state) : s.Restored (r.finish (some final)).state := by
  have hafter := hr.trans (hfinal r.state)
  rw [Ending.finish]
  cases hx : final r.state with
  | ok flow t =>
    rw [hx] at hafter
    cases flow with
    | next => cases r <;> exact hafter
    | _ => exact hafter
  | error e t =>
    rw [hx] at hafter
    exact hafter

theorem guarded {body orelse : Exec Flow} {handle : Exception → Exec Flow} {final : Option (Exec Flow)}
    (hbody : Restores body) (horelse : Restores orelse) (hhandle : ∀ e, Restores (handle e))
    (hfinish : ∀ (s : State) (r : Ending Flow), s.Restored r.state → s.Restored (r.finish final).state) :
    Restores (guarded body orelse handle final) := by
  intro s
  have hs := hbody s
  rw [guarded_apply]
  rcases hx : body s with ⟨flow, t⟩ | ⟨signal, t⟩
  · rw [hx] at hs
    cases flow with
    | next => exact hfinish s _ (hs.trans (horelse t))
    | _ => exact hfinish s _ hs
  · rw [hx] at hs
    cases signal with
    | raise e => exact hfinish s _ (hs.trans (hhandle e t))
    | halt h => exact hs

end Restores

/-! ## Whole runs -/

/-- Steps that put back what they changed, as a simulation of one run. -/
def restoring : Simulation where
  Rel x _ := Restores x
  strict := False
  quiet := .quiet
  bind := .bind
  charge := .charge
  exhaust := .exhaust
  newClosure c _ := .newClosure c
  onClosure r _ _ _ hf hother := .withClosure r (fun c => hf c nofun) hother
  limiting := .limited
  deepening := .deeper
  repeats htest hbody := fun s => ((Restores.charge 1).bind fun _ => htest).whileHolds hbody (s.fuel + 1) s
  handling e _ _ h := h.whileHandling e
  guarding hbody horelse hhandle := .guarded hbody horelse hhandle fun _ _ hr => hr
  finishing hbody horelse hhandle hfinal _ _ :=
    .guarded hbody horelse hhandle fun _ _ hr => hfinal.finish hr

/-- Calls put back what they changed, by induction on the levels that are left. -/
theorem restores_callAt (levels : Nat) : restoring.Calls (callAt levels) (callAt levels) := by
  have hcalls : restoring.Calls (callAt levels) (callAt (levels + 0)) :=
    restoring.callAt (fun _ _ => .tooDeep) levels
  exact hcalls

/-- A statement is executed, an expression evaluated or a value called, in any scope and state and with
any number of levels left. However that ends, the level of calls and the exceptions being handled are
what they were before, and there is no more fuel than before. -/
theorem bookkeeping_restored (levels : Nat) (env : Env) (s : State) :
    (∀ statement, s.Restored (Ending.state (exec (callAt levels) env statement s))) ∧
    (∀ e, s.Restored (Ending.state (eval (callAt levels) env e s))) ∧
    ∀ callee args keywords, s.Restored (Ending.state (callAt levels callee args keywords s)) := by
  have hcalls := restores_callAt levels
  refine ⟨fun statement => ?_, fun e => ?_, fun callee args keywords => ?_⟩
  · exact hcalls.exec env statement nofun s
  · exact hcalls.eval env e s
  · exact hcalls callee args keywords s

end Concord.Machine
