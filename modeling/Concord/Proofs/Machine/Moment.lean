import Concord.Proofs.Machine.Attain
import Concord.Proofs.Machine.Attained

/-!
# The moments of a run

A run with less fuel does what a run with more fuel does, until its own fuel is used up. So the runs with
less fuel stop in the states that the run with more fuel goes through: these are its moments. A property
holds throughout a run (`Throughout`) if it holds wherever a run with less fuel stops.

Main statements:

* `lessens_callAt`: with less fuel, a call comes to the same end if what it leaves suffices.
* `Throughout.next`, `Throughout.handled`: what holds throughout a run holds throughout the part of it
  that comes after its first step.
-/

namespace Concord.Machine

variable {α β : Type} {d : Nat}

/-- The state with less fuel. -/
def State.less (d : Nat) (s : State) : State := { s with fuel := s.fuel - d }

/-- The step earns no fuel, and with `d` less of it comes to the same end if at least as much is
left. -/
def Lessens (d : Nat) (x : Exec α) : Prop :=
  ∀ s : State, (Ending.state (x s)).fuel ≤ s.fuel ∧
    (d ≤ (Ending.state (x s)).fuel → x (s.less d) = Ending.map (·.less d) (x s))

/-! ## Steps with less fuel -/

theorem lessens_bind {x : Exec α} {f : α → Exec β} (hx : Lessens d x) (hf : ∀ a, Lessens d (f a)) :
    Lessens d (x >>= f) := by
  intro s
  obtain ⟨hle, hless⟩ := hx s
  rw [Exec.bind_apply, Exec.bind_apply]
  cases hxs : x s with
  | ok a t =>
    rw [hxs] at hle hless
    obtain ⟨hle', hless'⟩ := hf a t
    refine ⟨Nat.le_trans hle' hle, fun hd => ?_⟩
    rw [hless (Nat.le_trans hd hle')]
    exact hless' hd
  | error e t =>
    rw [hxs] at hle hless
    refine ⟨hle, fun hd => ?_⟩
    rw [hless hd]
    rfl

theorem lessens_quiet {x : Exec α} (h : Quiet x) : Lessens d x := by
  intro s
  have hclock := h.clock s
  have hclocked := h.clocked s (s.less d).clock
  rw [show s.withClock (s.less d).clock = s.less d from rfl] at hclocked
  have hsame {t : State} (ht : t.clock = s.clock) : t.withClock (s.less d).clock = t.less d := by
    obtain ⟨hfuel, hmax, hdepth⟩ := Clock.mk.inj ht
    unfold State.withClock State.less State.clock
    rw [hfuel, hmax, hdepth]
  refine ⟨Nat.le_of_eq (congrArg Clock.fuel hclock), fun _ => ?_⟩
  rw [hclocked]
  cases hx : x s with
  | ok a t =>
    rw [hx] at hclock
    exact congrArg (EStateM.Result.ok a) (hsame hclock)
  | error e t =>
    rw [hx] at hclock
    exact congrArg (EStateM.Result.error e) (hsame hclock)

theorem lessens_charge (n : Nat) : Lessens d (Exec.charge n) := by
  intro s
  rw [Exec.charge_apply, Exec.charge_apply]
  by_cases hn : s.fuel < n
  · rw [if_pos hn]
    refine ⟨Nat.zero_le _, fun hd => ?_⟩
    obtain rfl : d = 0 := Nat.le_zero.mp hd
    exact if_pos hn
  · rw [if_neg hn]
    refine ⟨Nat.sub_le _ _, fun hd => ?_⟩
    have hleft : d ≤ s.fuel - n := hd
    have hpaid : ¬ (s.less d).fuel < n := by
      show ¬ s.fuel - d < n
      omega
    rw [if_neg hpaid]
    show EStateM.Result.ok () { s with fuel := s.fuel - d - n } =
      EStateM.Result.ok () { s with fuel := s.fuel - n - d }
    rw [Nat.sub_right_comm]

theorem lessens_exhaust : Lessens d (Exec.exhaust : Exec α) := by
  intro s
  refine ⟨Nat.zero_le _, fun hd => ?_⟩
  obtain rfl : d = 0 := Nat.le_zero.mp hd
  rfl

theorem lessens_withClosure (r : Ref) {f : Closure → Exec α} {other : Exec α}
    (hf : ∀ c, Lessens d (f c)) (hother : Quiet other) : Lessens d (withClosure r f other) := by
  intro s
  rw [withClosure_apply, withClosure_apply, show (s.less d).heap = s.heap from rfl]
  cases s.heap.closures[r]? with
  | none => exact lessens_quiet hother s
  | some c => exact hf c s

theorem lessens_limited {x : Exec α} (h : Lessens d x) : Lessens d (limited x) := by
  intro s
  rw [limited_apply, limited_apply]
  by_cases hdepth : s.maxDepth ≤ s.depth
  · have hless : (s.less d).maxDepth ≤ (s.less d).depth := hdepth
    rw [if_pos hdepth, if_pos hless]
    exact ⟨Nat.le_refl _, fun _ => rfl⟩
  · have hless : ¬ (s.less d).maxDepth ≤ (s.less d).depth := hdepth
    rw [if_neg hdepth, if_neg hless]
    exact h s

/-- A step in a state that is changed beforehand and changed back, but for its fuel. -/
theorem lessens_changed {x : Exec α} (h : Lessens d x) (f g : State → State)
    (hf : ∀ s, f (State.less d s) = (f s).less d) (hg : ∀ s, g (State.less d s) = (g s).less d)
    (hfuel : ∀ s, (f s).fuel = s.fuel) (hback : ∀ s, (g s).fuel = s.fuel) :
    Lessens d fun s => Ending.map g (x (f s)) := by
  intro s
  obtain ⟨hle, hless⟩ := h (f s)
  rw [hfuel] at hle
  dsimp only
  rw [hf]
  cases hx : x (f s) with
  | ok a t =>
    rw [hx] at hle hless
    refine ⟨Nat.le_trans (Nat.le_of_eq (hback t)) hle, fun hd => ?_⟩
    rw [hless ((hback t) ▸ hd)]
    exact congrArg (EStateM.Result.ok a) (hg t)
  | error e t =>
    rw [hx] at hle hless
    refine ⟨Nat.le_trans (Nat.le_of_eq (hback t)) hle, fun hd => ?_⟩
    rw [hless ((hback t) ▸ hd)]
    exact congrArg (EStateM.Result.error e) (hg t)

theorem lessens_deeper {x : Exec α} (h : Lessens d x) : Lessens d (deeper x) := by
  rw [show deeper x = _ from funext (deeper_apply x)]
  exact lessens_changed h (fun t => { t with depth := t.depth + 1 })
    (fun t => { t with depth := t.depth - 1 }) (fun _ => rfl) (fun _ => rfl) (fun _ => rfl) fun _ => rfl

theorem lessens_whileHandling (e : Exception) {x : Exec Flow} (h : Lessens d x) :
    Lessens d (whileHandling e x) := by
  rw [show whileHandling e x = _ from funext (whileHandling_apply e x)]
  exact lessens_changed h (fun t => { t with handling := e :: t.handling })
    (fun t => { t with handling := t.handling.tail }) (fun _ => rfl) (fun _ => rfl) (fun _ => rfl)
    fun _ => rfl

/-! ## Loops -/

theorem lessens_whileHolds {test : Exec Bool} {body : Exec Flow} (htest : Lessens d test)
    (hbody : Lessens d body) (turns : Nat) : Lessens d (whileHolds test body turns) := by
  induction turns with
  | zero => exact lessens_exhaust
  | succ turns ih =>
    rw [whileHolds]
    apply lessens_bind htest
    intro holds
    split
    · apply lessens_bind hbody
      intro flow
      split
      · exact lessens_quiet (.ret _)
      · exact ih
    · exact lessens_quiet (.ret _)

/-- A step that pays first leaves less fuel than there was. -/
theorem fuel_lt_of_charge {x : Exec α} (h : Lessens d x) {s t : State} {a : α}
    (hx : (Exec.charge 1 >>= fun _ => x) s = .ok a t) : t.fuel < s.fuel := by
  rw [Exec.bind_apply, Exec.charge_apply] at hx
  by_cases hempty : s.fuel < 1
  · rw [if_pos hempty] at hx
    cases hx
  · rw [if_neg hempty] at hx
    have hle := (h { s with fuel := s.fuel - 1 }).1
    rw [show x { s with fuel := s.fuel - 1 } = .ok a t from hx] at hle
    have hless : t.fuel ≤ s.fuel - 1 := hle
    omega

/-- As long as there are more turns than fuel, their number makes no difference to a loop whose tests
pay: by induction on the turns, since there is less fuel after each of them. -/
theorem whileHolds_turns {test : Exec Bool} {body : Exec Flow} (htest : Lessens d test)
    (hbody : Lessens d body) {n m : Nat} {s : State} (hn : s.fuel < n) (hm : s.fuel < m) :
    whileHolds (Exec.charge 1 >>= fun _ => test) body n s =
      whileHolds (Exec.charge 1 >>= fun _ => test) body m s := by
  have hpays {s t : State} {holds : Bool} := fuel_lt_of_charge (a := holds) (s := s) (t := t) htest
  generalize (Exec.charge 1 >>= fun _ => test) = pay at hpays ⊢
  induction n generalizing m s with
  | zero => exact absurd hn (Nat.not_lt_zero _)
  | succ n ih =>
    obtain ⟨m, rfl⟩ := Nat.exists_eq_add_one_of_ne_zero (Nat.ne_zero_of_lt hm)
    rw [whileHolds, whileHolds, Exec.bind_apply, Exec.bind_apply]
    cases hx : pay s with
    | error e t => rfl
    | ok holds t =>
      have hless := hpays hx
      cases holds with
      | false => rfl
      | true =>
        show (body >>= _) t = (body >>= _) t
        rw [Exec.bind_apply, Exec.bind_apply]
        have hturn := (hbody t).1
        cases hy : body t with
        | error e u => rfl
        | ok flow u =>
          rw [hy] at hturn
          have hfuel : u.fuel ≤ t.fuel := hturn
          dsimp only
          cases flow.exit? with
          | some exit => rfl
          | none => exact ih (by omega) (by omega)

theorem lessens_repeating {test : Exec Bool} {body : Exec Flow} (htest : Lessens d test)
    (hbody : Lessens d body) : Lessens d (repeating (Exec.charge 1 >>= fun _ => test) body) := by
  have hpaid : Lessens d (Exec.charge 1 >>= fun _ => test) :=
    lessens_bind (lessens_charge 1) fun _ => htest
  intro s
  obtain ⟨hle, hless⟩ := lessens_whileHolds hpaid hbody (s.fuel + 1) s
  refine ⟨hle, fun hd => ?_⟩
  have hfuel : (s.less d).fuel ≤ s.fuel := Nat.sub_le _ _
  refine Eq.trans ?_ (hless hd)
  exact whileHolds_turns htest hbody (Nat.lt_succ_self _) (Nat.lt_succ_of_le hfuel)

/-! ## Guarded blocks -/

/-- What `finally` makes of an ending. -/
theorem lessens_finish {final : Exec Flow} (hfinal : Lessens d final) (r : Ending Flow) :
    (Ending.finish (some final) r).state.fuel ≤ r.state.fuel ∧
      (d ≤ (Ending.finish (some final) r).state.fuel →
        Ending.finish (some final) (Ending.map (·.less d) r) =
          Ending.map (·.less d) (Ending.finish (some final) r)) := by
  obtain ⟨hle, hless⟩ := hfinal r.state
  have hstate : (Ending.map (·.less d) r).state = r.state.less d := by cases r <;> rfl
  rw [Ending.finish, Ending.finish, hstate]
  cases hx : final r.state with
  | ok flow t =>
    rw [hx] at hle hless
    cases flow with
    | next =>
      have hback : (Ending.map (fun _ => t) r).state = t := by cases r <;> rfl
      dsimp only
      rw [hback]
      refine ⟨hle, fun hd => ?_⟩
      rw [hless hd]
      cases r <;> rfl
    | _ =>
      refine ⟨hle, fun hd => ?_⟩
      rw [hless hd]
      rfl
  | error e t =>
    rw [hx] at hle hless
    refine ⟨hle, fun hd => ?_⟩
    rw [hless hd]
    rfl

theorem lessens_closing {x : Exec Flow} (hx : Lessens d x) {final : Option (Exec Flow)}
    (hfinal : ∀ z ∈ final, Lessens d z) : Lessens d (closing final x) := by
  intro s
  rw [closing_apply, closing_apply]
  obtain ⟨hle, hless⟩ := hx s
  cases final with
  | none => exact ⟨hle, hless⟩
  | some z =>
    obtain ⟨hle', hless'⟩ := lessens_finish (hfinal z rfl) (x s)
    refine ⟨Nat.le_trans hle' hle, fun hd => ?_⟩
    rw [hless (Nat.le_trans hd hle')]
    exact hless' hd

theorem lessens_catching {x : Exec α} {f : α → Exec β} {handle : Exception → Exec β}
    (hx : Lessens d x) (hf : ∀ a, Lessens d (f a)) (hhandle : ∀ e, Lessens d (handle e)) :
    Lessens d (catching x f handle) := by
  intro s
  obtain ⟨hle, hless⟩ := hx s
  have hgo {z : Exec β} {t : State} (hz : Lessens d z) (ht : t.fuel ≤ s.fuel)
      (heq : catching x f handle s = z t)
      (hsmall : d ≤ t.fuel → catching x f handle (s.less d) = z (t.less d)) :
      (Ending.state (catching x f handle s)).fuel ≤ s.fuel ∧
        (d ≤ (Ending.state (catching x f handle s)).fuel →
          catching x f handle (s.less d) = Ending.map (·.less d) (catching x f handle s)) := by
    obtain ⟨hle', hless'⟩ := hz t
    rw [heq]
    exact ⟨Nat.le_trans hle' ht, fun hd => (hsmall (Nat.le_trans hd hle')).trans (hless' hd)⟩
  cases hxs : x s with
  | ok a t =>
    rw [hxs] at hle hless
    refine hgo (t := t) (hf a) hle ?_ fun hd => ?_
    · rw [catching, hxs]
    · rw [catching, hless hd]
      rfl
  | error e t =>
    rw [hxs] at hle hless
    cases e with
    | raise e =>
      refine hgo (t := t) (hhandle e) hle ?_ fun hd => ?_
      · rw [catching, hxs]
      · rw [catching, hless hd]
        rfl
    | halt h =>
      refine hgo (t := t) (z := throw (.halt h)) (lessens_quiet (.throw _)) hle ?_ fun hd => ?_
      · rw [catching, hxs]
        rfl
      · rw [catching, hless hd]
        rfl

theorem lessens_guarded {body orelse : Exec Flow} {handle : Exception → Exec Flow}
    {final : Option (Exec Flow)} (hbody : Lessens d body) (horelse : Lessens d orelse)
    (hhandle : ∀ e, Lessens d (handle e)) (hfinal : ∀ z ∈ final, Lessens d z) :
    Lessens d (guarded body orelse handle final) := by
  rw [guarded_eq_catching]
  refine lessens_catching hbody (fun flow => ?_) fun e => lessens_closing (hhandle e) hfinal
  cases flow with
  | next => exact lessens_closing horelse hfinal
  | _ => exact lessens_closing (lessens_quiet (.ret _)) hfinal

/-- A run beside itself with less fuel. -/
def lessening (d : Nat) : Simulation where
  Rel x y := x = y ∧ Lessens d x
  strict := False
  quiet h := ⟨rfl, lessens_quiet h⟩
  bind := by
    rintro _ _ x _ f g ⟨rfl, hx⟩ hf
    obtain rfl : f = g := funext fun a => (hf a).1
    exact ⟨rfl, lessens_bind hx fun a => (hf a).2⟩
  charge n := ⟨rfl, lessens_charge n⟩
  exhaust := ⟨rfl, lessens_exhaust⟩
  newClosure _ _ := ⟨rfl, fun _ => ⟨Nat.le_refl _, fun _ => rfl⟩⟩
  onClosure := by
    intro _ r f g other hf hother
    obtain rfl : f = g := funext fun c => (hf c nofun).1
    exact ⟨rfl, lessens_withClosure r (fun c => (hf c nofun).2) hother⟩
  limiting := by
    rintro _ x _ ⟨rfl, hx⟩
    exact ⟨rfl, lessens_limited hx⟩
  deepening := by
    rintro _ x _ ⟨rfl, hx⟩
    exact ⟨rfl, lessens_deeper hx⟩
  repeats := by
    rintro test _ body _ ⟨rfl, htest⟩ ⟨rfl, hbody⟩
    exact ⟨rfl, lessens_repeating htest hbody⟩
  handling := by
    rintro e x _ ⟨rfl, hx⟩
    exact ⟨rfl, lessens_whileHandling e hx⟩
  guarding := by
    rintro body _ orelse _ handle handle' ⟨rfl, hbody⟩ ⟨rfl, horelse⟩ hhandle
    obtain rfl : handle = handle' := funext fun e => (hhandle e).1
    exact ⟨rfl, lessens_guarded hbody horelse (fun e => (hhandle e).2) nofun⟩
  finishing := by
    rintro body _ orelse _ final _ handle handle' ⟨rfl, hbody⟩ ⟨rfl, horelse⟩ hhandle ⟨rfl, hfinal⟩ _ _
    obtain rfl : handle = handle' := funext fun e => (hhandle e).1
    refine ⟨rfl, lessens_guarded hbody horelse (fun e => (hhandle e).2) ?_⟩
    rintro _ ⟨⟩
    exact hfinal

theorem lessens_callAt (d levels : Nat) : (lessening d).Calls (callAt levels) (callAt levels) := by
  show (lessening d).Calls (callAt levels) (callAt (levels + 0))
  refine (lessening d).callAt (fun y hy => ?_) levels
  rw [hy rfl]
  exact ⟨rfl, fun _ => ⟨Nat.le_refl _, fun _ => rfl⟩⟩

/-! ## Moments -/

/-- The step earns no fuel, and does the same with less of it. -/
def Steady (x : Exec α) : Prop := ∀ d, Lessens d x

/-- The property holds at every moment of a run: wherever a run with less fuel stops. -/
def Throughout (P : State → Prop) (x : Exec α) (s : State) : Prop :=
  ∀ fuel ≤ s.fuel, Spent (x { s with fuel }) → P (Ending.state (x { s with fuel }))

theorem Spent.of_eq {r r' : Ending α} (h : r = r') (hr : Spent r) : Spent r' := h ▸ hr

namespace Throughout

variable {P : State → Prop} {s t : State} {x : Exec α} {f : α → Exec β} {handle : Exception → Exec β}

/-- What holds throughout a run holds before it pays. -/
theorem start (h : Throughout P (Exec.charge 1 >>= fun _ => x) s) : P { s with fuel := 0 } :=
  h 0 (Nat.zero_le _) ⟨{ s with fuel := 0 }, rfl, rfl⟩

/-- What holds throughout a run holds throughout its first step. -/
theorem first (h : Throughout P (catching x f handle) s) : Throughout P x s := by
  rintro fuel hfuel ⟨t, hx, ht⟩
  have hrun : catching x f handle { s with fuel } = .error (.halt .fuelExhausted) t := by
    rw [catching, hx]
  have hP := h fuel hfuel ⟨t, hrun, ht⟩
  rw [hrun] at hP
  rw [hx]
  exact hP

/-- A run with less fuel, from the start, has as much less after the first step. -/
theorem lessened (hx : Steady x) (ht : (Ending.state (x s)) = t) {fuel : Nat} (hfuel : fuel ≤ t.fuel) :
    x { s with fuel := s.fuel - (t.fuel - fuel) } = Ending.map (fun u => { u with fuel }) (x s) := by
  obtain ⟨hle, hless⟩ := hx (t.fuel - fuel) s
  rw [ht] at hle hless
  refine (hless (Nat.sub_le _ _)).trans ?_
  cases hxs : x s with
  | ok a u | error e u =>
    rw [hxs] at ht
    obtain rfl : u = t := ht
    simp only [Ending.map, State.less, Nat.sub_sub_self hfuel]

/-- What holds throughout a run holds throughout what comes after the first step. -/
theorem next (h : Throughout P (catching x f handle) s) (hsteady : Steady x) {a : α}
    (hx : x s = .ok a t) : Throughout P (f a) t := by
  intro fuel hfuel hspent
  have hrun : catching x f handle { s with fuel := s.fuel - (t.fuel - fuel) } =
      f a { t with fuel } := by
    rw [catching, lessened hsteady (by rw [hx]; rfl) hfuel, hx]
    rfl
  have hP := h _ (Nat.sub_le _ _) (hspent.of_eq hrun.symm)
  rwa [hrun] at hP

/-- What holds throughout a run that pays first holds throughout the rest of it. -/
theorem paid {n : Nat} {y : Exec α} (h : Throughout P x s)
    (hx : ∀ fuel, x { s with fuel } = (Exec.charge n >>= fun _ => y) { s with fuel })
    (hn : n ≤ s.fuel) : Throughout P y { s with fuel := s.fuel - n } := by
  intro fuel hfuel hspent
  have hfuel : fuel ≤ s.fuel - n := hfuel
  have hrun : x { s with fuel := fuel + n } = y { s with fuel } := by
    rw [hx, Exec.bind_apply, Exec.charge_apply, if_neg (Nat.not_lt.mpr (Nat.le_add_left n fuel))]
    dsimp only
    rw [Nat.add_sub_cancel]
  have hP := h (fuel + n) (by omega) (hspent.of_eq hrun.symm)
  rwa [hrun] at hP

/-- What holds throughout a run holds throughout the handling of an exception. -/
theorem handled (h : Throughout P (catching x f handle) s) (hsteady : Steady x) {e : Exception}
    (hx : x s = .error (.raise e) t) : Throughout P (handle e) t := by
  intro fuel hfuel hspent
  have hrun : catching x f handle { s with fuel := s.fuel - (t.fuel - fuel) } =
      handle e { t with fuel } := by
    rw [catching, lessened hsteady (by rw [hx]; rfl) hfuel, hx]
    rfl
  have hP := h _ (Nat.sub_le _ _) (hspent.of_eq hrun.symm)
  rwa [hrun] at hP

/-- What holds throughout a run holds before its `finally` block. -/
theorem before {x z : Exec Flow} (h : Throughout P (closing (some z) x) s) (hpaid : Paid z) :
    Throughout P x s := by
  rintro fuel hfuel ⟨t, hx, ht⟩
  obtain ⟨rest, rfl⟩ := hpaid
  have hrun : closing (some (Exec.charge 1 >>= fun _ => rest)) x { s with fuel } =
      .error (.halt .fuelExhausted) { t with fuel := 0 } := by
    rw [closing_apply, hx, Ending.finish, Ending.state, Exec.bind_apply, Exec.charge_apply,
      if_pos (by omega)]
  have hP := h fuel hfuel ⟨_, hrun, rfl⟩
  rw [hrun] at hP
  rw [hx]
  have hsame : { t with fuel := 0 } = t := by rw [← ht]
  exact hsame ▸ hP

/-- What holds throughout a run holds throughout its `finally` block. -/
theorem last {x z : Exec Flow} (h : Throughout P (closing (some z) x) s) (hsteady : Steady x) :
    Throughout P z (Ending.state (x s)) := by
  rintro fuel hfuel ⟨t, hz, ht⟩
  have hrun : closing (some z) x { s with fuel := s.fuel - ((Ending.state (x s)).fuel - fuel) } =
      .error (.halt .fuelExhausted) t := by
    rw [closing_apply, lessened hsteady rfl hfuel, Ending.finish]
    have hstate : (Ending.map (fun u => { u with fuel }) (x s)).state =
        { (Ending.state (x s)) with fuel } := by cases x s <;> rfl
    rw [hstate, hz]
  have hP := h _ (Nat.sub_le _ _) ⟨t, hrun, ht⟩
  rw [hrun] at hP
  rw [hz]
  exact hP

/-- What holds throughout a loop holds throughout so many turns of it. -/
theorem turns {test : Exec Bool} {body : Exec Flow} (htest : Lessens 0 test) (hbody : Lessens 0 body)
    (h : Throughout P (repeating (Exec.charge 1 >>= fun _ => test) body) s) :
    Throughout P (whileHolds (Exec.charge 1 >>= fun _ => test) body (s.fuel + 1)) s := by
  intro fuel hfuel hspent
  have hrun : repeating (Exec.charge 1 >>= fun _ => test) body { s with fuel } =
      whileHolds (Exec.charge 1 >>= fun _ => test) body (s.fuel + 1) { s with fuel } :=
    whileHolds_turns htest hbody (Nat.lt_succ_self _) (Nat.lt_succ_of_le hfuel)
  have hP := h fuel hfuel (hspent.of_eq hrun.symm)
  rwa [hrun] at hP

/-- What holds throughout a run holds throughout what it does in a state that is changed beforehand, if
the change makes no difference. -/
theorem changed (f g : State → State) (h : Throughout P (fun s => Ending.map g (x (f s))) s)
    (hf : ∀ s fuel, f { s with fuel } = { (f s) with fuel }) (hfuel : (f s).fuel = s.fuel)
    (hg : ∀ t, (g t).fuel = t.fuel) (hP : ∀ t, P (g t) → P t) : Throughout P x (f s) := by
  rintro fuel hle ⟨t, hx, ht⟩
  rw [hfuel] at hle
  have hrun : Ending.map g (x (f { s with fuel })) = .error (.halt .fuelExhausted) (g t) := by
    rw [hf, hx]
    rfl
  have hgt := h fuel hle ⟨g t, hrun, (hg t).trans ht⟩
  dsimp only at hgt
  rw [hrun] at hgt
  rw [hx]
  exact hP t hgt

end Throughout

end Concord.Machine

/-!
## Steps that attain others while something holds

Some steps attain others only as long as the program leaves something alone, such as a list that both
runs read in different ways. `AttainsWhile P Q` says that the second step attains the first one from all
stages that satisfy `Q`, and keeps to them, if `P` holds throughout the run of the first.

The rules are those of `Attains`: one step after another, blocks that are guarded, and loops.
-/

namespace Concord.Machine

variable {α β : Type}

section

variable (hidden : List String) (swaps : Block → Block → Prop) (P : State → Prop) (Q : Stages → Prop)

/-- In all stages that satisfy `Q`, the second step attains the first one if `P` holds throughout. -/
structure AttainsWhile (x y : Exec α) : Prop where
  steady : Steady x
  attains : ∀ (W : Stages) (s : State) (F : Frame), Q W → s.frame.Akin hidden swaps W F →
    Throughout P x s → AttainsAt hidden swaps Q s F x y

end

variable {hidden : List String} {swaps : Block → Block → Prop} {P : State → Prop} {Q : Stages → Prop}

/-- What attains anyhow does so while something holds. -/
theorem Attains.meanwhile {env : Env} {g : Stage} {start : Stages} {x y : Exec α}
    (h : Attains hidden swaps env g x y) (hat : start.At env g) (hsteady : Steady x) :
    AttainsWhile hidden swaps P (start <+: ·) x y := by
  refine ⟨hsteady, fun W s F hW hF _ => ?_⟩
  exact AttainsAt.weaken (h W s F (hat.mono hW) hF) fun W' hW' => hW.trans hW'

namespace AttainsWhile

/-- A step that ends at once. -/
theorem here {x : Exec α} (hsteady : Steady x) (h : ∀ s, (Ending.state (x s)).frame = s.frame)
    (hfuel : ∀ s F fuel, x (State.under s F fuel) = Ending.map (·.under F fuel) (x s)) :
    AttainsWhile hidden swaps P Q x x := by
  refine ⟨hsteady, fun W s F hQ hF _ => .inr ⟨W, F, hQ, ?_, .here _ fun fuel => hfuel s F fuel⟩⟩
  rw [h]
  exact hF

theorem ret (a : α) : AttainsWhile hidden swaps P Q (pure a) (pure a) :=
  here (fun _ => lessens_quiet (.ret a)) (fun _ => rfl) fun _ _ _ => rfl

theorem throw (e : Signal) : AttainsWhile hidden swaps P Q (throw e : Exec α) (throw e) :=
  here (fun _ => lessens_quiet (.throw e)) (fun _ => rfl) fun _ _ _ => rfl

theorem exhaust : AttainsWhile hidden swaps P Q (Exec.exhaust : Exec α) Exec.exhaust :=
  ⟨fun _ => lessens_exhaust, fun _ s _ _ _ _ => .inl ⟨{ s with fuel := 0 }, rfl, rfl⟩⟩

theorem plain {x : Exec α} (h : Plain x) : AttainsWhile hidden swaps P Q x x := by
  refine ⟨fun _ => lessens_quiet h.quiet, fun W s F hQ hF _ => .inr ⟨W, F, hQ, ?_, ?_⟩⟩
  · have hkept := h.framed.kept s
    exact hkept ▸ hF
  · exact .here _ (h.under hF.names)

theorem charge (n : Nat) : AttainsWhile hidden swaps P Q (Exec.charge n) (Exec.charge n) :=
  ⟨fun _ => lessens_charge n, fun _ _ _ hQ hF _ => AttainsAt.charge n hQ hF⟩

theorem catching {x y : Exec α} {f k : α → Exec β} {handle handle' : Exception → Exec β}
    (h : AttainsWhile hidden swaps P Q x y) (hf : ∀ a, AttainsWhile hidden swaps P Q (f a) (k a))
    (hhandle : ∀ e, AttainsWhile hidden swaps P Q (handle e) (handle' e)) :
    AttainsWhile hidden swaps P Q (Machine.catching x f handle) (Machine.catching y k handle') := by
  refine ⟨fun d => ?_, fun W s F hQ hF hP => ?_⟩
  · exact lessens_catching (h.steady d) (fun a => (hf a).steady d) fun e => (hhandle e).steady d
  · refine AttainsAt.catching (h.attains W s F hQ hF hP.first) (fun W' t F' a hx hQ' hF' => ?_)
      (fun W' t F' e hx hQ' hF' => ?_) fun _ => id
    · exact (hf a).attains W' t F' hQ' hF' (hP.next h.steady hx)
    · exact (hhandle e).attains W' t F' hQ' hF' (hP.handled h.steady hx)

theorem bind {x y : Exec α} {f k : α → Exec β} (h : AttainsWhile hidden swaps P Q x y)
    (hf : ∀ a, AttainsWhile hidden swaps P Q (f a) (k a)) :
    AttainsWhile hidden swaps P Q (x >>= f) (y >>= k) := by
  rw [bind_eq_catching, bind_eq_catching]
  exact h.catching hf fun e => throw (.raise e)

variable (hidden swaps P Q) in
/-- Such steps get along with work on values. -/
abbrev conduct : Conduct where
  Rel := AttainsWhile hidden swaps P Q
  plain := plain
  bind := bind
  charge := charge

/-! ### Exceptions and guarded blocks -/

theorem handling {x y : Exec Flow} (e : Exception) (hP : ∀ t es, P { t with handling := es } → P t)
    (h : AttainsWhile hidden swaps P Q x y) :
    AttainsWhile hidden swaps P Q (whileHandling e x) (whileHandling e y) := by
  refine ⟨fun d => lessens_whileHandling e (h.steady d), ?_⟩
  rw [show whileHandling e x = _ from funext (whileHandling_apply e x),
    show whileHandling e y = _ from funext (whileHandling_apply e y)]
  intro W s F hQ hF hthroughout
  have hinside := hthroughout.changed (fun t => { t with handling := e :: t.handling })
    (fun t => { t with handling := t.handling.tail }) (fun _ _ => rfl) rfl (fun _ => rfl)
    fun t => hP t t.handling.tail
  refine AttainsAt.changed (fun t => { t with handling := e :: t.handling })
    (fun t => { t with handling := t.handling.tail }) (fun F => { F with handling := e :: F.handling })
    (fun F => { F with handling := F.handling.tail })
    (h.attains W _ { F with handling := e :: F.handling } hQ ?_ hinside) (fun _ _ _ => rfl)
    (fun _ _ _ => rfl) (fun _ => rfl) ?_
  · exact { hF with handling := congrArg (e :: ·) hF.handling }
  · exact fun W s F h => { h with handling := congrArg List.tail h.handling }

theorem closing {x y : Exec Flow} (h : AttainsWhile hidden swaps P Q x y)
    {final final' : Option (Exec Flow)}
    (hfinal : ∀ z ∈ final, Paid z ∧ ∃ z' ∈ final', AttainsWhile hidden swaps P Q z z')
    (hnone : final = none → final' = none) :
    AttainsWhile hidden swaps P Q (closing final x) (closing final' y) := by
  cases final with
  | none =>
    rw [hnone rfl, show Machine.closing none x = x from funext (closing_apply none x),
      show Machine.closing none y = y from funext (closing_apply none y)]
    exact h
  | some z =>
    obtain ⟨hpaid, z', hz', hz⟩ := hfinal z rfl
    rw [Option.mem_def] at hz'
    subst hz'
    refine ⟨fun d => lessens_closing (h.steady d) ?_, fun W s F hQ hF hP => ?_⟩
    · rintro _ ⟨⟩
      exact hz.steady d
    · refine AttainsAt.closing (h.attains W s F hQ hF (hP.before hpaid)) hpaid fun W' F' hQ' hF' => ?_
      exact hz.attains W' _ F' hQ' hF' (hP.last h.steady)

theorem guarding {body body' orelse orelse' : Exec Flow} {handle handle' : Exception → Exec Flow}
    {final final' : Option (Exec Flow)} (hbody : AttainsWhile hidden swaps P Q body body')
    (horelse : AttainsWhile hidden swaps P Q orelse orelse')
    (hhandle : ∀ e, AttainsWhile hidden swaps P Q (handle e) (handle' e))
    (hfinal : ∀ z ∈ final, Paid z ∧ ∃ z' ∈ final', AttainsWhile hidden swaps P Q z z')
    (hnone : final = none → final' = none) :
    AttainsWhile hidden swaps P Q (guarded body orelse handle final)
      (guarded body' orelse' handle' final') := by
  rw [guarded_eq_catching, guarded_eq_catching]
  refine hbody.catching (fun flow => ?_) fun e => (hhandle e).closing hfinal hnone
  cases flow with
  | next => exact horelse.closing hfinal hnone
  | _ => exact (ret _).closing hfinal hnone

/-! ### Loops -/

/-- Two loops that go through different items, if their turns attain each other. -/
theorem forItems {body body' : Value → Exec Flow} {items items' : List Value}
    (h : List.Forall₂ (fun v w => AttainsWhile hidden swaps P Q (body v) (body' w)) items items') :
    AttainsWhile hidden swaps P Q (forItems body items) (forItems body' items') := by
  induction h with
  | nil => exact ret none
  | cons h _ ih =>
    rw [Machine.forItems, Machine.forItems]
    refine bind h fun flow => ?_
    split
    · exact ret _
    · exact ih

theorem whileHolds {test test' : Exec Bool} {body body' : Exec Flow}
    (htest : AttainsWhile hidden swaps P Q test test')
    (hbody : AttainsWhile hidden swaps P Q body body') (turns : Nat) :
    AttainsWhile hidden swaps P Q (whileHolds test body turns) (whileHolds test' body' turns) := by
  induction turns with
  | zero => exact exhaust
  | succ turns ih =>
    rw [Machine.whileHolds, Machine.whileHolds]
    refine bind htest fun holds => ?_
    split
    · refine bind hbody fun flow => ?_
      split
      · exact ret _
      · exact ih
    · exact ret _

theorem repeats {test test' : Exec Bool} {body body' : Exec Flow}
    (hpays : ∀ d, ∃ x : Exec Bool, test = (Exec.charge 1 >>= fun _ => x) ∧ Lessens d x)
    (htest : AttainsWhile hidden swaps P Q test test')
    (hbody : AttainsWhile hidden swaps P Q body body') :
    AttainsWhile hidden swaps P Q (repeating test body) (repeating test' body') := by
  refine ⟨fun d => ?_, fun W s F hQ hF hP => ?_⟩
  · obtain ⟨x, rfl, hx⟩ := hpays d
    exact lessens_repeating hx (hbody.steady d)
  · obtain ⟨x, rfl, hx⟩ := hpays 0
    have hloop := (whileHolds htest hbody (s.fuel + 1)).attains W s F hQ hF
      (hP.turns hx (hbody.steady 0))
    refine hloop.imp id ?_
    rintro ⟨W', F', hQ', hF', hample⟩
    exact ⟨W', F', hQ', hF', .repeating hample⟩

end AttainsWhile

end Concord.Machine
