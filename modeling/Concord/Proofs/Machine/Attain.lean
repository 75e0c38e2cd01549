import Concord.Proofs.Machine.Budget
import Concord.Proofs.Machine.Stage

/-!
# Steps that attain others

The step `y` attains the step `x` (`Attains`) if it ends as `x` does whenever it starts in a frame akin
to that of `x` and with enough fuel; unless `x` runs out of fuel, in which case nothing is asked of `y`.
The two may pay differently, so the fuel that `y` needs and leaves is bounded by nothing that `x` pays:
for every amount there is a supply that leaves at least that much.
-/

namespace Concord.Machine

variable {α β : Type}

/-- The state in another frame and with other fuel. -/
def State.under (s : State) (F : Frame) (fuel : Nat) : State := { s.withFrame F with fuel }

theorem Exec.charge_under {n fuel : Nat} (h : n ≤ fuel) (s : State) (F : Frame) :
    Exec.charge n (s.under F fuel) = .ok () (s.under F (fuel - n)) := by
  rw [Exec.charge_apply]
  exact if_neg (Nat.not_lt.mpr h)

/-- Work on values and containers does the same in another frame and with other fuel. -/
theorem Plain.under {x : Exec α} (hx : Plain x) {s : State} {F : Frame}
    (hnames : F.closures.map (·.name) = s.heap.closures.map (·.name)) (fuel : Nat) :
    x (s.under F fuel) = Ending.map (·.under F fuel) (x s) := by
  have hmoved := hx.framed.moved s F hnames
  have hclocked := hx.quiet.clocked (s.withFrame F) ⟨fuel, s.maxDepth, s.depth⟩
  have hclock := hx.quiet.clock s
  rw [hmoved] at hclocked
  show x ((s.withFrame F).withClock ⟨fuel, s.maxDepth, s.depth⟩) = _
  rw [hclocked]
  cases hxs : x s with
  | ok a t =>
    rw [hxs] at hclock
    obtain ⟨-, hmax, hdepth⟩ := Clock.mk.inj hclock
    show EStateM.Result.ok a ((t.withFrame F).withClock ⟨fuel, s.maxDepth, s.depth⟩) = _
    rw [← hmax, ← hdepth]
    rfl
  | error e t =>
    rw [hxs] at hclock
    obtain ⟨-, hmax, hdepth⟩ := Clock.mk.inj hclock
    show EStateM.Result.error e ((t.withFrame F).withClock ⟨fuel, s.maxDepth, s.depth⟩) = _
    rw [← hmax, ← hdepth]
    rfl

/-- Go on after a step, with a step of its own after an exception. -/
def catching (x : Exec α) (f : α → Exec β) (handle : Exception → Exec β) : Exec β := fun s =>
  match x s with
  | .ok a t => f a t
  | .error (.raise e) t => handle e t
  | .error (.halt h) t => .error (.halt h) t

theorem bind_eq_catching (x : Exec α) (f : α → Exec β) :
    x >>= f = catching x f fun e => throw (.raise e) := by
  funext s
  rw [Exec.bind_apply, catching]
  rcases x s with ⟨a, t⟩ | ⟨_ | _, t⟩ <;> rfl

theorem guarded_eq_catching (body orelse : Exec Flow) (handle : Exception → Exec Flow)
    (final : Option (Exec Flow)) :
    guarded body orelse handle final = catching body
      (fun
        | .next => closing final orelse
        | exit => closing final (pure exit))
      (fun e => closing final (handle e)) := by
  funext s
  rw [guarded_apply, catching]
  rcases body s with ⟨_ | _ | _ | _, t⟩ | ⟨_ | _, t⟩ <;> first | rfl | exact (closing_apply ..).symm

/-- The run is out of fuel. -/
def Spent (r : Ending α) : Prop := ∃ t, r = .error (.halt .fuelExhausted) t ∧ t.fuel = 0

/-- With enough fuel the step ends like `r` but in the frame `F'`, and leaves as much fuel as wanted. -/
def Ample (y : Exec α) (s : State) (F F' : Frame) (r : Ending α) : Prop :=
  ∀ spare, ∃ need, ∀ fuel, need ≤ fuel →
    ∃ left, spare ≤ left ∧ y (s.under F fuel) = r.map (·.under F' left)

namespace Ample

variable {x : Exec α} {s : State} {F F' : Frame}

theorem here (r : Ending α) (h : ∀ fuel, x (s.under F fuel) = r.map (·.under F' fuel)) :
    Ample x s F F' r :=
  fun spare => ⟨spare, fun fuel hfuel => ⟨fuel, hfuel, h fuel⟩⟩

/-- One step after another: what the second one needs is spare for the first one. -/
theorem next {y : Exec α} {z c : Exec β} {t : State} {F'' : Frame} {r : Ending α} {r' : Ending β}
    (hy : Ample y s F F' r) (hz : Ample z t F' F'' r')
    (hc : ∀ u left, y u = r.map (·.under F' left) → c u = z (t.under F' left)) :
    Ample c s F F'' r' := by
  intro spare
  obtain ⟨need₂, hneed₂⟩ := hz spare
  obtain ⟨need₁, hneed₁⟩ := hy need₂
  refine ⟨need₁, fun fuel hfuel => ?_⟩
  obtain ⟨left, hleft, hfirst⟩ := hneed₁ fuel hfuel
  rw [hc _ _ hfirst]
  exact hneed₂ left hleft

/-- A step in a state that is changed beforehand and changed back. -/
theorem changed {y : Exec α} {r : Ending α} (f f' : State → State) (k k' : Frame → Frame)
    (h : Ample y (f s) (k F) F' r)
    (hf : ∀ F fuel, f (s.under F fuel) = (f s).under (k F) fuel)
    (hf' : ∀ s F fuel, f' (State.under s F fuel) = (f' s).under (k' F) fuel) :
    Ample (fun s => Ending.map f' (y (f s))) s F (k' F') (r.map f') := by
  intro spare
  obtain ⟨need, hneed⟩ := h spare
  refine ⟨need, fun fuel hfuel => ?_⟩
  obtain ⟨left, hleft, hy⟩ := hneed fuel hfuel
  refine ⟨left, hleft, ?_⟩
  dsimp only
  rw [hf, hy]
  cases r <;> simp only [Ending.map, hf']

end Ample

section

variable (hidden : List String) (swaps : Block → Block → Prop)

/-- From this state the second step attains the first in the frame `F`, and the stages afterwards
satisfy `Q`. -/
abbrev AttainsAt (Q : Stages → Prop) (s : State) (F : Frame) (x y : Exec α) : Prop :=
  Spent (x s) ∨ ∃ W F', Q W ∧ (Ending.state (x s)).frame.Akin hidden swaps W F' ∧ Ample y s F F' (x s)

/-- From a scope of stage `g`, the second step attains the first. -/
def Attains (env : Env) (g : Stage) (x y : Exec α) : Prop :=
  ∀ (W : Stages) (s : State) (F : Frame), W.At env g → s.frame.Akin hidden swaps W F →
    AttainsAt hidden swaps (W <+: ·) s F x y

end

variable {hidden : List String} {swaps : Block → Block → Prop} {env : Env} {g : Stage}

namespace AttainsAt

variable {Q R : Stages → Prop} {s : State} {F : Frame}

theorem weaken {x y : Exec α} (h : AttainsAt hidden swaps Q s F x y) (hQ : ∀ W, Q W → R W) :
    AttainsAt hidden swaps R s F x y := by
  refine h.imp id ?_
  rintro ⟨W, F', hW, hrest⟩
  exact ⟨W, F', hQ W hW, hrest⟩

theorem charge {W : Stages} (n : Nat) (hW : Q W) (hF : s.frame.Akin hidden swaps W F) :
    AttainsAt hidden swaps Q s F (Exec.charge n) (Exec.charge n) := by
  unfold AttainsAt
  rw [Exec.charge_apply]
  by_cases hn : s.fuel < n
  · rw [if_pos hn]
    exact .inl ⟨{ s with fuel := 0 }, rfl, rfl⟩
  · rw [if_neg hn]
    refine .inr ⟨W, F, hW, hF, fun spare => ⟨spare + n, fun fuel hfuel => ?_⟩⟩
    exact ⟨fuel - n, by omega, Exec.charge_under (by omega) s F⟩

/-- One step after another, or after an exception. -/
theorem catching {x y : Exec α} {f k : α → Exec β} {handle handle' : Exception → Exec β}
    (h : AttainsAt hidden swaps Q s F x y)
    (hf : ∀ W t F' a, x s = .ok a t → Q W → t.frame.Akin hidden swaps W F' →
      AttainsAt hidden swaps R t F' (f a) (k a))
    (hhandle : ∀ W t F' e, x s = .error (.raise e) t → Q W → t.frame.Akin hidden swaps W F' →
      AttainsAt hidden swaps R t F' (handle e) (handle' e))
    (hQ : ∀ W, Q W → R W) :
    AttainsAt hidden swaps R s F (Machine.catching x f handle) (Machine.catching y k handle') := by
  obtain ⟨t, hx, ht⟩ | ⟨W₁, F₁, hW₁, hF₁, hample⟩ := h
  · exact .inl ⟨t, by rw [Machine.catching, hx], ht⟩
  have hgo {z z' : Exec β} {t : State} (hz : AttainsAt hidden swaps R t F₁ z z')
      (hx : Machine.catching x f handle s = z t)
      (hy : ∀ u left, y u = Ending.map (·.under F₁ left) (x s) →
        Machine.catching y k handle' u = z' (t.under F₁ left)) :
      AttainsAt hidden swaps R s F (Machine.catching x f handle)
        (Machine.catching y k handle') := by
    unfold AttainsAt
    rw [hx]
    refine hz.imp id ?_
    rintro ⟨W₂, F₂, hW₂, hF₂, hrest⟩
    exact ⟨W₂, F₂, hW₂, hF₂, hample.next hrest hy⟩
  cases hx : x s with
  | ok a t =>
    rw [hx] at hF₁
    refine hgo (hf W₁ t F₁ a hx hW₁ hF₁) (by rw [Machine.catching, hx]) fun u left hu => ?_
    rw [Machine.catching, hu, hx]
    rfl
  | error e t =>
    rw [hx] at hF₁
    cases e with
    | raise e =>
      refine hgo (hhandle W₁ t F₁ e hx hW₁ hF₁) (by rw [Machine.catching, hx]) fun u left hu => ?_
      rw [Machine.catching, hu, hx]
      rfl
    | halt e =>
      have hstop : AttainsAt hidden swaps R t F₁ (throw (.halt e) : Exec β) (throw (.halt e)) :=
        .inr ⟨W₁, F₁, hQ W₁ hW₁, hF₁, .here _ fun _ => rfl⟩
      refine hgo hstop (by rw [Machine.catching, hx]; rfl) fun u left hu => ?_
      rw [Machine.catching, hu, hx]
      rfl

/-- Steps in a state that is changed beforehand and changed back. -/
theorem changed {x y : Exec α} (f f' : State → State) (k k' : Frame → Frame)
    (h : AttainsAt hidden swaps Q (f s) (k F) x y)
    (hf : ∀ s F fuel, f (State.under s F fuel) = (f s).under (k F) fuel)
    (hf' : ∀ s F fuel, f' (State.under s F fuel) = (f' s).under (k' F) fuel)
    (hfuel : ∀ s, (f' s).fuel = s.fuel)
    (hout : ∀ W s F, Frame.Akin hidden swaps W (State.frame s) F →
      Frame.Akin hidden swaps W (f' s).frame (k' F)) :
    AttainsAt hidden swaps Q s F (fun s => Ending.map f' (x (f s)))
      (fun s => Ending.map f' (y (f s))) := by
  obtain ⟨t, hx, ht⟩ | ⟨W', F', hW', hF', hample⟩ := h
  · unfold AttainsAt
    dsimp only
    rw [hx]
    exact .inl ⟨f' t, rfl, (hfuel t).trans ht⟩
  · refine .inr ⟨W', k' F', hW', ?_, hample.changed f f' k k' (hf s) hf'⟩
    dsimp only
    cases hx : x (f s) <;> rw [hx] at hF' <;> exact hout W' _ F' hF'

/-- Before a `finally` block. -/
theorem closing {x y z z' : Exec Flow} (h : AttainsAt hidden swaps Q s F x y) (hpaid : Paid z)
    (hz : ∀ W F', Q W → (Ending.state (x s)).frame.Akin hidden swaps W F' →
      AttainsAt hidden swaps R (Ending.state (x s)) F' z z') :
    AttainsAt hidden swaps R s F (Machine.closing (some z) x) (Machine.closing (some z') y) := by
  rw [show Machine.closing (some z) x = _ from funext (closing_apply (some z) x),
    show Machine.closing (some z') y = _ from funext (closing_apply (some z') y)]
  obtain ⟨rest, hpaid⟩ := hpaid
  obtain ⟨t, hx, ht⟩ | ⟨W₁, F₁, hW₁, hF₁, hample⟩ := h
  · -- The block cannot take a step without fuel.
    refine .inl ⟨{ t with fuel := 0 }, ?_, rfl⟩
    dsimp only
    rw [hx, Ending.finish, Ending.state, hpaid, Exec.bind_apply, Exec.charge_apply,
      if_pos (by omega)]
  · unfold AttainsAt
    dsimp only
    rw [Ending.finish]
    obtain ⟨u, hu, hspent⟩ | ⟨W₂, F₂, hW₂, hF₂, hrest⟩ := hz W₁ F₁ hW₁ hF₁
    · rw [hu]
      exact .inl ⟨u, rfl, hspent⟩
    · refine .inr ⟨W₂, F₂, hW₂, ?_, ?_⟩
      · rcases hzr : z (Ending.state (x s)) with ⟨_ | _ | _ | _, u⟩ | ⟨e, u⟩ <;>
          rw [hzr] at hF₂
        · cases x s <;> exact hF₂
        all_goals exact hF₂
      · intro spare
        obtain ⟨need₂, hneed₂⟩ := hrest spare
        obtain ⟨need₁, hneed₁⟩ := hample need₂
        refine ⟨need₁, fun fuel hfuel => ?_⟩
        obtain ⟨left₁, hleft₁, hy⟩ := hneed₁ fuel hfuel
        obtain ⟨left₂, hleft₂, hlast⟩ := hneed₂ left₁ hleft₁
        refine ⟨left₂, hleft₂, ?_⟩
        have hstate : Ending.state (Ending.map (·.under F₁ left₁) (x s)) =
            (Ending.state (x s)).under F₁ left₁ := by cases x s <;> rfl
        show Ending.finish (some z') (y (s.under F fuel)) = _
        rw [hy, Ending.finish, hstate, hlast]
        rcases z (Ending.state (x s)) with ⟨_ | _ | _ | _, u⟩ | ⟨e, u⟩
        · cases x s <;> rfl
        all_goals rfl

end AttainsAt

namespace Attains

theorem ret (a : α) : Attains hidden swaps env g (pure a) (pure a) :=
  fun W _ F _ hF => .inr ⟨W, F, List.prefix_rfl, hF, .here _ fun _ => rfl⟩

theorem throw (e : Signal) :
    Attains hidden swaps env g (throw e : Exec α) (throw e : Exec α) :=
  fun W _ F _ hF => .inr ⟨W, F, List.prefix_rfl, hF, .here _ fun _ => rfl⟩

theorem exhaust : Attains hidden swaps env g (Exec.exhaust : Exec α) Exec.exhaust :=
  fun _ s _ _ _ => .inl ⟨{ s with fuel := 0 }, rfl, rfl⟩

/-- What holds wherever the steps run holds inside a scope. -/
theorem anywhere {x y : Exec α} (h : Attains hidden swaps none .apart x y) :
    Attains hidden swaps env g x y :=
  fun W s F _ hF => h W s F rfl hF

theorem catching {x y : Exec α} {f k : α → Exec β} {handle handle' : Exception → Exec β}
    (h : Attains hidden swaps env g x y) (hf : ∀ a, Attains hidden swaps env g (f a) (k a))
    (hhandle : ∀ e, Attains hidden swaps env g (handle e) (handle' e)) :
    Attains hidden swaps env g (Machine.catching x f handle) (Machine.catching y k handle') := by
  intro W s F hat hF
  refine AttainsAt.catching (h W s F hat hF) (fun W' t F' a _ hW' hF' => ?_)
    (fun W' t F' e _ hW' hF' => ?_) fun _ => id
  · exact (hf a W' t F' (hat.mono hW') hF').weaken fun _ => hW'.trans
  · exact (hhandle e W' t F' (hat.mono hW') hF').weaken fun _ => hW'.trans

theorem bind {x y : Exec α} {f k : α → Exec β} (h : Attains hidden swaps env g x y)
    (hf : ∀ a, Attains hidden swaps env g (f a) (k a)) :
    Attains hidden swaps env g (x >>= f) (y >>= k) := by
  rw [bind_eq_catching, bind_eq_catching]
  exact h.catching hf fun e => throw (.raise e)

theorem plain {x : Exec α} (h : Plain x) : Attains hidden swaps env g x x := by
  intro W s F _ hF
  have hkept := h.framed.kept s
  exact .inr ⟨W, F, List.prefix_rfl, hkept ▸ hF, .here _ (h.under hF.names)⟩

theorem charge (n : Nat) : Attains hidden swaps env g (Exec.charge n) (Exec.charge n) :=
  fun _ _ _ _ hF => AttainsAt.charge n List.prefix_rfl hF

variable (hidden swaps env g) in
/-- Attaining gets along with work on values. -/
abbrev conduct : Conduct where
  Rel := Attains hidden swaps env g
  plain := plain
  bind := bind
  charge := charge

/-- Go on with something that belongs neither to the frame nor to the fuel. -/
theorem read {γ : Type} {f : State → γ} {j k : γ → Exec α}
    (hf : ∀ s F fuel, f (State.under s F fuel) = f s)
    (h : ∀ c, Attains hidden swaps env g (j c) (k c)) :
    Attains hidden swaps env g (get >>= fun s => j (f s)) (get >>= fun s => k (f s)) := by
  intro W s F hat hF
  show Spent (j (f s) s) ∨ _
  refine (h (f s) W s F hat hF).imp id ?_
  rintro ⟨W', F', hW', hF', hample⟩
  refine ⟨W', F', hW', hF', fun spare => ?_⟩
  obtain ⟨need, hneed⟩ := hample spare
  refine ⟨need, fun fuel hfuel => ?_⟩
  obtain ⟨left, hleft, hy⟩ := hneed fuel hfuel
  refine ⟨left, hleft, ?_⟩
  show k (f (s.under F fuel)) (s.under F fuel) = _
  rw [hf]
  exact hy

/-- A change of the frame alone. -/
theorem reframe (f : Frame → Frame)
    (h : ∀ W F G, W.At env g → Frame.Akin hidden swaps W F G →
      Frame.Akin hidden swaps W (f F) (f G)) :
    Attains hidden swaps env g (modify fun s => s.withFrame (f s.frame) : Exec Unit)
      (modify fun s => s.withFrame (f s.frame)) :=
  fun W _ F hat hF => .inr ⟨W, f F, List.prefix_rfl, h W _ F hat hF, .here _ fun _ => rfl⟩

/-! ## Names -/

variable {n : String}

theorem lookup (hn : g.Knows hidden n) :
    Attains hidden swaps env g (Exec.lookup env n) (Exec.lookup env n) := by
  intro W s F hat hF
  have hsize : F.scopes.size = s.scopes.size := hF.right.trans hF.left.symm
  have hglobals : s.globals = F.globals := hF.globals
  have hlocal := hF.lookupLocal_eq (s.scopes.size + 1) hat hn
  refine .inr ⟨W, F, List.prefix_rfl, ?_, .here _ fun fuel => ?_⟩
  · unfold Exec.lookup
    dsimp only
    split <;> exact hF
  · unfold Exec.lookup
    dsimp only [State.under, State.withFrame]
    rw [hsize, ← hglobals, ← show Exec.lookupLocal s.scopes n _ env = _ from hlocal]
    split <;> rfl

theorem bindGlobal (n : String) (v : Value) :
    Attains hidden swaps env g (Exec.bindGlobal n v) (Exec.bindGlobal n v) :=
  reframe (fun F => { F with globals := F.globals.set n v })
    fun _ _ _ _ h => { h with globals := congrArg (Bindings.set n v) h.globals }

end Attains

/-- Binding a name in a scope that is there. -/
theorem Exec.bind_some_apply {s : State} {i : Nat} {a : Scope} (ha : s.scopes[i]? = some a)
    (n : String) (v : Value) :
    Exec.bind (some i) n v s =
      (if n ∈ a.globals then Exec.bindGlobal n v
      else if n ∈ a.nonlocals then
        Exec.bindIn ((Exec.binder? s.scopes n (s.scopes.size + 1) a.parent).getD i) n v
      else Exec.bindIn i n v : Exec Unit) s := by
  show (if (s.scopes[i]?.getD {}).globals.contains n then Exec.bindGlobal n v
    else if (s.scopes[i]?.getD {}).nonlocals.contains n then
      Exec.bindIn ((Exec.binder? s.scopes n (s.scopes.size + 1)
        (s.scopes[i]?.getD {}).parent).getD i) n v
    else Exec.bindIn i n v : Exec Unit) s = _
  simp only [ha, Option.getD_some, List.contains_iff_mem]

namespace Attains

variable {n : String}

theorem bindName (hn : g.Takes hidden n) (v : Value) :
    Attains hidden swaps env g (Exec.bind env n v) (Exec.bind env n v) := by
  cases env with
  | none => exact bindGlobal n v
  | some i =>
    intro W s F hat hF
    obtain ⟨a, b, ha, hb, hab⟩ := hF.scopes i g hat
    obtain ⟨p, hp, hwithin⟩ := hab.outer
    have hsize : F.scopes.size = s.scopes.size := hF.right.trans hF.left.symm
    have houter := hn.knows.outer hwithin
    have hbinder := hF.binder?_eq (s.scopes.size + 1) hp houter
    have hknown : ∀ p, W[i]? = some p → p.Takes hidden n := by
      intro p hp
      cases hp.symm.trans hat
      exact hn
    -- Both runs bind the name in one and the same place.
    obtain ⟨place, hleft, hright, hplace⟩ : ∃ place : Exec Unit,
        Exec.bind (some i) n v s = place s ∧
        (∀ fuel, Exec.bind (some i) n v (s.under F fuel) = place (s.under F fuel)) ∧
        ∃ F', (Ending.state (place s)).frame.Akin hidden swaps W F' ∧ Ample place s F F' (place s) := by
      have hbind (fuel : Nat) := Exec.bind_some_apply (s := s.under F fuel) hb n v
      rw [← hab.globals, ← hab.nonlocals, ← hab.parent] at hbind
      refine ⟨_, Exec.bind_some_apply ha n v, fun fuel => (hbind fuel).trans ?_, ?_⟩
      · show (if n ∈ a.globals then _ else if n ∈ a.nonlocals then
          Exec.bindIn ((Exec.binder? F.scopes n (F.scopes.size + 1) a.parent).getD i) n v
          else _ : Exec Unit) _ = _
        rw [hsize, ← show Exec.binder? s.scopes n _ a.parent = _ from hbinder]
      · split
        · exact ⟨{ F with globals := F.globals.set n v },
            { hF with globals := congrArg (Bindings.set n v) hF.globals }, .here _ fun _ => rfl⟩
        · split
          · refine ⟨_, hF.setVar ?_ v, .here _ fun _ => rfl⟩
            cases hj : Exec.binder? s.scopes n (s.scopes.size + 1) a.parent with
            | some j => exact hF.takes_of_binder? _ hp houter hj
            | none => exact hknown
          · exact ⟨_, hF.setVar hknown v, .here _ fun _ => rfl⟩
    obtain ⟨F', hF', hample⟩ := hplace
    unfold AttainsAt
    rw [hleft]
    refine .inr ⟨W, F', List.prefix_rfl, hF', fun spare => ?_⟩
    obtain ⟨need, hneed⟩ := hample spare
    exact ⟨need, fun fuel hfuel => by rw [hright]; exact hneed fuel hfuel⟩

theorem declareGlobals {names : List String} (h : ∀ n ∈ names, n ∉ g.reserved hidden) :
    Attains hidden swaps env g (Exec.declareGlobals env names) (Exec.declareGlobals env names) := by
  cases env with
  | none => exact ret ()
  | some i =>
    refine reframe
      (fun F => { F with scopes := F.scopes.modify i fun scope =>
        { scope with globals := scope.globals ++ names } })
      fun W F G hat hFG => hFG.modifyScope i fun g' a b hi hab => ?_
    cases hi.symm.trans hat
    refine { hab with globals := congrArg (· ++ names) hab.globals, own := fun n hn => ?_ }
    obtain ⟨hglobals, hnonlocals⟩ := hab.own n hn
    refine ⟨?_, hnonlocals⟩
    rw [List.mem_append]
    exact not_or.mpr ⟨hglobals, fun hmem => h n hmem hn⟩

theorem declareNonlocals {names : List String} (h : ∀ n ∈ names, n ∉ g.reserved hidden) :
    Attains hidden swaps env g (Exec.declareNonlocals env names)
      (Exec.declareNonlocals env names) := by
  cases env with
  | none => exact ret ()
  | some i =>
    refine reframe
      (fun F => { F with scopes := F.scopes.modify i fun scope =>
        { scope with nonlocals := scope.nonlocals ++ names } })
      fun W F G hat hFG => hFG.modifyScope i fun g' a b hi hab => ?_
    cases hi.symm.trans hat
    refine { hab with nonlocals := congrArg (· ++ names) hab.nonlocals, own := fun n hn => ?_ }
    obtain ⟨hglobals, hnonlocals⟩ := hab.own n hn
    refine ⟨hglobals, ?_⟩
    rw [List.mem_append]
    exact not_or.mpr ⟨hnonlocals, fun hmem => h n hmem hn⟩

/-- Go on in a new scope. -/
theorem newScope {g' : Stage} (hopens : g'.Opens g) (vars : Bindings) {f k : Nat → Exec α}
    (h : ∀ i, Attains hidden swaps (some i) g' (f i) (k i)) :
    Attains hidden swaps env g (Exec.newScope { vars, parent := env } >>= f)
      (Exec.newScope { vars, parent := env } >>= k) := by
  intro W s F hat hF
  have hpush := hF.openScope hat hopens vars
  have hsize : F.scopes.size = s.scopes.size := hF.right.trans hF.left.symm
  have hnew : Stages.At (W ++ [g']) (some s.scopes.size) g' := by
    show (W ++ [g'])[s.scopes.size]? = some g'
    rw [show s.scopes.size = W.length from hF.left]
    exact List.getElem?_concat_length
  show Spent (f s.scopes.size { s with scopes := s.scopes.push { vars, parent := env } }) ∨ _
  refine (h s.scopes.size (W ++ [g']) _ _ hnew hpush).imp id ?_
  rintro ⟨W', F', hW', hF', hample⟩
  refine ⟨W', F', (List.prefix_append W [g']).trans hW', hF', fun spare => ?_⟩
  obtain ⟨need, hneed⟩ := hample spare
  refine ⟨need, fun fuel hfuel => ?_⟩
  obtain ⟨left, hleft, hy⟩ := hneed fuel hfuel
  refine ⟨left, hleft, ?_⟩
  show k F.scopes.size _ = _
  rw [hsize]
  exact hy

/-! ## Functions -/

theorem newClosure {c d : Closure}
    (h : ∀ W : Stages, W.At env g → c.Akin hidden swaps W d) :
    Attains hidden swaps env g (Exec.newClosure c) (Exec.newClosure d) := by
  intro W s F hat hF
  have hsize : F.closures.size = s.heap.closures.size := by
    have hlength : s.heap.closures.toList.length = F.closures.toList.length := hF.closures.length_eq
    simpa using hlength.symm
  refine .inr ⟨W, { F with closures := F.closures.push d }, List.prefix_rfl,
    hF.pushClosure (h W hat), .here _ fun fuel => ?_⟩
  show EStateM.Result.ok (Value.function F.closures.size) _ = _
  rw [hsize]
  rfl

/-- The functions at one place: both are there, or neither is. -/
theorem closures_cases {W : Stages} {cs ds : List Closure}
    (h : List.Forall₂ (Closure.Akin hidden swaps W) cs ds) (r : Ref) :
    cs[r]? = none ∧ ds[r]? = none ∨
      ∃ c d, cs[r]? = some c ∧ ds[r]? = some d ∧ c.Akin hidden swaps W d := by
  induction h generalizing r with
  | nil => exact .inl ⟨rfl, rfl⟩
  | cons h _ ih =>
    cases r with
    | zero => exact .inr ⟨_, _, rfl, rfl, h⟩
    | succ r => exact ih r

theorem withClosure_under (r : Ref) (k : Closure → Exec α) (other : Exec α) (s : State) (F : Frame)
    (fuel : Nat) : withClosure r k other (s.under F fuel) =
      match F.closures[r]? with
      | some d => k d (s.under F fuel)
      | none => other (s.under F fuel) :=
  withClosure_apply r k other (s.under F fuel)

theorem onClosure {r : Ref} {f k : Closure → Exec α} {other : Exec α}
    (h : ∀ c d g, c.name = d.name → c.params = d.params → c.env = d.env →
      Code.Akin hidden swaps g c.code d.code → Attains hidden swaps c.env g (f c) (k d))
    (hother : Attains hidden swaps env g other other) :
    Attains hidden swaps env g (withClosure r f other) (withClosure r k other) := by
  intro W s F hat hF
  simp only [AttainsAt, Ample, withClosure_under]
  rw [withClosure_apply, ← Array.getElem?_toList, ← Array.getElem?_toList]
  obtain ⟨hc, hd⟩ | ⟨c, d, hc, hd, hcd⟩ := closures_cases hF.closures r
  · rw [show s.heap.closures.toList[r]? = none from hc, hd]
    exact hother W s F hat hF
  · rw [show s.heap.closures.toList[r]? = some c from hc, hd]
    obtain ⟨g', hat', hcode⟩ := hcd.made
    exact h c d g' hcd.name hcd.params hcd.env hcode W s F hat' hF

/-! ## Calls, loops and guarded blocks -/

theorem limiting {x y : Exec α} (h : Attains hidden swaps env g x y) :
    Attains hidden swaps env g (limited x) (limited y) := by
  refine read (f := fun s => (s.maxDepth, s.depth))
    (j := fun c => if c.1 ≤ c.2 then MonadExcept.throw (.halt (.depthExceeded c.1)) else x)
    (k := fun c => if c.1 ≤ c.2 then MonadExcept.throw (.halt (.depthExceeded c.1)) else y)
    (fun _ _ _ => rfl) fun c => ?_
  split
  · exact throw _
  · exact h

theorem tooDeep : Attains hidden swaps env g (Machine.tooDeep : Exec α) Machine.tooDeep :=
  read (f := State.maxDepth) (j := fun depth => MonadExcept.throw (.halt (.depthExceeded depth)))
    (k := fun depth => MonadExcept.throw (.halt (.depthExceeded depth))) (fun _ _ _ => rfl)
    fun _ => throw _

/-- Steps that attain each other do so in a state that is changed beforehand and changed back. -/
theorem changed {x y : Exec α} (f f' : State → State) (k k' : Frame → Frame)
    (h : Attains hidden swaps env g x y)
    (hf : ∀ s F fuel, f (State.under s F fuel) = (f s).under (k F) fuel)
    (hf' : ∀ s F fuel, f' (State.under s F fuel) = (f' s).under (k' F) fuel)
    (hfuel : ∀ s, (f' s).fuel = s.fuel)
    (hin : ∀ W s F, Frame.Akin hidden swaps W (State.frame s) F →
      Frame.Akin hidden swaps W (f s).frame (k F))
    (hout : ∀ W s F, Frame.Akin hidden swaps W (State.frame s) F →
      Frame.Akin hidden swaps W (f' s).frame (k' F)) :
    Attains hidden swaps env g (fun s => Ending.map f' (x (f s)))
      (fun s => Ending.map f' (y (f s))) :=
  fun W s F hat hF =>
    AttainsAt.changed f f' k k' (h W (f s) (k F) hat (hin W s F hF)) hf hf' hfuel hout

theorem deepening {x y : Exec α} (h : Attains hidden swaps env g x y) :
    Attains hidden swaps env g (deeper x) (deeper y) := by
  rw [show deeper x = _ from funext (deeper_apply x), show deeper y = _ from funext (deeper_apply y)]
  exact changed (fun t => { t with depth := t.depth + 1 }) (fun t => { t with depth := t.depth - 1 })
    id id h (fun _ _ _ => rfl) (fun _ _ _ => rfl) (fun _ => rfl) (fun _ _ _ h => h) fun _ _ _ h => h

theorem handling {x y : Exec Flow} (e : Exception) (h : Attains hidden swaps env g x y) :
    Attains hidden swaps env g (whileHandling e x) (whileHandling e y) := by
  rw [show whileHandling e x = _ from funext (whileHandling_apply e x),
    show whileHandling e y = _ from funext (whileHandling_apply e y)]
  refine changed (fun t => { t with handling := e :: t.handling })
    (fun t => { t with handling := t.handling.tail }) (fun F => { F with handling := e :: F.handling })
    (fun F => { F with handling := F.handling.tail }) h (fun _ _ _ => rfl) (fun _ _ _ => rfl)
    (fun _ => rfl) ?_ ?_
  · exact fun W s F h => { h with handling := congrArg (e :: ·) h.handling }
  · exact fun W s F h => { h with handling := congrArg List.tail h.handling }

theorem reraise :
    Attains hidden swaps env g
      (do match (← get).handling with
        | e :: _ => MonadExcept.throw (.raise e)
        | [] => MonadExcept.throw (.error .runtime "No active exception to reraise") : Exec α)
      (do match (← get).handling with
        | e :: _ => MonadExcept.throw (.raise e)
        | [] => MonadExcept.throw (.error .runtime "No active exception to reraise") : Exec α) := by
  intro W s F _ hF
  have hhandling : s.handling = F.handling := hF.handling
  refine .inr ⟨W, F, List.prefix_rfl, ?_, .here _ fun fuel => ?_⟩
  · show (Ending.state ((match s.handling with
      | e :: _ => MonadExcept.throw (.raise e)
      | [] => MonadExcept.throw (.error .runtime "No active exception to reraise") : Exec α) s)).frame.Akin
        hidden swaps W F
    cases s.handling <;> exact hF
  · show (match F.handling with
      | e :: _ => MonadExcept.throw (.raise e)
      | [] => MonadExcept.throw (.error .runtime "No active exception to reraise") : Exec α)
        (s.under F fuel) = Ending.map _ ((match s.handling with
      | e :: _ => MonadExcept.throw (.raise e)
      | [] => MonadExcept.throw (.error .runtime "No active exception to reraise") : Exec α) s)
    rw [← hhandling]
    cases s.handling <;> rfl

theorem forItems {body body' : Value → Exec Flow}
    (h : ∀ v, Attains hidden swaps env g (body v) (body' v)) (items : List Value) :
    Attains hidden swaps env g (forItems body items) (forItems body' items) := by
  induction items with
  | nil => exact ret none
  | cons x xs ih =>
    rw [Machine.forItems, Machine.forItems]
    refine bind (h x) fun flow => ?_
    split
    · exact ret _
    · exact ih

theorem whileHolds {test test' : Exec Bool} {body body' : Exec Flow}
    (htest : Attains hidden swaps env g test test') (hbody : Attains hidden swaps env g body body')
    (turns : Nat) :
    Attains hidden swaps env g (whileHolds test body turns) (whileHolds test' body' turns) := by
  induction turns with
  | zero => exact exhaust
  | succ turns ih =>
    rw [Machine.whileHolds, Machine.whileHolds]
    refine bind htest fun holds => ?_
    split
    · refine bind hbody fun flow => ?_
      split
      · exact ret _
      · exact ih
    · exact ret _

end Attains

/-- More turns make no difference to a loop that does not run out of fuel. -/
theorem whileHolds_mono {test : Exec Bool} {body : Exec Flow} {n n' : Nat} (hn : n ≤ n') {s : State}
    (h : ¬ Spent (whileHolds test body n s)) :
    whileHolds test body n' s = whileHolds test body n s := by
  induction n generalizing n' s with
  | zero => exact absurd ⟨{ s with fuel := 0 }, rfl, rfl⟩ h
  | succ n ih =>
    obtain ⟨n', rfl⟩ := Nat.exists_eq_add_of_le' (Nat.le_trans (Nat.le_add_left 1 n) hn)
    rw [whileHolds, Exec.bind_apply] at h ⊢
    rw [whileHolds, Exec.bind_apply]
    cases ht : test s with
    | error e t => rfl
    | ok holds t =>
      rw [ht] at h
      dsimp only at h ⊢
      cases holds with
      | false => rfl
      | true =>
        simp only [if_true] at h ⊢
        rw [Exec.bind_apply] at h ⊢
        rw [Exec.bind_apply]
        cases hb : body t with
        | error e u => rfl
        | ok flow u =>
          rw [hb] at h
          dsimp only at h ⊢
          cases hexit : flow.exit? with
          | some exit => rfl
          | none =>
            rw [hexit] at h
            exact ih (by omega) h

/-- A loop has as many turns as there is fuel, which is enough if it is for fewer turns. -/
theorem Ample.repeating {test test' : Exec Bool} {body body' : Exec Flow} {s : State} {F F' : Frame}
    (h : Ample (whileHolds test' body' (s.fuel + 1)) s F F' (Machine.repeating test body s)) :
    Ample (Machine.repeating test' body') s F F' (Machine.repeating test body s) := by
  intro spare
  obtain ⟨need, hneed⟩ := h (spare + 1)
  refine ⟨max need s.fuel, fun fuel hfuel => ?_⟩
  obtain ⟨left, hleft, hy⟩ := hneed fuel (by omega)
  refine ⟨left, by omega, ?_⟩
  show whileHolds test' body' (fuel + 1) (s.under F fuel) = _
  rw [whileHolds_mono (n := s.fuel + 1) (by omega) ?_]
  · exact hy
  · -- Fuel is left, so the loop has not run out of it.
    rintro ⟨t, ht, hfuel⟩
    rw [hy] at ht
    cases hx : Machine.repeating test body s with
    | ok a u =>
      rw [hx] at ht
      cases ht
    | error e u =>
      rw [hx] at ht
      cases ht
      exact absurd hfuel (by show left ≠ 0; omega)

namespace Attains

theorem repeats {test test' : Exec Bool} {body body' : Exec Flow}
    (htest : Attains hidden swaps env g test test')
    (hbody : Attains hidden swaps env g body body') :
    Attains hidden swaps env g (repeating test body) (repeating test' body') := by
  intro W s F hat hF
  refine (whileHolds htest hbody (s.fuel + 1) W s F hat hF).imp id ?_
  rintro ⟨W', F', hW', hF', hample⟩
  exact ⟨W', F', hW', hF', .repeating hample⟩

/-- Before the `finally` block. -/
theorem closing {x y : Exec Flow} (h : Attains hidden swaps env g x y)
    {final final' : Option (Exec Flow)}
    (hfinal : ∀ z ∈ final, Paid z ∧ ∃ z' ∈ final', Attains hidden swaps env g z z')
    (hnone : final = none → final' = none) :
    Attains hidden swaps env g (closing final x) (closing final' y) := by
  cases final with
  | none =>
    rw [hnone rfl, show Machine.closing none x = x from funext (closing_apply none x),
      show Machine.closing none y = y from funext (closing_apply none y)]
    exact h
  | some z =>
    obtain ⟨hpaid, z', hz', hz⟩ := hfinal z rfl
    rw [Option.mem_def] at hz'
    subst hz'
    intro W s F hat hF
    refine AttainsAt.closing (h W s F hat hF) hpaid fun W' F' hW' hF' => ?_
    exact (hz W' _ F' (hat.mono hW') hF').weaken fun _ => hW'.trans

theorem guarding {body body' orelse orelse' : Exec Flow} {handle handle' : Exception → Exec Flow}
    {final final' : Option (Exec Flow)} (hbody : Attains hidden swaps env g body body')
    (horelse : Attains hidden swaps env g orelse orelse')
    (hhandle : ∀ e, Attains hidden swaps env g (handle e) (handle' e))
    (hfinal : ∀ z ∈ final, Paid z ∧ ∃ z' ∈ final', Attains hidden swaps env g z z')
    (hnone : final = none → final' = none) :
    Attains hidden swaps env g (guarded body orelse handle final)
      (guarded body' orelse' handle' final') := by
  rw [guarded_eq_catching, guarded_eq_catching]
  refine hbody.catching (fun flow => ?_) fun e => (hhandle e).closing hfinal hnone
  cases flow with
  | next => exact horelse.closing hfinal hnone
  | _ => exact (ret _).closing hfinal hnone

end Attains

end Concord.Machine
