import Concord.Machine.Call
import Concord.Proofs.Machine.Budget
import Concord.Proofs.Machine.Nesting

/-!
# Calls back

Predefined functions and methods call back with fewer arguments than they were given themselves, or, by
a key function, with a single one. A call with a single argument and no key function leads to no other
call back. So calls back are nested at most as often as the arguments allow (`callbacks`), and the
bound that `callBy` puts on the nesting is never met: whatever is done there, the call is the same.

Main statements:

* `native_congr`, `callMethod_congr`: only calls back with few arguments matter.
* `callByFrom_eq`: a call does not depend on what is done where the nesting ends.
-/

namespace Concord.Machine

variable {α β : Type} {apply apply' : Apply} {args : List Value} {keywords : Keywords}

/-- How deep the calls back are nested that a call with these arguments can lead to. -/
def callbacks (args : List Value) (keywords : Keywords) : Nat :=
  max (args.length - 1) (min keywords.length 1)

theorem callbacks_pos {k : String × Value} {ks : Keywords} : 0 < callbacks args (k :: ks) := by
  unfold callbacks
  rw [List.length_cons]
  omega

/-- Two ways of calling back agree on all calls that lead to less than `n` nested calls back. -/
def AgreeBelow (n : Nat) (apply apply' : Apply) : Prop :=
  ∀ f xs, callbacks xs [] < n → apply f xs = apply' f xs

theorem AgreeBelow.single {n : Nat} (h : AgreeBelow n apply apply') (hn : 0 < n) (f x : Value) :
    apply f [x] = apply' f [x] := h f [x] hn

/-! ## Lists of steps -/

theorem mapM_congr {f g : α → Exec β} {as : List α} (h : ∀ a ∈ as, f a = g a) :
    as.mapM f = as.mapM g := by
  induction as with
  | nil => rfl
  | cons a as ih =>
    rw [List.mapM_cons, List.mapM_cons, h a List.mem_cons_self,
      ih fun b hb => h b (List.mem_cons_of_mem a hb)]

/-- Steps taken for every item leave as many results, and only these reach what comes next. -/
theorem mapM_bind_congr {γ : Type} {f : α → Exec β} {as : List α} {g g' : List β → Exec γ}
    (h : ∀ bs, bs.length = as.length → g bs = g' bs) : as.mapM f >>= g = as.mapM f >>= g' := by
  induction as generalizing g g' with
  | nil => exact h [] rfl
  | cons a as ih =>
    rw [List.mapM_cons, bind_assoc, bind_assoc]
    apply congrArg (f a >>= ·)
    funext b
    rw [bind_assoc, bind_assoc]
    apply ih
    intro bs hbs
    rw [pure_bind, pure_bind]
    exact h (b :: bs) (congrArg (· + 1) hbs)

theorem length_of_mem_rows {columns : List (List Value)} {row : List Value}
    (h : row ∈ rows columns) : row.length = columns.length := by
  obtain ⟨i, -, rfl⟩ := List.mem_map.mp h
  exact List.length_map _

/-! ## Predefined functions and methods -/

theorem withKeys_congr (h : ∀ f x, apply f [x] = apply' f [x]) (key : Option Value)
    (items : List Value) : withKeys apply key items = withKeys apply' key items := by
  cases key with
  | none => rfl
  | some f =>
    refine mapM_congr fun x _ => ?_
    rw [h f x]

theorem orderedCall_congr (h : AgreeBelow (callbacks args keywords) apply apply') (b : Builtin) :
    orderedCall apply b args keywords = orderedCall apply' b args keywords := by
  cases keywords with
  | nil => rfl
  | cons k ks =>
    have hkeys := withKeys_congr (h.single callbacks_pos)
    unfold orderedCall
    simp only [hkeys]

theorem plainCall_congr (h : AgreeBelow (callbacks args []) apply apply') (b : Builtin) :
    plainCall apply b args = plainCall apply' b args := by
  cases b with
  | map =>
    match args, h with
    | [], _ | [_], _ => rfl
    | f :: c :: cs, h =>
      show ((c :: cs).mapM iterate >>= _) = ((c :: cs).mapM iterate >>= _)
      apply mapM_bind_congr
      intro columns hcolumns
      -- each row has as many items as there are columns, so one less than there are arguments
      have hrow : ∀ row ∈ rows columns, apply f row = apply' f row := by
        intro row hmem
        apply h f row
        have hlength := (length_of_mem_rows hmem).trans hcolumns
        simp only [callbacks, List.length_cons, List.length_nil] at hlength ⊢
        omega
      rw [mapM_congr hrow]
  | filter =>
    by_cases htwo : args.length = 2
    · have hone : 0 < callbacks args [] := by
        unfold callbacks
        omega
      unfold plainCall
      simp only [h.single hone]
    · -- any other number of arguments is refused before an item is looked at
      have hrefused : arity Builtin.filter.label args 2 2 = .error (.error .type
          s!"{Builtin.filter.label}() takes {2} to {2} arguments ({args.length} given)") :=
        if_neg fun hlength => htwo (Nat.le_antisymm hlength.2 hlength.1)
      unfold plainCall
      simp only [hrefused]
      rfl
  | min | max | sorted => exact orderedCall_congr h _
  | _ => rfl

theorem native_congr (h : AgreeBelow (callbacks args keywords) apply apply') (b : Builtin) :
    native apply b args keywords = native apply' b args keywords := by
  unfold native
  split
  · rw [orderedCall_congr h]
  · rw [orderedCall_congr h]
  · rw [orderedCall_congr h]
  · cases keywords with
    | nil => rw [plainCall_congr h]
    | cons k ks => rfl

theorem callMethod_congr (h : AgreeBelow (callbacks args keywords) apply apply') (receiver : Value)
    (name : String) :
    callMethod apply receiver name args keywords = callMethod apply' receiver name args keywords := by
  cases receiver with
  | list r =>
    cases keywords with
    | nil => rfl
    | cons k ks =>
      have hkeys := withKeys_congr (h.single callbacks_pos)
      unfold callMethod sortList
      simp only [hkeys]
  | _ => rfl

/-! ## Calls -/

variable {onClosure : Closure → List Value → Keywords → Exec Value}

/-- Call a value as `callBy` does, with `last` for the calls where the nesting ends. -/
def callByFrom (last : Call) (onClosure : Closure → List Value → Keywords → Exec Value) : Nat → Call
  | 0, callee, args, keywords => last callee args keywords
  | nesting + 1, callee, args, keywords =>
    let apply : Apply := fun f xs => callByFrom last onClosure nesting f xs []
    match callee with
    | .builtin b => native apply b args keywords
    | .method receiver name => callMethod apply receiver name args keywords
    -- all others do not call back
    | callee => callBy onClosure 1 callee args keywords

/-- With room for the calls back that a call can lead to, it does not matter how much room there is
and what is done beyond it. -/
theorem callByFrom_eq (last : Call) {n m : Nat} {callee : Value} (hn : callbacks args keywords < n)
    (hm : callbacks args keywords < m) :
    callByFrom last onClosure n callee args keywords = callBy onClosure m callee args keywords := by
  induction n generalizing m callee args keywords with
  | zero => exact absurd hn (Nat.not_lt_zero _)
  | succ n ih =>
    obtain ⟨m, rfl⟩ := Nat.exists_eq_add_one_of_ne_zero (Nat.ne_zero_of_lt hm)
    have happly : AgreeBelow (callbacks args keywords)
        (fun f xs => callByFrom last onClosure n f xs []) fun f xs => callBy onClosure m f xs [] :=
      fun f xs hless => ih (by omega) (by omega)
    cases callee with
    | builtin b => exact native_congr happly b
    | method receiver name => exact callMethod_congr happly receiver name
    | _ => rfl

end Concord.Machine

/-!
## How runs come to an end

The machine recurses along programs and lists, and outwards along scopes, of which there are finitely
many. Three more ways to recurse have no such structure to follow: calls, loops, and going down into
containers. Numbers bound them and make every function of the machine total, so the question is whether
a run ever meets these numbers.

* A call of a function of the program goes one level deeper, and is refused at the limit of the budget.
  So calls are the same whatever would be done beyond that many levels.
* Each test of a loop pays, and no step earns fuel. So loops are the same whatever would be done after
  more turns than there is fuel.
* Going down into a container costs no fuel and no level. It comes to an end if every way down does, and
  a program can build a list from which none does.

Main statements:

* `settled_callFrom`: calls do not depend on what is beyond the levels that are left.
* `whileFrom_eq`: loops do not depend on what is beyond the fuel.
* `execution_ends`: loading a module, calling its functions, and work on what they hand back.
* `invoke_endless`: a list that holds itself has no text.
-/

namespace Concord.Machine

variable {α β : Type}

/-! ### Steps only spend -/

/-- What one step can do to the clock: it may spend fuel, and comes back to its level. -/
structure State.Spends (s t : State) : Prop where
  fuel_le : t.fuel ≤ s.fuel
  maxDepth_eq : t.maxDepth = s.maxDepth
  depth_eq : t.depth = s.depth

theorem State.Spends.refl (s : State) : s.Spends s := ⟨Nat.le_refl _, rfl, rfl⟩

theorem State.Spends.trans {s t u : State} (hst : s.Spends t) (htu : t.Spends u) : s.Spends u where
  fuel_le := htu.fuel_le.trans hst.fuel_le
  maxDepth_eq := htu.maxDepth_eq.trans hst.maxDepth_eq
  depth_eq := htu.depth_eq.trans hst.depth_eq

/-- No more than so many levels are left in a state. -/
def State.Within (levels : Nat) (s : State) : Prop := s.maxDepth ≤ s.depth + levels

theorem State.Within.spend {levels : Nat} {s t : State} (hs : s.Within levels) (hst : s.Spends t) :
    t.Within levels := by
  unfold State.Within
  rw [hst.maxDepth_eq, hst.depth_eq]
  exact hs

/-- Two steps do the same where no more than so many levels are left, and they only spend. -/
def Settled (levels : Nat) (x y : Exec α) : Prop :=
  ∀ s : State, s.Within levels → x s = y s ∧ s.Spends (Ending.state (x s))

section

variable {levels : Nat}

theorem settled_bind {x y : Exec α} {f g : α → Exec β} (hxy : Settled levels x y)
    (hfg : ∀ a, Settled levels (f a) (g a)) : Settled levels (x >>= f) (y >>= g) := by
  intro s hs
  obtain ⟨heq, hspend⟩ := hxy s hs
  rw [Exec.bind_apply, Exec.bind_apply, ← heq]
  cases hx : x s with
  | ok a t =>
    rw [hx] at hspend
    obtain ⟨hnext, hmore⟩ := hfg a t (hs.spend hspend)
    exact ⟨hnext, hspend.trans hmore⟩
  | error e t =>
    rw [hx] at hspend
    exact ⟨rfl, hspend⟩

theorem settled_quiet {x : Exec α} (h : Quiet x) : Settled levels x x := by
  intro s _
  obtain ⟨hfuel, hmax, hdepth⟩ := Clock.mk.inj (h.clock s)
  exact ⟨rfl, Nat.le_of_eq hfuel, hmax, hdepth⟩

theorem settled_charge (n : Nat) : Settled levels (Exec.charge n) (Exec.charge n) := by
  intro s _
  refine ⟨rfl, ?_⟩
  rw [Exec.charge_apply]
  split
  · exact ⟨Nat.zero_le _, rfl, rfl⟩
  · exact ⟨Nat.sub_le _ _, rfl, rfl⟩

theorem settled_exhaust : Settled levels (Exec.exhaust : Exec α) Exec.exhaust :=
  fun _ _ => ⟨rfl, Nat.zero_le _, rfl, rfl⟩

theorem settled_withClosure (r : Ref) {f g : Closure → Exec α} {other : Exec α}
    (hfg : ∀ c, Settled levels (f c) (g c)) (hother : Quiet other) :
    Settled levels (withClosure r f other) (withClosure r g other) := by
  intro s hs
  rw [withClosure_apply, withClosure_apply]
  cases s.heap.closures[r]? with
  | none => exact settled_quiet hother s hs
  | some c => exact hfg c s hs

theorem settled_limited {x y : Exec α} (h : Settled levels x y) :
    Settled levels (limited x) (limited y) := by
  intro s hs
  rw [limited_apply, limited_apply]
  split
  · exact ⟨rfl, .refl s⟩
  · exact h s hs

/-- On the next level there is one level less left. -/
theorem settled_deeper {x y : Exec α} (h : Settled levels x y) :
    Settled (levels + 1) (deeper x) (deeper y) := by
  intro s hs
  have hs' : { s with depth := s.depth + 1 }.Within levels := by
    unfold State.Within at hs ⊢
    show s.maxDepth ≤ s.depth + 1 + levels
    omega
  obtain ⟨heq, hspend⟩ := h _ hs'
  rw [deeper_apply, deeper_apply, ← heq]
  refine ⟨rfl, ?_⟩
  cases hx : x { s with depth := s.depth + 1 } with
  | ok a t | error e t =>
    rw [hx] at hspend
    exact ⟨hspend.fuel_le, hspend.maxDepth_eq, congrArg (· - 1) hspend.depth_eq⟩

theorem Settled.of_succ {x y : Exec α} (h : Settled (levels + 1) x y) : Settled levels x y :=
  fun s hs => h s (Nat.le_succ_of_le hs)

theorem settled_whileHandling (e : Exception) {x y : Exec Flow} (h : Settled levels x y) :
    Settled levels (whileHandling e x) (whileHandling e y) := by
  intro s hs
  obtain ⟨heq, hspend⟩ := h { s with handling := e :: s.handling } hs
  rw [whileHandling_apply, whileHandling_apply, ← heq]
  refine ⟨rfl, ?_⟩
  cases hx : x { s with handling := e :: s.handling } with
  | ok a t | error e t =>
    rw [hx] at hspend
    exact ⟨hspend.fuel_le, hspend.maxDepth_eq, hspend.depth_eq⟩

theorem settled_whileHolds {test test' : Exec Bool} {body body' : Exec Flow}
    (htest : Settled levels test test') (hbody : Settled levels body body') (turns : Nat) :
    Settled levels (whileHolds test body turns) (whileHolds test' body' turns) := by
  induction turns with
  | zero => exact settled_exhaust
  | succ turns ih =>
    rw [whileHolds, whileHolds]
    apply settled_bind htest
    intro holds
    split
    · apply settled_bind hbody
      intro flow
      split
      · exact settled_quiet (.ret _)
      · exact ih
    · exact settled_quiet (.ret _)

/-- What `finally` makes of one and the same ending. -/
theorem settled_finish {final final' : Exec Flow} (hfinal : Settled levels final final') {s : State}
    (hs : s.Within levels) {r : Ending Flow} (hr : s.Spends r.state) :
    r.finish (some final) = r.finish (some final') ∧ s.Spends (r.finish (some final)).state := by
  obtain ⟨heq, hspend⟩ := hfinal r.state (hs.spend hr)
  rw [Ending.finish, Ending.finish, ← heq]
  refine ⟨rfl, hr.trans ?_⟩
  cases hx : final r.state with
  | ok flow t =>
    rw [hx] at hspend
    cases flow with
    | next => cases r <;> exact hspend
    | _ => exact hspend
  | error e t =>
    rw [hx] at hspend
    exact hspend

theorem settled_guarded {body body' orelse orelse' : Exec Flow}
    {handle handle' : Exception → Exec Flow} {final final' : Option (Exec Flow)}
    (hbody : Settled levels body body') (horelse : Settled levels orelse orelse')
    (hhandle : ∀ e, Settled levels (handle e) (handle' e))
    (hfinish : ∀ (s : State) (r : Ending Flow), s.Within levels → s.Spends r.state →
      r.finish final = r.finish final' ∧ s.Spends (r.finish final).state) :
    Settled levels (guarded body orelse handle final) (guarded body' orelse' handle' final') := by
  intro s hs
  -- the second part of a statement starts where the first one ended
  have hafter {x y : Exec Flow} (hxy : Settled levels x y) {t : State} (hst : s.Spends t) :
      Ending.finish final (x t) = Ending.finish final' (y t) ∧
        s.Spends (Ending.finish final (x t)).state := by
    obtain ⟨heq, hspend⟩ := hxy t (hs.spend hst)
    rw [← heq]
    exact hfinish s (x t) hs (hst.trans hspend)
  obtain ⟨heq, hspend⟩ := hbody s hs
  rw [guarded_apply, guarded_apply, ← heq]
  rcases hx : body s with ⟨flow, t⟩ | ⟨signal, t⟩
  · rw [hx] at hspend
    cases flow with
    | next => exact hafter horelse hspend
    | _ => exact hfinish s _ hs hspend
  · rw [hx] at hspend
    cases signal with
    | raise e => exact hafter (hhandle e) hspend
    | halt h => exact ⟨rfl, hspend⟩

end

/-- Steps that do the same where no more than so many levels are left. -/
def settling (levels : Nat) : Simulation where
  Rel := Settled levels
  strict := False
  quiet := settled_quiet
  bind := settled_bind
  charge := settled_charge
  exhaust := settled_exhaust
  newClosure _ _ := fun _ _ => ⟨rfl, Nat.le_refl _, rfl, rfl⟩
  onClosure r _ _ _ hfg hother := settled_withClosure r (fun c => hfg c nofun) hother
  limiting := settled_limited
  deepening h := (settled_deeper h).of_succ
  repeats htest hbody := fun s =>
    settled_whileHolds (settled_bind (settled_charge 1) fun _ => htest) hbody (s.fuel + 1) s
  handling := settled_whileHandling
  guarding hbody horelse hhandle := settled_guarded hbody horelse hhandle fun _ _ _ hr => ⟨rfl, hr⟩
  finishing hbody horelse hhandle hfinal _ _ :=
    settled_guarded hbody horelse hhandle fun _ _ hs hr => settled_finish hfinal hs hr

/-! ### Calls -/

/-- A call of a function of the program, where the next level can only be entered if there is one. -/
theorem settled_enter {levels : Nat} {call call' : Call} (h : (settling levels).Calls call call')
    (c : Closure) (args : List Value) (keywords : Keywords) :
    Settled (levels + 1) (enter call c args keywords) (enter call' c args keywords) := by
  apply settled_limited
  apply settled_bind (settled_quiet (Plain.bindArguments c args keywords).quiet)
  intro vars
  apply settled_bind (settled_quiet (.newScope _))
  intro scope
  apply settled_deeper
  cases c.code with
  | block body =>
    apply settled_bind (h.execBlock (some scope) body nofun)
    intro flow
    cases flow <;> exact settled_quiet (.ret _)
  | expr e => exact h.eval (some scope) e

/-- With no level left, the call is refused before anything is done. -/
theorem settled_enter_tooDeep (call : Call) (c : Closure) (args : List Value) (keywords : Keywords) :
    Settled 0 (enter call c args keywords) tooDeep := by
  intro s hs
  have hrefused : enter call c args keywords s = tooDeep s := (limited_apply _ s).trans (if_pos hs)
  rw [hrefused]
  exact ⟨rfl, .refl s⟩

/-- Call a value as `callAt` does, with `last` for the calls beyond so many levels and for those where
the nesting of calls back ends. -/
def callFrom (last : Call) : Nat → Call
  | 0, callee, args, keywords => last callee args keywords
  | levels + 1, callee, args, keywords =>
    callByFrom last (enter (callFrom last levels)) (args.length + 2) callee args keywords

theorem callFrom_succ (last : Call) (levels : Nat) (callee : Value) (args : List Value)
    (keywords : Keywords) : callFrom last (levels + 1) callee args keywords =
      callBy (enter (callFrom last levels)) (args.length + 2) callee args keywords := by
  have hroom : callbacks args keywords < args.length + 2 := by
    unfold callbacks
    omega
  exact callByFrom_eq last hroom hroom

/-- Where no more than `levels` levels are left, no call comes to the end of a longer supply. -/
theorem settled_callFrom (last : Call) {levels n : Nat} (hn : levels < n) :
    (settling levels).Calls (callFrom last n) (callAt levels) := by
  induction levels generalizing n with
  | zero =>
    obtain ⟨n, rfl⟩ := Nat.exists_eq_add_one_of_ne_zero (Nat.ne_zero_of_lt hn)
    intro callee args keywords
    rw [callFrom_succ]
    -- one run finds no level left, the other one refuses to enter the next
    apply Simulation.callBy
    intro c _ args keywords
    exact settled_enter_tooDeep _ c args keywords
  | succ levels ih =>
    obtain ⟨n, rfl⟩ := Nat.exists_eq_add_one_of_ne_zero (Nat.ne_zero_of_lt hn)
    have hcalls := ih (Nat.lt_of_succ_lt_succ hn)
    intro callee args keywords
    rw [callFrom_succ]
    apply Simulation.callBy
    intro c _ args keywords
    exact settled_enter hcalls c args keywords

theorem settled_callAt (levels : Nat) : (settling levels).Calls (callAt levels) (callAt levels) := by
  intro callee args keywords s hs
  have hcall := settled_callFrom (callAt levels) (Nat.lt_succ_self levels) callee args keywords s hs
  exact ⟨rfl, hcall.1 ▸ hcall.2⟩

/-! ### Loops -/

/-- Run a body as long as a test holds, with `last` for what comes after so many turns. -/
def whileFrom (last : Exec (Option Flow)) (test : Exec Bool) (body : Exec Flow) :
    Nat → Exec (Option Flow)
  | 0 => last
  | turns + 1 => do
    if ← test then
      match (← body).exit? with
      | some exit => return some exit
      | none => whileFrom last test body turns
    else return none

/-- A step that pays first leaves less fuel than there was. -/
theorem fuel_lt_of_pays {levels : Nat} {x y : Exec α} (h : (settling levels).Pays x y) {s t : State}
    {a : α} (hs : s.Within levels) (hx : x s = .ok a t) : t.fuel < s.fuel := by
  obtain ⟨x', y', rfl, -, hrest⟩ := h
  rw [Exec.bind_apply, Exec.charge_apply] at hx
  by_cases hempty : s.fuel < 1
  · rw [if_pos hempty] at hx
    cases hx
  · rw [if_neg hempty] at hx
    have hspend := (hrest { s with fuel := s.fuel - 1 } hs).2.fuel_le
    rw [show x' { s with fuel := s.fuel - 1 } = .ok a t from hx] at hspend
    have hless : t.fuel ≤ s.fuel - 1 := hspend
    omega

/-- A loop whose test pays does not come to the end of a supply of turns that is larger than that of
fuel: by induction on the turns, since there is less fuel after each of them. -/
theorem whileFrom_eq {levels : Nat} {test : Exec Bool} {body : Exec Flow}
    (htest : (settling levels).Pays test test) (hbody : Settled levels body body)
    (last : Exec (Option Flow)) {n m : Nat} {s : State} (hs : s.Within levels) (hn : s.fuel < n)
    (hm : s.fuel < m) : whileFrom last test body n s = whileHolds test body m s := by
  induction n generalizing m s with
  | zero => exact absurd hn (Nat.not_lt_zero _)
  | succ n ih =>
    obtain ⟨m, rfl⟩ := Nat.exists_eq_add_one_of_ne_zero (Nat.ne_zero_of_lt hm)
    rw [whileFrom, whileHolds, Exec.bind_apply, Exec.bind_apply]
    have hspend := (htest.rel s hs).2
    cases hx : test s with
    | error e t => rfl
    | ok holds t =>
      have hless := fuel_lt_of_pays htest hs hx
      rw [hx] at hspend
      have ht := hs.spend hspend
      cases holds with
      | false => rfl
      | true =>
        show (body >>= _) t = (body >>= _) t
        rw [Exec.bind_apply, Exec.bind_apply]
        have hturn := (hbody t ht).2
        cases hy : body t with
        | error e u => rfl
        | ok flow u =>
          rw [hy] at hturn
          have hfuel : u.fuel ≤ t.fuel := hturn.fuel_le
          dsimp only
          cases flow.exit? with
          | some exit => rfl
          | none => exact ih (ht.spend hturn) (by omega) (by omega)

/-! ### Runs -/

/-- In this state, from which no more than so many levels are left, calls and loops come to an end by
themselves: the numbers that bound them are not met, so that what would be done there makes no
difference. Going down into a value comes to an end exactly if all ways down from it do. -/
structure State.Ends (levels : Nat) (s : State) : Prop where
  /-- Whatever `last` does with the calls that go beyond the levels, a block does the same. -/
  blocks : ∀ (last : Call) (n : Nat), levels < n → ∀ env block,
    execBlock (callFrom last n) env block s = execBlock (callAt levels) env block s
  /-- So does a call, with the calls back of predefined functions and methods. -/
  calls : ∀ (last : Call) (n : Nat), levels < n → ∀ callee args keywords,
    callFrom last n callee args keywords s = callAt levels callee args keywords s
  /-- Whatever `last` does after more turns than there is fuel, a loop does the same. -/
  loops : ∀ (last : Exec (Option Flow)) (n : Nat), s.fuel < n → ∀ env test body,
    whileFrom last (eval (callAt levels) env test >>= Exec.truthy)
        (execBlock (callAt levels) env body) n s =
      repeating (eval (callAt levels) env test >>= Exec.truthy)
        (execBlock (callAt levels) env body) s
  /-- The text of a value is the same under all large bounds exactly if every way down ends. -/
  texts : ∀ v, (∃ n, ∀ m, n ≤ m → s.heap.reprWithin m v = s.heap.reprWithin n v) ↔
    s.heap.Founded v
  /-- The number of containers is such a bound, for texts and for all comparisons. -/
  containers : ∀ v, s.heap.Founded v → ∀ n, s.heap.containers < n →
    s.heap.reprWithin n v = s.heap.repr v ∧ s.heap.equalWithin n v = s.heap.equal v ∧
      s.heap.orderWithin n v = s.heap.order v ∧ s.heap.hashableWithin n v = s.heap.hashable v ∧
        ∀ k : Heap, sameWithin s.heap k n v = same s.heap k v

theorem State.Within.ends {levels : Nat} {s : State} (hs : s.Within levels) : s.Ends levels where
  blocks last n hn env block :=
    ((settled_callFrom last hn).execBlock env block nofun s hs).1
  calls last n hn callee args keywords := (settled_callFrom last hn callee args keywords s hs).1
  loops last n hn env test body := by
    have hcalls := settled_callAt levels
    have htest := (hcalls.pays env test).bind fun v => settled_quiet (Plain.truthy v).quiet
    exact whileFrom_eq htest (hcalls.execBlock env body nofun) last hs hn (Nat.lt_succ_self _)
  texts v := Heap.reprWithin_settles_iff
  containers v hv n hn := by
    have hshort := hv.endsWithin
    have hdepth : s.heap.containers + 1 ≤ s.heap.depth := s.heap.containers_lt_depth
    refine ⟨?_, ?_, ?_, ?_, fun k => ?_⟩
    · exact (hshort.reprWithin_eq hn).trans (hshort.reprWithin_eq hdepth).symm
    · exact (hshort.equalWithin_eq hn).trans (hshort.equalWithin_eq hdepth).symm
    · exact (hshort.orderWithin_eq hn).trans (hshort.orderWithin_eq hdepth).symm
    · exact (hshort.hashableWithin_eq hn).trans (hshort.hashableWithin_eq hdepth).symm
    · have hboth : s.heap.containers + 1 ≤ max s.heap.depth k.depth :=
        hdepth.trans (Nat.le_max_left _ _)
      exact (hshort.sameWithin_eq hn).trans (hshort.sameWithin_eq hboth).symm

theorem State.within_of_maxDepth {b : Budget} {s : State} (hs : s.maxDepth = b.maxDepth) :
    s.Within b.maxDepth := Nat.le_trans (Nat.le_of_eq hs) (Nat.le_add_left _ _)

theorem maxDepth_of_load {b : Budget} {m : Module} {s : State} (h : load b m = .ok s) :
    s.maxDepth = b.maxDepth := by
  have hs : (State.initial b).Within b.maxDepth := State.within_of_maxDepth rfl
  have hspend := ((settled_callAt b.maxDepth).execBlock none m.body nofun _ hs).2
  unfold load at h
  split at h
  · rename_i flow t hrun
    obtain rfl := Except.ok.inj h
    rw [hrun] at hspend
    exact hspend.maxDepth_eq
  · cases h
  · cases h

theorem maxDepth_of_call {b : Budget} {s : State} (hs : s.maxDepth = b.maxDepth) (name : String)
    (args : List Value) : (s.call b name args).2.maxDepth = b.maxDepth := by
  by_cases hname : ∃ r, s.globals.get? name = some (.function r)
  · obtain ⟨r, hname⟩ := hname
    have hrefill : (s.refill b).Within b.maxDepth := State.within_of_maxDepth hs
    have hspend := (settled_callAt b.maxDepth (.function r) args [] _ hrefill).2
    rw [State.call_function hname]
    rcases hrun : callAt b.maxDepth (.function r) args [] (s.refill b) with ⟨v, t⟩ | ⟨_ | _, t⟩
    all_goals
      rw [hrun] at hspend
      exact hspend.maxDepth_eq.trans hs
  · rw [State.call_missing hname]
    exact hs

/-- Loading a module comes to an end, and so does every call of one of its functions, with any data
on the heap. What the call hands back can be printed and compared exactly as far as no container in
it holds itself. -/
theorem execution_ends (b : Budget) (m : Module) :
    (State.initial b).Ends b.maxDepth ∧ ∀ s, load b m = .ok s → ∀ (heap : Heap) name args,
      ({ s with heap }.refill b).Ends b.maxDepth ∧
        ({ s with heap }.call b name args).2.Ends b.maxDepth := by
  refine ⟨(State.within_of_maxDepth rfl).ends, fun s hload heap name args => ?_⟩
  have hmax : s.maxDepth = b.maxDepth := maxDepth_of_load hload
  have hrefill : ({ s with heap }.refill b).maxDepth = b.maxDepth := hmax
  have hcall := maxDepth_of_call (s := { s with heap }) hmax name args
  exact ⟨(State.within_of_maxDepth hrefill).ends, (State.within_of_maxDepth hcall).ends⟩

/-- `def f(): while True: f()`: the calls come to an end at the limit of the budget. -/
theorem execution_ends_recursive :
    let m : Module := ⟨[.define ⟨"f", [],
      [.whileLoop (.bool true) [.expr (.call (.name "f") [])] []], [], none, false⟩]⟩
    ∃ s, load {} m = .ok s ∧ (s.call {} "f" []).1.isOk = false ∧ (s.call {} "f" []).2.Ends 40 := by
  intro m
  have hstops : ((load {} m).toOption.any fun s => !(s.call {} "f" []).1.isOk) = true := by
    decide +kernel
  cases hload : load {} m with
  | error e =>
    rw [hload] at hstops
    cases hstops
  | ok s =>
    rw [hload] at hstops
    have hends := ((execution_ends {} m).2 s hload s.heap "f" []).2
    exact ⟨s, rfl, Bool.not_eq_true' _ ▸ hstops, hends⟩

/-- What is returned holds itself. -/
def Outcome.holdsItself (h : Heap) : Outcome → Bool
  | returned v => h.holdsItself v
  | raised _ => false

/-- `a = []; a.append(a); return a`: for every bound there is a larger one that gives another text, so
there is no text without a bound. -/
theorem invoke_endless :
    let m : Module := ⟨[.define ⟨"f", [],
      [.assign [.name "a"] (.list []) none,
        .expr (.call (.attribute (.name "a") "append") [.positional (.name "a")]),
        .ret (some (.name "a"))], [], none, false⟩]⟩
    ∃ v args h, invoke {} m "f" (fun h => ([], h)) = .ok (.returned v, args, h) ∧
      ∀ n, ∃ k, n ≤ k ∧ h.reprWithin k v ≠ h.reprWithin n v := by
  intro m
  have hitself : ((invoke {} m "f" fun h => ([], h)).toOption.any fun result =>
      result.1.holdsItself result.2.2) = true := by decide +kernel
  rcases hrun : invoke {} m "f" (fun h => ([], h)) with e | ⟨v | e, args, h⟩
  · rw [hrun] at hitself
    cases hitself
  · rw [hrun] at hitself
    refine ⟨v, args, h, rfl, ?_⟩
    have hendless := mt Heap.reprWithin_settles_iff.mp (Heap.not_founded_of_holdsItself hitself)
    push Not at hendless
    exact hendless
  · rw [hrun] at hitself
    cases hitself

end Concord.Machine
