import Concord.Proofs.Machine.Attain

/-!
# Calls that part at their end

Inside the scope of a call, the second step attains the first as long as the call goes on; it may also
leave the scope for good, after which the hidden variables differ (`Parts`). A step leaves by an exception
or with a result that ends the call, and both are passed on to the end of the call, where `newScope` turns
such steps into steps that attain each other.
-/

namespace Concord.Machine

variable {α β : Type}

/-- The step ends what is around it, with one of the results given or with a signal. -/
def Ending.Leaves (leaves : α → Prop) : Ending α → Prop
  | .ok a _ => leaves a
  | .error _ _ => True

theorem Ending.Leaves.map {leaves : α → Prop} {r : Ending α} (h : Ending.Leaves leaves r)
    (f : State → State) : Ending.Leaves leaves (Ending.map f r) := by
  cases r <;> exact h

/-- In the scope numbered `i` of a call, the second step attains the first, and where it leaves the call,
the call may be over. -/
def Parts (hidden : List String) (swaps : Block → Block → Prop) (i : Nat) (leaves : α → Prop)
    (x y : Exec α) : Prop :=
  ∀ (W : Stages) (s : State) (F : Frame), W.At (some i) .running → s.frame.Akin hidden swaps W F →
    Spent (x s) ∨ ∃ W' F', (W <+: W' ∨ W.close i <+: W' ∧ Ending.Leaves leaves (x s)) ∧
      (Ending.state (x s)).frame.Akin hidden swaps W' F' ∧ Ample y s F F' (x s)

variable {hidden : List String} {swaps : Block → Block → Prop} {i : Nat} {leaves : α → Prop}
  {leaves' : β → Prop} {x y : Exec α}

theorem Attains.parts (h : Attains hidden swaps (some i) .running x y) :
    Parts hidden swaps i leaves x y := by
  intro W s F hat hF
  refine (h W s F hat hF).imp id ?_
  rintro ⟨W', F', hW', hrest⟩
  exact ⟨W', F', .inl hW', hrest⟩

namespace Parts

/-- More results may end the call. -/
theorem weaken {more : α → Prop} (h : Parts hidden swaps i leaves x y)
    (hmore : ∀ a, leaves a → more a) : Parts hidden swaps i more x y := by
  intro W s F hat hF
  refine (h W s F hat hF).imp id ?_
  rintro ⟨W', F', hW', hrest⟩
  refine ⟨W', F', hW'.imp id fun hclosed => ⟨hclosed.1, ?_⟩, hrest⟩
  cases hx : x s with
  | ok a t =>
    rw [hx] at hclosed
    exact hmore a hclosed.2
  | error e t => trivial

/-- Go on after a step. A result with which it leaves is passed on. -/
theorem bind {f k : α → Exec β} (h : Parts hidden swaps i leaves x y)
    (hleave : ∀ a, leaves a → ∃ b, leaves' b ∧ f a = pure b ∧ k a = pure b)
    (hf : ∀ a, ¬ leaves a → Parts hidden swaps i leaves' (f a) (k a)) :
    Parts hidden swaps i leaves' (x >>= f) (y >>= k) := by
  intro W s F hat hF
  rw [Exec.bind_apply]
  obtain ⟨t, hx, ht⟩ | ⟨W₁, F₁, hW₁, hF₁, hample⟩ := h W s F hat hF
  · rw [hx]
    exact .inl ⟨t, rfl, ht⟩
  · cases hx : x s with
    | error e t =>
      rw [hx] at hW₁ hF₁ hample
      refine .inr ⟨W₁, F₁, hW₁.imp id fun h => ⟨h.1, trivial⟩, hF₁, ?_⟩
      refine hample.next (z := MonadExcept.throw e) (t := t) (.here _ fun _ => rfl)
        fun u left hu => ?_
      rw [Exec.bind_apply, hu]
      rfl
    | ok a t =>
      rw [hx] at hW₁ hF₁ hample
      have hnext (u : State) (left : Nat) (hu : y u = Ending.map (·.under F₁ left) (.ok a t)) :
          (y >>= k) u = k a (t.under F₁ left) := by
        rw [Exec.bind_apply, hu]
        rfl
      by_cases ha : leaves a
      · obtain ⟨b, hb, hfb, hkb⟩ := hleave a ha
        dsimp only
        rw [hfb]
        rw [hkb] at hnext
        exact .inr ⟨W₁, F₁, hW₁.imp id fun h => ⟨h.1, hb⟩, hF₁,
          hample.next (.here (.ok b t) fun _ => rfl) hnext⟩
      · obtain hW₁ | ⟨-, hleft⟩ := hW₁
        · refine (hf a ha W₁ t F₁ (hat.mono hW₁) hF₁).imp id ?_
          rintro ⟨W₂, F₂, hW₂, hF₂, hrest⟩
          refine ⟨W₂, F₂, ?_, hF₂, hample.next hrest hnext⟩
          have hlt : i < W.length := (List.getElem?_eq_some_iff.mp hat).1
          exact hW₂.imp hW₁.trans fun h => ⟨(Stages.close_mono hW₁ hlt).trans h.1, h.2⟩
        · exact absurd hleft ha

/-- Go on after a step that cannot leave. -/
theorem after {f k : α → Exec β} (h : Attains hidden swaps (some i) .running x y)
    (hf : ∀ a, Parts hidden swaps i leaves' (f a) (k a)) :
    Parts hidden swaps i leaves' (x >>= f) (y >>= k) :=
  have hx : Parts hidden swaps i (fun _ => False) x y := h.parts
  hx.bind nofun fun a _ => hf a

theorem deepening (h : Parts hidden swaps i leaves x y) :
    Parts hidden swaps i leaves (deeper x) (deeper y) := by
  rw [show deeper x = _ from funext (deeper_apply x), show deeper y = _ from funext (deeper_apply y)]
  intro W s F hat hF
  dsimp only
  obtain ⟨t, hx, ht⟩ | ⟨W', F', hW', hF', hample⟩ := h W { s with depth := s.depth + 1 } F hat hF
  · rw [hx]
    exact .inl ⟨{ t with depth := t.depth - 1 }, rfl, ht⟩
  · refine .inr ⟨W', F', hW'.imp id fun h => ⟨h.1, h.2.map _⟩, ?_, ?_⟩
    · cases hx : x { s with depth := s.depth + 1 } <;> rw [hx] at hF' <;> exact hF'
    · exact Ample.changed (fun t => { t with depth := t.depth + 1 })
        (fun t => { t with depth := t.depth - 1 }) id id hample (fun _ _ => rfl) fun _ _ _ => rfl

/-- The scope is made when the call starts, and what happens in it afterwards is over. -/
theorem newScope {env : Env} {g : Stage} (hg : Stage.running.Within g)
    (hswaps : ∃ b b', swaps b b') (vars : Bindings)
    {f k : Nat → Exec α} (h : ∀ i, Parts hidden swaps i leaves (f i) (k i)) :
    Attains hidden swaps env g (Exec.newScope { vars, parent := env } >>= f)
      (Exec.newScope { vars, parent := env } >>= k) := by
  intro W s F hat hF
  have hpush : Frame.Akin hidden swaps (W ++ [.running])
      { s.frame with scopes := s.scopes.push { vars, parent := env } }
      { F with scopes := F.scopes.push { vars, parent := env } } :=
    hF.pushScope hat hg (fun _ => hswaps) nofun nofun
  have hleft : s.scopes.size = W.length := hF.left
  have hsize : F.scopes.size = s.scopes.size := hF.right.trans hF.left.symm
  have hnew : Stages.At (W ++ [.running]) (some s.scopes.size) .running := by
    show (W ++ [Stage.running])[s.scopes.size]? = some .running
    rw [hleft]
    exact List.getElem?_concat_length
  show Spent (f s.scopes.size { s with scopes := s.scopes.push { vars, parent := env } }) ∨ _
  refine (h s.scopes.size (W ++ [.running]) _ _ hnew hpush).imp id ?_
  rintro ⟨W', F', hW', hF', hample⟩
  refine ⟨W', F', ?_, hF', fun spare => ?_⟩
  · obtain hW' | ⟨hW', -⟩ := hW'
    · exact (List.prefix_append W _).trans hW'
    · -- The new scope is the only one that may be closed.
      refine List.IsPrefix.trans ?_ hW'
      rw [hleft, Stages.close, List.take_left]
      exact List.prefix_append W _
  · obtain ⟨need, hneed⟩ := hample spare
    refine ⟨need, fun fuel hfuel => ?_⟩
    obtain ⟨left, hleft, hy⟩ := hneed fuel hfuel
    refine ⟨left, hleft, ?_⟩
    show k F.scopes.size _ = _
    rw [hsize]
    exact hy

/-! ## Blocks and loops -/

/-- The flow of a return. -/
def Returns (flow : Flow) : Prop := ∃ v, flow = .ret v

/-- The flow that a loop passes on is that of a return. -/
def LoopReturns (left : Option Flow) : Prop := ∃ v, left = some (.ret v)

/-- A statement before the rest of a block. -/
theorem block {x y rest rest' : Exec Flow} (h : Parts hidden swaps i Returns x y)
    (hrest : Parts hidden swaps i Returns rest rest') :
    Parts hidden swaps i Returns
      (x >>= fun flow => match flow with | .next => rest | exit => pure exit)
      (y >>= fun flow => match flow with | .next => rest' | exit => pure exit) := by
  refine h.bind ?_ fun flow hflow => ?_
  · rintro _ ⟨v, rfl⟩
    exact ⟨.ret v, ⟨v, rfl⟩, rfl, rfl⟩
  · cases flow with
    | next => exact hrest
    | _ => exact (Attains.ret _).parts

/-- What comes after a turn of a loop. -/
theorem turn {x y : Exec Flow} {rest rest' : Exec (Option Flow)}
    (h : Parts hidden swaps i Returns x y) (hrest : Parts hidden swaps i LoopReturns rest rest') :
    Parts hidden swaps i LoopReturns
      (x >>= fun flow => match flow.exit? with | some exit => pure (some exit) | none => rest)
      (y >>= fun flow => match flow.exit? with | some exit => pure (some exit) | none => rest') := by
  refine h.bind ?_ fun flow _ => ?_
  · rintro _ ⟨v, rfl⟩
    exact ⟨some (.ret v), ⟨v, rfl⟩, rfl, rfl⟩
  · cases hexit : flow.exit? with
    | some exit => exact (Attains.ret _).parts
    | none => exact hrest

/-- What comes after a loop. -/
theorem loop {x y : Exec (Option Flow)} {orelse orelse' : Exec Flow}
    (h : Parts hidden swaps i LoopReturns x y) (horelse : Parts hidden swaps i Returns orelse orelse') :
    Parts hidden swaps i Returns
      (x >>= fun left => match left with | some exit => pure exit | none => orelse)
      (y >>= fun left => match left with | some exit => pure exit | none => orelse') := by
  refine h.bind ?_ fun left _ => ?_
  · rintro _ ⟨v, rfl⟩
    exact ⟨.ret v, ⟨v, rfl⟩, rfl, rfl⟩
  · cases left with
    | some exit => exact (Attains.ret _).parts
    | none => exact horelse

theorem forItems {body body' : Value → Exec Flow}
    (h : ∀ v, Parts hidden swaps i Returns (body v) (body' v)) (items : List Value) :
    Parts hidden swaps i LoopReturns (forItems body items) (forItems body' items) := by
  induction items with
  | nil => exact (Attains.ret none).parts
  | cons v vs ih => exact (h v).turn ih

theorem whileHolds {test test' : Exec Bool} {body body' : Exec Flow}
    (htest : Attains hidden swaps (some i) .running test test')
    (hbody : Parts hidden swaps i Returns body body') (turns : Nat) :
    Parts hidden swaps i LoopReturns (whileHolds test body turns) (whileHolds test' body' turns) := by
  induction turns with
  | zero => exact Attains.exhaust.parts
  | succ turns ih =>
    refine after htest fun holds => ?_
    cases holds with
    | true => exact hbody.turn ih
    | false => exact (Attains.ret _).parts

theorem repeats {test test' : Exec Bool} {body body' : Exec Flow}
    (htest : Attains hidden swaps (some i) .running test test')
    (hbody : Parts hidden swaps i Returns body body') :
    Parts hidden swaps i LoopReturns (repeating test body) (repeating test' body') := by
  intro W s F hat hF
  refine (whileHolds htest hbody (s.fuel + 1) W s F hat hF).imp id ?_
  rintro ⟨W', F', hW', hF', hample⟩
  exact ⟨W', F', hW', hF', .repeating hample⟩

end Parts

end Concord.Machine
