import Concord.Machine.State

/-!
# Variables

A name is bound in one place, found in another, and looked for in the scopes around a position. Binding
a name writes one variable (`State.place`), looking it up goes through the scopes from the inside out
(`State.found?`). Where a name is declared nonlocal although its scope has a variable of that name, the
two do not meet; `State.Answers` says that they do.

What a name stands for at a position depends on the scopes around it and on no other name. So states that
agree on a name in the first `k` scopes (`State.Keeps`) find the same there.
-/

namespace Concord.Machine

/-- All of a scope that matters for a name. -/
def Scope.view (a : Scope) (n : String) : Env × List String × List String × Option Value :=
  (a.parent, a.globals, a.nonlocals, a.vars.get? n)

/-- A position in one of the first `k` scopes, or at the top level. -/
def Env.Below (k : Nat) : Env → Prop
  | none => True
  | some i => i < k

theorem Env.Below.mono {k l : Nat} {env : Env} (h : Env.Below k env) (hkl : k ≤ l) : Env.Below l env := by
  cases env with
  | none => trivial
  | some i => exact Nat.lt_of_lt_of_le h hkl

namespace State

variable {s t u : State} {env p : Env} {n m : String} {v w : Value} {k : Nat}

/-! ## Finding and binding -/

/-- The value that a name stands for at a position. -/
def found? (s : State) (env : Env) (n : String) : Option Value :=
  (Exec.lookupLocal s.scopes n (s.scopes.size + 1) env).or
    ((s.globals.get? n).or (Value.predefined? n))

theorem lookup_of_found? (h : s.found? env n = some v) : Exec.lookup env n s = .ok v s := by
  unfold Exec.lookup
  unfold found? at h
  dsimp only
  rw [h]

theorem found?_of_lookup (h : Exec.lookup env n s = .ok v t) : s.found? env n = some v ∧ t = s := by
  unfold Exec.lookup at h
  unfold found?
  dsimp only at h
  split at h
  · rename_i w hw
    cases h
    exact ⟨hw, rfl⟩
  · cases h

/-- The variable of a name in one scope, or at the top level. -/
def held? (s : State) : Env → String → Option Value
  | none, n => s.globals.get? n
  | some i, n => s.scopes[i]?.bind (·.vars.get? n)

/-- Give a variable a value. -/
def write (s : State) (p : Env) (n : String) (v : Value) : State :=
  match p with
  | none => { s with globals := s.globals.set n v }
  | some i => { s with
      scopes := s.scopes.modify i fun scope => { scope with vars := scope.vars.set n v } }

/-- Where binding a name at a position writes. -/
def place (s : State) (env : Env) (n : String) : Env :=
  match env with
  | none => none
  | some i =>
    let scope := s.scopes[i]?.getD {}
    if scope.globals.contains n then none
    else if scope.nonlocals.contains n then
      some ((Exec.binder? s.scopes n (s.scopes.size + 1) scope.parent).getD i)
    else some i

theorem bind_eq_write (s : State) (env : Env) (n : String) (v : Value) :
    Exec.bind env n v s = .ok () (s.write (s.place env n) n v) := by
  cases env with
  | none => rfl
  | some i =>
    show (if (s.scopes[i]?.getD {}).globals.contains n then Exec.bindGlobal n v
      else if (s.scopes[i]?.getD {}).nonlocals.contains n then
        Exec.bindIn ((Exec.binder? s.scopes n (s.scopes.size + 1)
          (s.scopes[i]?.getD {}).parent).getD i) n v
      else Exec.bindIn i n v : Exec Unit) s = _
    unfold place
    dsimp only
    split
    · rfl
    · split <;> rfl

/-- A value bound to the name is the one that is found. -/
def Answers (s : State) (env : Env) (n : String) : Prop :=
  ∀ v, (s.write (s.place env n) n v).found? env n = some v

/-! ## Agreement on a name -/

/-- The first `k` scopes are inside older ones. -/
def Nested (k : Nat) (s : State) : Prop :=
  ∀ i < k, ∀ a, s.scopes[i]? = some a → Env.Below i a.parent

/-- Two states agree on a name in the first `k` scopes and at the top level. -/
structure Keeps (k : Nat) (n : String) (s t : State) : Prop where
  left : k ≤ s.scopes.size
  right : k ≤ t.scopes.size
  globals : t.globals.get? n = s.globals.get? n
  scopes : ∀ i < k, t.scopes[i]?.map (·.view n) = s.scopes[i]?.map (·.view n)

namespace Keeps

theorem refl (hk : k ≤ s.scopes.size) : s.Keeps k n s := ⟨hk, hk, rfl, fun _ _ => rfl⟩

/-- Fuel and values do not matter. -/
theorem of_eq (hk : k ≤ s.scopes.size) (hglobals : t.globals = s.globals)
    (hscopes : t.scopes = s.scopes) : s.Keeps k n t :=
  ⟨hk, hscopes ▸ hk, congrArg (·.get? n) hglobals, fun _ _ => by rw [hscopes]⟩

theorem symm (h : s.Keeps k n t) : t.Keeps k n s :=
  ⟨h.right, h.left, h.globals.symm, fun i hi => (h.scopes i hi).symm⟩

theorem trans (h : s.Keeps k n t) (h' : t.Keeps k n u) : s.Keeps k n u :=
  ⟨h.left, h'.right, h'.globals.trans h.globals, fun i hi => (h'.scopes i hi).trans (h.scopes i hi)⟩

theorem mono {l : Nat} (h : s.Keeps k n t) (hl : l ≤ k) : s.Keeps l n t :=
  ⟨Nat.le_trans hl h.left, Nat.le_trans hl h.right, h.globals,
    fun i hi => h.scopes i (Nat.lt_of_lt_of_le hi hl)⟩

/-- A scope in both states. -/
theorem scope (h : s.Keeps k n t) {i : Nat} (hi : i < k) :
    ∃ a b, s.scopes[i]? = some a ∧ t.scopes[i]? = some b ∧ b.view n = a.view n := by
  have ha := Array.getElem?_eq_getElem (Nat.lt_of_lt_of_le hi h.left)
  have hb := Array.getElem?_eq_getElem (Nat.lt_of_lt_of_le hi h.right)
  have hview := h.scopes i hi
  rw [ha, hb] at hview
  exact ⟨_, _, ha, hb, Option.some.inj hview⟩

theorem lookupLocal_eq (h : s.Keeps k n t) (hs : s.Nested k) {f f' : Nat} (henv : Env.Below k env)
    (hf : Env.Below f env) (hf' : Env.Below f' env) :
    Exec.lookupLocal t.scopes n f' env = Exec.lookupLocal s.scopes n f env := by
  induction f generalizing env f' with
  | zero =>
    cases env with
    | none => cases f' <;> rfl
    | some i => exact absurd hf (Nat.not_lt_zero i)
  | succ f ih =>
    cases env with
    | none => cases f' <;> rfl
    | some i =>
      obtain ⟨a, b, ha, hb, hview⟩ := h.scope henv
      obtain ⟨f', rfl⟩ := Nat.exists_eq_add_of_le' (Nat.lt_of_le_of_lt (Nat.zero_le i) hf')
      simp only [Scope.view, Prod.mk.injEq] at hview
      have hparent := hs i henv a ha
      rw [Exec.lookupLocal, Exec.lookupLocal, ha, hb]
      dsimp only
      rw [hview.2.1, hview.2.2.2, hview.1, ih (hparent.mono (Nat.le_of_lt henv))
        (hparent.mono (Nat.le_of_lt_succ hf)) (hparent.mono (Nat.le_of_lt_succ hf'))]

theorem binder?_eq (h : s.Keeps k n t) (hs : s.Nested k) {f f' : Nat} (henv : Env.Below k env)
    (hf : Env.Below f env) (hf' : Env.Below f' env) :
    Exec.binder? t.scopes n f' env = Exec.binder? s.scopes n f env := by
  induction f generalizing env f' with
  | zero =>
    cases env with
    | none => cases f' <;> rfl
    | some i => exact absurd hf (Nat.not_lt_zero i)
  | succ f ih =>
    cases env with
    | none => cases f' <;> rfl
    | some i =>
      obtain ⟨a, b, ha, hb, hview⟩ := h.scope henv
      obtain ⟨f', rfl⟩ := Nat.exists_eq_add_of_le' (Nat.lt_of_le_of_lt (Nat.zero_le i) hf')
      simp only [Scope.view, Prod.mk.injEq] at hview
      have hparent := hs i henv a ha
      rw [Exec.binder?, Exec.binder?, ha, hb]
      dsimp only
      rw [hview.2.2.2, hview.1, ih (hparent.mono (Nat.le_of_lt henv))
        (hparent.mono (Nat.le_of_lt_succ hf)) (hparent.mono (Nat.le_of_lt_succ hf'))]

/-- A position in the first scopes is one of all scopes. -/
theorem within_left (h : s.Keeps k n t) (henv : Env.Below k env) : Env.Below (s.scopes.size + 1) env :=
  henv.mono (Nat.le_succ_of_le h.left)

theorem found?_eq (h : s.Keeps k n t) (hs : s.Nested k) (henv : Env.Below k env) :
    t.found? env n = s.found? env n := by
  unfold found?
  rw [h.lookupLocal_eq hs henv (h.within_left henv) (h.symm.within_left henv), h.globals]

theorem place_eq (h : s.Keeps k n t) (hs : s.Nested k) (henv : Env.Below k env) :
    t.place env n = s.place env n := by
  cases env with
  | none => rfl
  | some i =>
    obtain ⟨a, b, ha, hb, hview⟩ := h.scope henv
    simp only [Scope.view, Prod.mk.injEq] at hview
    have hparent : Env.Below k a.parent := (hs i henv a ha).mono (Nat.le_of_lt henv)
    simp only [place, ha, hb, Option.getD_some, hview, h.binder?_eq hs hparent
      (h.within_left hparent) (h.symm.within_left hparent)]

theorem held?_eq (h : s.Keeps k n t) (hp : Env.Below k p) : t.held? p n = s.held? p n := by
  cases p with
  | none => exact h.globals
  | some i =>
    obtain ⟨a, b, ha, hb, hview⟩ := h.scope hp
    simp only [Scope.view, Prod.mk.injEq] at hview
    rw [held?, held?, ha, hb]
    exact hview.2.2.2

end Keeps

/-! ## Writing -/

theorem size_write (s : State) (p : Env) (n : String) (v : Value) :
    (s.write p n v).scopes.size = s.scopes.size := by
  cases p with
  | none => rfl
  | some i => exact Array.size_modify

@[simp] theorem heap_write (s : State) (p : Env) (n : String) (v : Value) :
    (s.write p n v).heap = s.heap := by
  cases p <;> rfl

@[simp] theorem fuel_write (s : State) (p : Env) (n : String) (v : Value) :
    (s.write p n v).fuel = s.fuel := by
  cases p <;> rfl

/-- A scope after a variable was given a value. -/
theorem scopes_write (s : State) (p : Env) (m : String) (v : Value) (i : Nat) :
    (s.write p m v).scopes[i]? = s.scopes[i]?.map fun a =>
      if p = some i then { a with vars := a.vars.set m v } else a := by
  cases p with
  | none => simp [write]
  | some j =>
    rw [write, Array.getElem?_modify]
    by_cases hij : j = i
    · simp [hij]
    · simp [hij]

theorem Nested.write (hs : s.Nested k) (p : Env) (m : String) (v : Value) :
    (s.write p m v).Nested k := by
  intro i hi b hb
  rw [scopes_write] at hb
  obtain ⟨a, ha, rfl⟩ := Option.map_eq_some_iff.mp hb
  have hparent := hs i hi a ha
  split <;> exact hparent

/-- The value of a name after any name was bound anywhere. -/
theorem globals_write (s : State) (p : Env) (m n : String) (v : Value) :
    (s.write p m v).globals.get? n =
      if p = none ∧ m = n then some v else s.globals.get? n := by
  cases p with
  | none => simp [write, Bindings.get?_set]
  | some i => simp [write]

theorem view_set (a : Scope) (m n : String) (v : Value) :
    ({ a with vars := a.vars.set m v } : Scope).view n =
      if m = n then (a.parent, a.globals, a.nonlocals, some v) else a.view n := by
  simp only [Scope.view, Bindings.get?_set, beq_iff_eq]
  split <;> rfl

/-- Writing one name does not touch another. -/
theorem keeps_write_of_ne (hk : k ≤ s.scopes.size) (hmn : m ≠ n) : s.Keeps k n (s.write p m v) where
  left := hk
  right := (size_write s p m v).symm ▸ hk
  globals := by simp [globals_write, hmn]
  scopes i _ := by
    rw [scopes_write, Option.map_map]
    congr 1
    funext a
    rw [Function.comp]
    split
    · rw [view_set, if_neg hmn]
    · rfl

/-- Writing outside of the first scopes does not touch them. -/
theorem keeps_write_of_le {i : Nat} (hk : k ≤ s.scopes.size) (hi : k ≤ i) :
    s.Keeps k n (s.write (some i) m v) where
  left := hk
  right := (size_write s _ m v).symm ▸ hk
  globals := rfl
  scopes j hj := by
    have hne : (some i : Env) ≠ some j := fun he => absurd (Option.some.inj he) (by omega)
    simp only [scopes_write, if_neg hne, Option.map_id']

/-- A new scope does not touch the others. -/
theorem keeps_pushScope (hk : k ≤ s.scopes.size) (a : Scope) :
    s.Keeps k n { s with scopes := s.scopes.push a } where
  left := hk
  right := by simpa using Nat.le_succ_of_le hk
  globals := rfl
  scopes i hi := by rw [Array.getElem?_push, if_neg (Nat.ne_of_lt (Nat.lt_of_lt_of_le hi hk))]

/-- What was written last counts. -/
theorem keeps_write_write (hk : k ≤ s.scopes.size) (p : Env) (v w : Value) :
    (s.write p n w).Keeps k n ((s.write p n v).write p n w) where
  left := (size_write s p n w).symm ▸ hk
  right := by simpa only [size_write] using hk
  globals := by
    simp only [globals_write]
    split <;> rfl
  scopes i _ := by
    simp only [scopes_write, Option.map_map]
    congr 1
    funext a
    simp only [Function.comp]
    split
    · simp only [Scope.view, Bindings.get?_set, beq_self_eq_true, if_true]
    · rfl

theorem Keeps.write (h : s.Keeps k n t) (p : Env) (v : Value) :
    (s.write p n v).Keeps k n (t.write p n v) where
  left := (size_write s p n v).symm ▸ h.left
  right := (size_write t p n v).symm ▸ h.right
  globals := by simp only [globals_write, h.globals]
  scopes i hi := by
    obtain ⟨a, b, ha, hb, hview⟩ := h.scope hi
    simp only [Scope.view, Prod.mk.injEq] at hview
    rw [scopes_write, scopes_write, ha, hb]
    simp only [Option.map_some, Option.some.injEq]
    split
    · rw [view_set, view_set, if_pos rfl, if_pos rfl, hview.1, hview.2.1, hview.2.2.1]
    · simp only [Scope.view, hview]

/-- The variable that was written has the value. -/
theorem held?_write (hp : Env.Below s.scopes.size p) :
    (s.write p n v).held? p n = some v := by
  cases p with
  | none => simp [held?, globals_write]
  | some i =>
    rw [held?, scopes_write, Array.getElem?_eq_getElem hp]
    simp [Bindings.get?_set]

/-- The name in another place has not. -/
theorem held?_write_of_ne {q : Env} (hpq : p ≠ q) :
    (s.write p n v).held? q n = s.held? q n := by
  cases q with
  | none => simp [held?, globals_write, hpq]
  | some i => simp [held?, scopes_write, hpq]

/-! ## Where names are bound -/

theorem binder?_lt {f i : Nat} (h : Exec.binder? s.scopes n f env = some i) :
    i < s.scopes.size := by
  induction f generalizing env with
  | zero => cases h
  | succ f ih =>
    cases env with
    | none => cases h
    | some j =>
      rw [Exec.binder?] at h
      split at h
      · cases h
      · rename_i a ha
        split at h
        · cases h
          exact (Array.getElem?_eq_some_iff.mp ha).1
        · exact ih h

/-- A name is bound in a scope that exists. -/
theorem within_place (henv : Env.Below s.scopes.size env) : Env.Below s.scopes.size (s.place env n) := by
  cases env with
  | none => trivial
  | some i =>
    unfold place
    dsimp only
    split
    · trivial
    · split
      · cases hb : Exec.binder? s.scopes n (s.scopes.size + 1) (s.scopes[i]?.getD {}).parent with
        | none => exact henv
        | some j => exact binder?_lt hb
      · exact henv

/-- The nearest scope that binds a name still does after it was written there. -/
theorem binder?_write {f i : Nat} (h : Exec.binder? s.scopes n f env = some i) (v : Value) :
    Exec.binder? (s.write (some i) n v).scopes n f env = some i := by
  induction f generalizing env with
  | zero => cases h
  | succ f ih =>
    cases env with
    | none => cases h
    | some j =>
      rw [Exec.binder?] at h ⊢
      rw [scopes_write]
      cases ha : s.scopes[j]? with
      | none => rw [ha] at h; cases h
      | some a =>
        rw [ha] at h
        simp only [Option.map_some, Option.some.injEq] at h ⊢
        by_cases hij : i = j
        · subst hij
          simp [Bindings.get?_set]
        · simp only [if_neg hij]
          split
          · rw [if_pos ‹_›] at h
            exact absurd h.symm (by simpa using hij)
          · rw [if_neg ‹_›] at h
            exact ih h

/-- Binding a name does not change where it is bound. -/
theorem place_write_place (hs : s.Nested s.scopes.size) (henv : Env.Below s.scopes.size env) (v : Value) :
    (s.write (s.place env n) n v).place env n = s.place env n := by
  cases env with
  | none => rfl
  | some i =>
    obtain ⟨a, ha⟩ : ∃ a, s.scopes[i]? = some a := ⟨_, Array.getElem?_eq_getElem henv⟩
    -- What the scope itself declares is not changed by writing anywhere.
    have hplace (t : State) {vars : Bindings} (ht : t.scopes[i]? = some { a with vars := vars }) :
        t.place (some i) n = if a.globals.contains n then none
          else if a.nonlocals.contains n then
            some ((Exec.binder? t.scopes n (t.scopes.size + 1) a.parent).getD i)
          else some i := by
      simp only [place, ht, Option.getD_some]
    have hwritten (p : Env) : ∃ vars, (s.write p n v).scopes[i]? = some { a with vars := vars } := by
      rw [scopes_write, ha]
      by_cases hp : p = some i
      · exact ⟨a.vars.set n v, by simp [hp]⟩
      · exact ⟨a.vars, by simp [hp]⟩
    obtain ⟨vars, hvars⟩ := hwritten (s.place (some i) n)
    rw [hplace _ hvars, hplace s ha]
    by_cases hglobal : a.globals.contains n
    · simp only [hglobal, if_true]
    · by_cases hnonlocal : a.nonlocals.contains n
      · simp only [hglobal, hnonlocal, if_true, if_false, Bool.false_eq_true, size_write]
        have hparent := hs i henv a ha
        cases hb : Exec.binder? s.scopes n (s.scopes.size + 1) a.parent with
        | some j => rw [Option.getD_some, binder?_write hb, Option.getD_some]
        | none =>
          -- It is bound in the scope itself, which is not among those around it.
          have hkeeps : s.Keeps i n (s.write (some i) n v) :=
            keeps_write_of_le (Nat.le_of_lt henv) (Nat.le_refl i)
          have hi : i ≤ s.scopes.size + 1 := Nat.le_succ_of_le (Nat.le_of_lt henv)
          rw [Option.getD_none, hkeeps.binder?_eq (f := s.scopes.size + 1)
            (fun j hj => hs j (Nat.lt_trans hj henv)) hparent (hparent.mono hi) (hparent.mono hi), hb]
          rfl
      · simp only [hglobal, hnonlocal, Bool.false_eq_true, if_false]

/-- A variable of a scope that does not declare it global is found there. -/
theorem found?_own {i : Nat} {a : Scope} (ha : s.scopes[i]? = some a) (hglobal : n ∉ a.globals) :
    (s.write (some i) n v).found? (some i) n = some v := by
  have hwritten : (s.write (some i) n v).scopes[i]? = some { a with vars := a.vars.set n v } := by
    rw [scopes_write, ha, Option.map_some, if_pos rfl]
  rw [found?, Exec.lookupLocal, hwritten]
  simp [hglobal, Bindings.get?_set]

/-- Only a name that is declared nonlocal may be bound where it is not found. -/
theorem answers_of_notMem (h : ∀ (i : Nat) (a : Scope), env = some i → s.scopes[i]? = some a →
    n ∉ a.nonlocals) (henv : Env.Below s.scopes.size env) : s.Answers env n := by
  intro v
  cases env with
  | none => simp [found?, place, write, Exec.lookupLocal, Bindings.get?_set]
  | some i =>
    obtain ⟨a, ha⟩ : ∃ a, s.scopes[i]? = some a := ⟨_, Array.getElem?_eq_getElem henv⟩
    have hnonlocal := h i a rfl ha
    by_cases hglobal : n ∈ a.globals
    · have hplace : s.place (some i) n = none := by simp [place, ha, hglobal]
      rw [hplace]
      have hlocal : Exec.lookupLocal s.scopes n (s.scopes.size + 1) (some i) = none := by
        simp [Exec.lookupLocal, ha, hglobal]
      simp [found?, write, hlocal, Bindings.get?_set]
    · have hplace : s.place (some i) n = some i := by simp [place, ha, hglobal, hnonlocal]
      rw [hplace]
      exact found?_own ha hglobal

/-! ## Names that are bound again -/

/-- As far as a name goes, `t` is `s`, possibly with another value bound to it. -/
def Rebinds (s : State) (env : Env) (n : String) (t : State) : Prop :=
  s.Keeps s.scopes.size n t ∨
    ∃ v, (s.write (s.place env n) n v).Keeps s.scopes.size n t

namespace Rebinds

theorem place_eq (h : s.Rebinds env n t) (hs : s.Nested s.scopes.size)
    (henv : Env.Below s.scopes.size env) : t.place env n = s.place env n := by
  obtain h | ⟨v, h⟩ := h
  · exact h.place_eq hs henv
  · rw [h.place_eq (hs.write _ n v) henv, place_write_place hs henv]

theorem trans (h : s.Rebinds env n t) (h' : t.Keeps s.scopes.size n u) : s.Rebinds env n u := by
  obtain h | ⟨v, h⟩ := h
  · exact .inl (h.trans h')
  · exact .inr ⟨v, h.trans h'⟩

/-- Binding the name once more. -/
theorem write (h : s.Rebinds env n t) (v : Value) :
    (s.write (s.place env n) n v).Keeps s.scopes.size n (t.write (s.place env n) n v) := by
  obtain h | ⟨w, h⟩ := h
  · exact h.write _ v
  · exact (keeps_write_write (Nat.le_refl _) _ w v).trans (h.write _ v)

/-- The name in another place is left alone. -/
theorem held?_eq (h : s.Rebinds env n t) {q : Env} (hq : Env.Below s.scopes.size q)
    (hne : s.place env n ≠ q) : t.held? q n = s.held? q n := by
  obtain h | ⟨v, h⟩ := h
  · exact h.held?_eq hq
  · rw [h.held?_eq hq, held?_write_of_ne hne]

end Rebinds

end State

end Concord.Machine
