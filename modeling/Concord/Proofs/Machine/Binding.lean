import Concord.Proofs.Machine.Twin

/-!
# Names in two programs that are alike

Looking a name up, binding it and declaring it: two programs that are alike do so under names that mean
the same, and their states stay related. A new scope makes the world grow by its ribs.
-/

namespace Concord.Machine

variable {α β : Type} {locals : List String} {W W' : World} {ρ : Ribs}

/-- Scopes hold nothing under the name of a local variable that they do not bind; `names` are the names
bound around a position. -/
def Hides (locals : List String) (W : World) (names : Ribs → List String) (scopes : Array Scope) :
    Prop :=
  ∀ (i : Nat) (ρ : Ribs), W[i]? = some ρ → ∃ a, scopes[i]? = some a ∧ W.Sees a.parent ρ.tail ∧
    ∀ n ∈ locals, n ∉ names ρ → a.vars.get? n = none

namespace Hides

variable {names : Ribs → List String} {scopes : Array Scope} {n : String}

theorem lookupLocal_eq_none (h : Hides locals W names scopes)
    (htail : ∀ ρ : Ribs, ∀ n ∈ names ρ.tail, n ∈ names ρ) (hn : n ∈ locals) (fuel : Nat) {env : Env}
    (hsees : W.Sees env ρ) (hnames : n ∉ names ρ) : Exec.lookupLocal scopes n fuel env = none := by
  induction fuel generalizing env ρ with
  | zero => rfl
  | succ fuel ih =>
    cases env with
    | none => rfl
    | some i =>
      obtain ⟨a, ha, houter, hvars⟩ := h i ρ hsees
      rw [Exec.lookupLocal, ha]
      dsimp only
      rw [hvars n hn hnames, ih houter fun hmem => hnames (htail ρ n hmem)]
      split <;> rfl

theorem binder?_eq_none (h : Hides locals W names scopes)
    (htail : ∀ ρ : Ribs, ∀ n ∈ names ρ.tail, n ∈ names ρ) (hn : n ∈ locals) (fuel : Nat) {env : Env}
    (hsees : W.Sees env ρ) (hnames : n ∉ names ρ) : Exec.binder? scopes n fuel env = none := by
  induction fuel generalizing env ρ with
  | zero => rfl
  | succ fuel ih =>
    cases env with
    | none => rfl
    | some i =>
      obtain ⟨a, ha, houter, hvars⟩ := h i ρ hsees
      rw [Exec.binder?, ha]
      dsimp only
      rw [hvars n hn hnames, ih houter fun hmem => hnames (htail ρ n hmem)]
      rfl

end Hides

namespace Bindings.Twins

variable {a b : Bindings} {n m : String}

theorem nil (ρ : Ribs) : Bindings.Twins locals ρ [] [] :=
  ⟨fun _ _ _ => rfl, fun _ _ _ => rfl, fun _ _ _ => rfl⟩

/-- Giving a value to names that mean the same. -/
theorem set (h : Bindings.Twins locals ρ a b) (hρ : ρ.Proper locals) (hnm : ρ.Tied locals n m)
    (v : Value) : Bindings.Twins locals ρ (a.set n v) (b.set m v) := by
  constructor
  · intro n' m' hnm'
    have hinj := hnm.inj hnm' hρ
    simp only [Bindings.get?_set, beq_iff_eq, hinj, h.same n' m' hnm']
  · intro n' hn' hleft
    have hne : n ≠ n' := by
      rintro rfl
      exact hnm.elim (fun hpair => hleft (Ribs.mem_lefts hpair)) fun hfree => hfree.2 hn'
    simp only [Bindings.get?_set, beq_iff_eq, hne, if_false, h.left n' hn' hleft]
  · intro m' hm' hright
    have hne : m ≠ m' := by
      rintro rfl
      exact hnm.elim (fun hpair => hright (Ribs.mem_rights hpair))
        fun hfree => (hfree.1 ▸ hfree.2) hm'
    simp only [Bindings.get?_set, beq_iff_eq, hne, if_false, h.right m' hm' hright]

end Bindings.Twins

namespace Scope.Twins

variable {a b : Scope} {n m : String}

/-- New scopes around nothing but their variables. -/
theorem fresh {r : Rib} {env : Env} {vars vars' : Bindings} (hr : Ribs.Proper locals (r :: ρ))
    (hsees : W.Sees env ρ) (hvars : Bindings.Twins locals (r :: ρ) vars vars') :
    Scope.Twins locals W (r :: ρ) { vars := vars, parent := env } { vars := vars', parent := env } where
  proper := hr
  parent := rfl
  outer := hsees
  vars := hvars
  globals := rfl
  globalsFree := nofun
  nonlocals := .nil

theorem mem_globals_iff (h : Scope.Twins locals W ρ a b) (hnm : ρ.Tied locals n m) :
    n ∈ a.globals ↔ m ∈ b.globals := by
  rw [← h.globals]
  constructor
  · intro hn
    exact hnm.eq_of_left h.proper (h.globalsFree n hn) ▸ hn
  · intro hm
    exact hnm.eq_of_right h.proper (h.globalsFree m hm) ▸ hm

theorem mem_nonlocals_iff (h : Scope.Twins locals W ρ a b) (hnm : ρ.Tied locals n m) :
    n ∈ a.nonlocals ↔ m ∈ b.nonlocals := by
  have hnonlocals := h.nonlocals
  generalize a.nonlocals = ns, b.nonlocals = ms at hnonlocals
  induction hnonlocals with
  | nil => simp
  | cons hpair _ ih =>
    have hinj := hnm.inj (.inl (Ribs.mem_of_mem_tail hpair)) h.proper
    rw [List.mem_cons, List.mem_cons]
    exact or_congr hinj ih

/-- A name that is declared nonlocal means outside what it means here. -/
theorem tied_outside (h : Scope.Twins locals W ρ a b) (hnm : ρ.Tied locals n m)
    (hn : n ∈ a.nonlocals) : Ribs.Tied locals ρ.tail n m := by
  refine (hnm.outside h.proper).resolve_right fun hhidden => hhidden.2.1 ?_
  have hnonlocals := h.nonlocals
  generalize a.nonlocals = ns, b.nonlocals = ms at hnonlocals hn
  induction hnonlocals with
  | nil => cases hn
  | cons hpair _ ih =>
    rcases List.mem_cons.mp hn with rfl | hn
    · exact Ribs.mem_lefts hpair
    · exact ih hn

end Scope.Twins

/-- The frame with one scope changed. -/
def Frame.modifyScope (i : Nat) (f : Scope → Scope) (F : Frame) : Frame :=
  { F with scopes := F.scopes.modify i f }

namespace Frame.Twins

variable {F G : Frame} {n m : String} {env : Env}

theorem hidesLeft (h : F.Twins locals W G) : Hides locals W Ribs.lefts F.scopes := by
  intro i ρ hi
  obtain ⟨a, b, ha, -, hab⟩ := h.scopes i ρ hi
  exact ⟨a, ha, hab.outer, hab.vars.left⟩

theorem hidesRight (h : F.Twins locals W G) : Hides locals W Ribs.rights G.scopes := by
  intro i ρ hi
  obtain ⟨a, b, -, hb, hab⟩ := h.scopes i ρ hi
  exact ⟨b, hb, hab.parent ▸ hab.outer, hab.vars.right⟩

theorem modifyScope (h : F.Twins locals W G) {i : Nat} (hi : W[i]? = some ρ) {f g : Scope → Scope}
    (hfg : ∀ a b, Scope.Twins locals W ρ a b → Scope.Twins locals W ρ (f a) (g b)) :
    (F.modifyScope i f).Twins locals W (G.modifyScope i g) := by
  refine { h with left := ?_, right := ?_, scopes := ?_ }
  · exact Array.size_modify.trans h.left
  · exact Array.size_modify.trans h.right
  · intro j ρ' hj
    obtain ⟨a, b, ha, hb, hab⟩ := h.scopes j ρ' hj
    rw [Frame.modifyScope, Frame.modifyScope, Array.getElem?_modify, Array.getElem?_modify, ha, hb]
    by_cases hij : i = j
    · subst hij
      cases hi.symm.trans hj
      exact ⟨f a, g b, by simp, by simp, hfg a b hab⟩
    · exact ⟨a, b, by simp [hij], by simp [hij], hab⟩

theorem lookupLocal_eq (h : F.Twins locals W G) (fuel : Nat) (hsees : W.Sees env ρ)
    (hnm : ρ.Tied locals n m) :
    Exec.lookupLocal F.scopes n fuel env = Exec.lookupLocal G.scopes m fuel env := by
  induction fuel generalizing env ρ with
  | zero => rfl
  | succ fuel ih =>
    cases env with
    | none => rfl
    | some i =>
      obtain ⟨a, b, ha, hb, hab⟩ := h.scopes i ρ hsees
      have hrest : Exec.lookupLocal F.scopes n fuel a.parent =
          Exec.lookupLocal G.scopes m fuel b.parent := by
        rw [← hab.parent]
        -- Names bound by this very scope stand for nothing further out, on either side.
        obtain htied | ⟨hn, hleft, hm, hright⟩ := hnm.outside hab.proper
        · exact ih hab.outer htied
        · rw [h.hidesLeft.lookupLocal_eq_none Ribs.lefts_tail hn fuel hab.outer hleft,
            h.hidesRight.lookupLocal_eq_none Ribs.rights_tail hm fuel hab.outer hright]
      rw [Exec.lookupLocal, Exec.lookupLocal, ha, hb]
      simp only [List.contains_eq_mem, hab.mem_globals_iff hnm, hab.vars.same n m hnm, hrest]

/-- The nearest scopes around that bind names that mean the same. -/
theorem binder?_eq (h : F.Twins locals W G) (fuel : Nat) (hsees : W.Sees env ρ)
    (hnm : ρ.Tied locals n m) :
    Exec.binder? F.scopes n fuel env = Exec.binder? G.scopes m fuel env ∧
      ∀ j, Exec.binder? F.scopes n fuel env = some j → ∃ ρ', W[j]? = some ρ' ∧ ρ'.Tied locals n m := by
  induction fuel generalizing env ρ with
  | zero => exact ⟨rfl, nofun⟩
  | succ fuel ih =>
    cases env with
    | none => exact ⟨rfl, nofun⟩
    | some i =>
      obtain ⟨a, b, ha, hb, hab⟩ := h.scopes i ρ hsees
      rw [Exec.binder?, Exec.binder?, ha, hb]
      dsimp only
      rw [hab.vars.same n m hnm, ← hab.parent]
      split
      · refine ⟨rfl, fun j hj => ?_⟩
        cases hj
        exact ⟨ρ, hsees, hnm⟩
      · obtain htied | ⟨hn, hleft, hm, hright⟩ := hnm.outside hab.proper
        · exact ih hab.outer htied
        · rw [h.hidesLeft.binder?_eq_none Ribs.lefts_tail hn fuel hab.outer hleft,
            h.hidesRight.binder?_eq_none Ribs.rights_tail hm fuel hab.outer hright]
          exact ⟨rfl, nofun⟩

/-- What is around a position is bound once. -/
theorem proper (h : F.Twins locals W G) (hsees : W.Sees env ρ) : ρ.Proper locals := by
  cases env with
  | none =>
    cases hsees
    exact Ribs.proper_nil
  | some i =>
    obtain ⟨a, b, -, -, hab⟩ := h.scopes i ρ hsees
    exact hab.proper

/-- Outside of all scopes, names that mean the same stand for the same. -/
theorem outside_eq (h : F.Twins locals W G) (hsees : W.Sees env ρ) (hnm : ρ.Tied locals n m) :
    (F.globals.get? n).or (Value.predefined? n) = (G.globals.get? m).or (Value.predefined? m) := by
  have hρ := h.proper hsees
  rw [← h.globals]
  rcases hnm with hpair | ⟨rfl, -⟩
  · rw [h.hidden n (hρ.lefts_local n (Ribs.mem_lefts hpair)),
      h.hidden m (hρ.rights_local m (Ribs.mem_rights hpair))]
  · rfl

theorem pushScope {a b : Scope} (h : F.Twins locals W G) (hab : Scope.Twins locals W ρ a b) :
    Frame.Twins locals (W ++ [ρ]) { F with scopes := F.scopes.push a }
      { G with scopes := G.scopes.push b } := by
  have hgrown : W <+: W ++ [ρ] := List.prefix_append W [ρ]
  refine { h with closures := ?_, left := ?_, right := ?_, scopes := ?_ }
  · exact h.closures.imp fun _ _ hcd => hcd.mono hgrown
  · simp [h.left]
  · simp [h.right]
  · intro i ρ' hi
    by_cases hlast : i = W.length
    · subst hlast
      rw [List.getElem?_concat_length] at hi
      cases hi
      exact ⟨a, b, by simp [← h.left], by simp [← h.right], hab.mono hgrown⟩
    · have hlt : i < W.length := by
        have := (List.getElem?_eq_some_iff.mp hi).1
        simp only [List.length_append, List.length_cons, List.length_nil] at this
        omega
      rw [List.getElem?_append_left hlt] at hi
      obtain ⟨a', b', ha, hb, hab'⟩ := h.scopes i ρ' hi
      refine ⟨a', b', ?_, ?_, hab'.mono hgrown⟩
      · rw [Array.getElem?_push_lt (h.left ▸ hlt)]
        exact (Array.getElem?_eq_getElem _).symm.trans ha
      · rw [Array.getElem?_push_lt (h.right ▸ hlt)]
        exact (Array.getElem?_eq_getElem _).symm.trans hb

end Frame.Twins

namespace Twins

variable {R : α → β → Prop} {n m : String} {env : Env}

theorem modifyScope {i : Nat} {f g : Scope → Scope} (hi : W[i]? = some ρ)
    (hfg : ∀ W' a b, Scope.Twins locals W' ρ a b → Scope.Twins locals W' ρ (f a) (g b)) :
    Twins locals W Eq (modify fun s => { s with scopes := s.scopes.modify i f } : Exec Unit)
      (modify fun s => { s with scopes := s.scopes.modify i g }) :=
  reframe (f := Frame.modifyScope i f) (g := Frame.modifyScope i g) fun W' _ _ hW h =>
    h.modifyScope (World.getElem?_mono hW hi) (hfg W')

theorem bindIn {i : Nat} (hi : W[i]? = some ρ) (hnm : ρ.Tied locals n m) (v : Value) :
    Twins locals W Eq (Exec.bindIn i n v) (Exec.bindIn i m v) :=
  modifyScope hi fun _ _ _ h => { h with vars := h.vars.set h.proper hnm v }

theorem bindGlobal (hn : n ∉ locals) (v : Value) :
    Twins locals W Eq (Exec.bindGlobal n v) (Exec.bindGlobal n v) := by
  refine reframe (f := fun F => { F with globals := F.globals.set n v })
    (g := fun G => { G with globals := G.globals.set n v }) fun W' F G _ h => ?_
  refine { h with globals := congrArg (Bindings.set n v) h.globals, hidden := ?_ }
  intro n' hn'
  have hne : n ≠ n' := fun he => hn (he ▸ hn')
  simp only [Bindings.get?_set, beq_iff_eq, hne, if_false, h.hidden n' hn']

/-- Binding names that mean the same. -/
theorem bindName (hsees : W.Sees env ρ) (hnm : ρ.Tied locals n m) (v : Value) :
    Twins locals W Eq (Exec.bind env n v) (Exec.bind env m v) := by
  cases env with
  | none =>
    cases hsees
    obtain ⟨rfl, hn⟩ := hnm.resolve_left (by simp)
    exact bindGlobal hn v
  | some i =>
    intro W' hW s t hst
    have hi := World.getElem?_mono hW hsees
    obtain ⟨a, b, ha, hb, hab⟩ := hst.frame.scopes i ρ hi
    have hbind {s : State} {n : String} {a : Scope} (ha : s.scopes[i]? = some a) :
        Exec.bind (some i) n v s =
          (if a.globals.contains n then Exec.bindGlobal n v
          else if a.nonlocals.contains n then
            Exec.bindIn ((Exec.binder? s.scopes n (s.scopes.size + 1) a.parent).getD i) n v
          else Exec.bindIn i n v : Exec Unit) s := by
      show (if (s.scopes[i]?.getD {}).globals.contains n then Exec.bindGlobal n v
          else if (s.scopes[i]?.getD {}).nonlocals.contains n then
            Exec.bindIn ((Exec.binder? s.scopes n (s.scopes.size + 1)
              (s.scopes[i]?.getD {}).parent).getD i) n v
          else Exec.bindIn i n v : Exec Unit) s = _
      rw [ha]
      rfl
    rw [hbind ha, hbind hb]
    simp only [List.contains_eq_mem, ← hab.mem_globals_iff hnm, ← hab.mem_nonlocals_iff hnm,
      decide_eq_true_eq]
    -- A name that is declared global is the same in both; one that is declared nonlocal is bound in the
    -- same scope further out, or here if no scope binds it.
    by_cases hglobal : n ∈ a.globals
    · obtain rfl := hnm.eq_of_left hab.proper (hab.globalsFree n hglobal)
      simp only [hglobal, if_true]
      exact bindGlobal (hab.globalsFree n hglobal) v W' List.prefix_rfl s t hst
    · by_cases hnonlocal : n ∈ a.nonlocals
      · have hsize : t.scopes.size = s.scopes.size := hst.frame.right.trans hst.frame.left.symm
        obtain ⟨hbinder, hfound⟩ := hst.frame.binder?_eq (s.scopes.size + 1) hab.outer
          (hab.tied_outside hnm hnonlocal)
        simp only [hglobal, hnonlocal, if_true, if_false]
        rw [hsize, ← hab.parent,
          show Exec.binder? t.scopes m _ _ = Exec.binder? s.scopes n _ _ from hbinder.symm]
        cases hj : Exec.binder? s.scopes n (s.scopes.size + 1) a.parent with
        | none => exact bindIn hi hnm v W' List.prefix_rfl s t hst
        | some j =>
          obtain ⟨ρ', hρ', hnm'⟩ := hfound j hj
          exact bindIn hρ' hnm' v W' List.prefix_rfl s t hst
      · simp only [hglobal, hnonlocal, if_false]
        exact bindIn hi hnm v W' List.prefix_rfl s t hst

/-! ## Declarations -/

theorem declareGlobals {names : List String} (hsees : W.Sees env ρ) (h : ∀ n ∈ names, n ∉ locals) :
    Twins locals W Eq (Exec.declareGlobals env names) (Exec.declareGlobals env names) := by
  cases env with
  | none => exact ret rfl
  | some i =>
    refine modifyScope hsees fun W' a b hab => { hab with globals := ?_, globalsFree := ?_ }
    · exact congrArg (· ++ names) hab.globals
    · exact List.forall_mem_append.mpr ⟨hab.globalsFree, h⟩

theorem declareNonlocals {names names' : List String} (hsees : W.Sees env ρ)
    (h : List.Forall₂ (fun n m => (n, m) ∈ ρ.tail.flatten) names names') :
    Twins locals W Eq (Exec.declareNonlocals env names) (Exec.declareNonlocals env names') := by
  cases env with
  | none => exact ret rfl
  | some i =>
    exact modifyScope hsees fun W' a b hab =>
      { hab with nonlocals := List.rel_append hab.nonlocals h }

/-! ## Lookups -/

theorem lookup (hsees : W.Sees env ρ) (hnm : ρ.Tied locals n m) :
    Twins locals W Eq (Exec.lookup env n) (Exec.lookup env m) := by
  intro W' hW s t hst
  refine ⟨W', List.prefix_rfl, ?_⟩
  have hsize : t.scopes.size = s.scopes.size := hst.frame.right.trans hst.frame.left.symm
  have hfound : (Exec.lookupLocal s.scopes n (s.scopes.size + 1) env).or
      ((s.globals.get? n).or (Value.predefined? n)) =
      (Exec.lookupLocal t.scopes m (t.scopes.size + 1) env).or
        ((t.globals.get? m).or (Value.predefined? m)) := by
    rw [hsize]
    exact congrArg₂ Option.or (hst.frame.lookupLocal_eq _ (hsees.mono hW) hnm)
      (hst.frame.outside_eq (hsees.mono hW) hnm)
  unfold Exec.lookup
  dsimp only
  rw [← hfound]
  split
  · exact .ok rfl hst
  · exact .error (.raise rfl) hst

/-! ## New scopes -/

/-- Go on in new scopes. -/
theorem newScope {a b : Scope} {f : Nat → Exec α} {g : Nat → Exec β}
    (hab : Scope.Twins locals W ρ a b)
    (h : ∀ (W' : World) (i : Nat), W <+: W' → W'.Sees (some i) ρ → Twins locals W' R (f i) (g i)) :
    Twins locals W R (Exec.newScope a >>= f) (Exec.newScope b >>= g) := by
  intro W₁ hW₁ s t hst
  -- The rest runs in a world with the ribs of the scope at its end.
  have hgrown : W₁ <+: W₁ ++ [ρ] := List.prefix_append W₁ [ρ]
  have hsize : t.scopes.size = s.scopes.size := hst.frame.right.trans hst.frame.left.symm
  have hsees : World.Sees (W₁ ++ [ρ]) (some s.scopes.size) ρ := by
    rw [show s.scopes.size = W₁.length from hst.frame.left]
    exact List.getElem?_concat_length
  have hpush : State.Twins locals (W₁ ++ [ρ]) { s with scopes := s.scopes.push a }
      { t with scopes := t.scopes.push b } := by
    refine ⟨?_, hst.frame.pushScope (hab.mono hW₁)⟩
    conv_lhs => rw [hst.same]
    rfl
  obtain ⟨W₂, hW₂, hend⟩ := h (W₁ ++ [ρ]) s.scopes.size (hW₁.trans hgrown) hsees (W₁ ++ [ρ])
    List.prefix_rfl _ _ hpush
  refine ⟨W₂, hgrown.trans hW₂, ?_⟩
  show Ending.Twins locals W₂ R (f s.scopes.size { s with scopes := s.scopes.push a })
    (g t.scopes.size { t with scopes := t.scopes.push b })
  rw [hsize]
  exact hend

end Twins

end Concord.Machine
