import Concord.Proofs.Machine.Plain
import Concord.Proofs.Tree.Substitution
import Mathlib.Data.List.Forall2

/-!
# Variables that are hidden

Two programs differ in the body of one function and leave different values in a few of its variables,
the hidden ones. While a call of the function goes on, its variables are the same in both runs; when it
is over, the hidden ones may differ for good. Nothing sees them then, if the functions made inside the
call do not mention them.

A `Stage` says where a scope stands to such calls, and `Stages` lists the stages of all scopes made so
far. Two frames are akin (`Frame.Akin`) if they agree but for the hidden variables of calls that are
over, and for the bodies that are exchanged. Of one call that goes on, the hidden variables may differ as
well, if it is known what they are (it is pinned).
-/

namespace Concord

/-! ## Parts of a program and hidden variables -/

namespace Node

/-- What the part makes outlives a call without access to the hidden variables: functions do not
mention them, and no declaration moves them elsewhere. -/
def shelters (hidden : List String) : Node → Bool
  | .expr (.lambda _ body) => body.subterms.all fun e => avoids hidden (.expr e)
  | .stmt (.define f) => (Block.nodes f.body).all (avoids hidden)
  | .stmt (.globals ns) | .stmt (.nonlocals ns) => ns.all (!hidden.contains ·)
  | _ => true

end Node

namespace Machine

/-- Where a scope stands to the calls that hide variables. -/
inductive Stage where
  /-- It has nothing to do with such a call. -/
  | apart
  /-- It belongs to a call that goes on. -/
  | running
  /-- It belongs to a call that is over. -/
  | ended
  /-- It belongs to a call that goes on with hidden variables that differ, and these are what they are
  in each of the runs. -/
  | pinned (left right : String → Option Value)
  /-- It belongs to something made inside a call that mentions nothing hidden. -/
  | shaded
  /-- It belongs to a comprehension in the scope numbered `outer` that binds none of the names. -/
  | clear (names : List String) (outer : Nat)

namespace Stage

/-- The stage when the call is over. -/
def finished : Stage → Stage
  | running => ended
  | g => g

/-- Whether nothing may mention the hidden variables in a scope of this stage. -/
def hides : Stage → Bool
  | apart | running => false
  | ended | pinned _ _ | shaded | clear _ _ => true

/-- The stage of a comprehension in a scope of this stage. -/
def inner : Stage → Stage
  | apart => apart
  | running => running
  | _ => shaded

/-- A scope of this stage can stand inside one of stage `outer`. -/
def Within : Stage → Stage → Prop
  | apart, outer => outer = apart
  | running, outer => outer.hides = false
  | _, _ => True

/-- A scope of this stage can be made inside one of stage `outer`. -/
def Opens : Stage → Stage → Prop
  | apart, outer => outer = apart
  | running, outer => outer = running
  | shaded, _ => True
  | ended, _ | pinned _ _, _ | clear _ _, _ => False

/-- The names that are not declared to belong elsewhere. -/
def reserved (hidden : List String) : Stage → List String
  | apart => []
  | clear names _ => names ++ hidden
  | _ => hidden

/-- The name stands for the same in both runs. -/
def Knows (hidden : List String) (g : Stage) (n : String) : Prop := g.hides = true → n ∉ hidden

/-- The name may be bound, in the same way in both runs. -/
def Takes (hidden : List String) (g : Stage) (n : String) : Prop :=
  g.hides = true → n ∉ g.reserved hidden

/-- The variable is the same in both runs. -/
def Holds (hidden : List String) (n : String) : Stage → Prop
  | apart | running | shaded | clear _ _ => True
  | ended | pinned _ _ => n ∉ hidden

/-- The part of a program may run in a scope of this stage. -/
def suits (hidden : List String) : Stage → Node → Bool
  | apart, _ => true
  | running, x => x.shelters hidden
  | g, x => x.avoids (g.reserved hidden)

theorem within_self (g : Stage) : g.Within g := by cases g <;> simp [Within, hides]

theorem opens_inner (g : Stage) : g.inner.Opens g := by cases g <;> simp [Opens, inner]

theorem Opens.within {g outer : Stage} (h : g.Opens outer) : g.Within outer := by
  cases g <;> simp_all [Opens, Within, hides]

theorem mem_reserved_of_mem {hidden : List String} {g : Stage} {n : String} (hg : g.hides = true)
    (hn : n ∈ hidden) : n ∈ g.reserved hidden := by
  cases g with
  | apart => cases hg
  | clear => exact List.mem_append_right _ hn
  | _ => exact hn

theorem Takes.knows {hidden : List String} {g : Stage} {n : String} (h : g.Takes hidden n) :
    g.Knows hidden n :=
  fun hg hn => h hg (mem_reserved_of_mem hg hn)

/-- What fits a scope fits a comprehension in it. -/
theorem suits_inner {hidden : List String} {g : Stage} {x : Node} (h : g.suits hidden x = true) :
    g.inner.suits hidden x = true := by
  cases g with
  | clear =>
    refine List.all_eq_true.mpr fun n hn => ?_
    have hfree := List.all_eq_true.mp h n hn
    simp_all [inner, reserved]
  | _ => exact h

theorem Knows.holds {hidden : List String} {g : Stage} {n : String} (h : g.Knows hidden n) :
    g.Holds hidden n := by
  cases g with
  | apart | running | shaded | clear => trivial
  | ended | pinned => exact h rfl

theorem Knows.outer {hidden : List String} {g outer : Stage} {n : String} (h : g.Knows hidden n)
    (hwithin : g.Within outer) : outer.Knows hidden n := by
  intro houter
  apply h
  cases g with
  | ended | pinned | shaded | clear => rfl
  | apart =>
    cases hwithin
    cases houter
  | running => simp_all [Within]

theorem Within.finished {g outer : Stage} (h : g.Within outer) : g.finished.Within outer.finished := by
  cases g <;> cases outer <;> simp_all [Within, Stage.finished, hides]

theorem Holds.of_finished {hidden : List String} {g : Stage} {n : String}
    (h : g.finished.Holds hidden n) : g.Holds hidden n := by
  cases g <;> first | exact h | trivial

@[simp] theorem finished_eq_apart_iff {g : Stage} : g.finished = apart ↔ g = apart := by
  cases g <;> simp [finished]

@[simp] theorem finished_eq_pinned_iff {g : Stage} {l r : String → Option Value} :
    g.finished = pinned l r ↔ g = pinned l r := by
  cases g <;> simp [finished]

@[simp] theorem finished_eq_clear_iff {g : Stage} {names : List String} {p : Nat} :
    g.finished = clear names p ↔ g = clear names p := by
  cases g <;> simp [finished]

@[simp] theorem reserved_finished {hidden : List String} (g : Stage) :
    g.finished.reserved hidden = g.reserved hidden := by
  cases g <;> rfl

theorem of_finished {g : Stage} (h : g.finished = running ∨ g.finished = ended) :
    g = running ∨ g = ended := by
  cases g <;> simp_all [finished]

end Stage

/-- The stages of all scopes, in the order in which they were made. -/
abbrev Stages := List Stage

namespace Stages

/-- The stage of the scope around a position. -/
def At (W : Stages) (env : Env) (g : Stage) : Prop :=
  match env with
  | none => g = .apart
  | some i => W[i]? = some g

/-- The stages when the call is over whose scope is the one numbered `i`. -/
def close (W : Stages) (i : Nat) : Stages := W.take i ++ (W.drop i).map Stage.finished

variable {W W' : Stages} {env : Env} {g : Stage} {i : Nat}

theorem At.mono (h : W.At env g) (hW : W <+: W') : W'.At env g := by
  cases env with
  | none => exact h
  | some i =>
    obtain ⟨more, rfl⟩ := hW
    show (W ++ more)[i]? = some g
    rw [List.getElem?_append_left (List.getElem?_eq_some_iff.mp h).1]
    exact h

theorem close_length : (W.close i).length = W.length := by
  simp only [close, List.length_append, List.length_take, List.length_map, List.length_drop]
  omega

theorem getElem?_close (j : Nat) :
    (W.close i)[j]? = if j < i then W[j]? else W[j]?.map Stage.finished := by
  by_cases hi : i ≤ W.length
  · by_cases hj : j < i
    · rw [close, List.getElem?_append_left (by simp only [List.length_take]; omega),
        List.getElem?_take_of_lt hj, if_pos hj]
    · rw [close, List.getElem?_append_right (by simp only [List.length_take]; omega), if_neg hj,
        List.getElem?_map, List.getElem?_drop, List.length_take_of_le hi]
      congr 2
      omega
  · rw [close, List.take_of_length_le (by omega), List.drop_of_length_le (by omega), List.map_nil,
      List.append_nil]
    split
    · rfl
    · rw [List.getElem?_eq_none (by omega)]
      rfl

theorem close_mono (h : W <+: W') (hi : i < W.length) : W.close i <+: W'.close i := by
  obtain ⟨more, rfl⟩ := h
  refine ⟨more.map Stage.finished, ?_⟩
  rw [close, close, List.take_append_of_le_length (by omega), List.drop_append_of_le_length (by omega),
    List.map_append, List.append_assoc]

end Stages

/-! ## Frames that are akin -/

section Akin

variable (hidden : List String) (swaps : Block → Block → Prop)

/-- The code mentions no hidden variable. -/
def Code.Avoids : Code → Prop
  | .block body => ∀ x ∈ Block.nodes body, x.avoids hidden = true
  | .expr e => ∀ x ∈ e.subterms, Node.avoids hidden (.expr x) = true

/-- Code made in a scope of this stage in the two runs. -/
def Code.Akin : Stage → Code → Code → Prop
  | .apart, c, d => c = d ∨ ∃ b b', swaps b b' ∧ c = .block b ∧ d = .block b'
  | _, c, d => c = d ∧ c.Avoids hidden

/-- Functions made alike. -/
structure Closure.Akin (W : Stages) (c d : Closure) : Prop where
  name : c.name = d.name
  params : c.params = d.params
  env : c.env = d.env
  made : ∃ g, W.At c.env g ∧ Code.Akin hidden swaps g c.code d.code

/-- The scope numbered `i` in the two runs. No scope of a call declares a hidden variable to belong
elsewhere. -/
structure Scope.Akin (W : Stages) (i : Nat) (g : Stage) (a b : Scope) : Prop where
  parent : a.parent = b.parent
  earlier : ∀ j, a.parent = some j → j < i
  outer : ∃ p, W.At a.parent p ∧ g.Within p
  vars : ∀ n, g.Holds hidden n → a.vars.get? n = b.vars.get? n
  globals : a.globals = b.globals
  nonlocals : a.nonlocals = b.nonlocals
  own : ∀ n ∈ g.reserved hidden, n ∉ a.globals ∧ n ∉ a.nonlocals
  pins : ∀ l r, g = .pinned l r → ∀ n ∈ hidden, a.vars.get? n = l n ∧ b.vars.get? n = r n
  clears : ∀ names p, g = .clear names p → a.parent = some p ∧ ∀ n ∈ names, a.vars.get? n = none

/-- Frames that agree but for hidden variables and exchanged bodies. Only calls with exchanged bodies hide
variables, and those that are pinned. -/
structure Frame.Akin (W : Stages) (F G : Frame) : Prop where
  globals : F.globals = G.globals
  handling : F.handling = G.handling
  closures : List.Forall₂ (Closure.Akin hidden swaps W) F.closures.toList G.closures.toList
  left : F.scopes.size = W.length
  right : G.scopes.size = W.length
  exchanged : ∀ g ∈ W, g = .running ∨ g = .ended → ∃ b b', swaps b b'
  scopes : ∀ (i : Nat) (g : Stage), W[i]? = some g →
    ∃ a b, F.scopes[i]? = some a ∧ G.scopes[i]? = some b ∧ Scope.Akin hidden W i g a b

end Akin

variable {hidden : List String} {swaps : Block → Block → Prop} {W W' : Stages} {F G : Frame}
  {env : Env} {g : Stage} {n : String} {i : Nat}

theorem Closure.Akin.mono {c d : Closure} (h : c.Akin hidden swaps W d) (hW : W <+: W') :
    c.Akin hidden swaps W' d := by
  obtain ⟨g, hat, hcode⟩ := h.made
  exact { h with made := ⟨g, hat.mono hW, hcode⟩ }

theorem Closure.Akin.close {c d : Closure} (h : c.Akin hidden swaps W d) :
    c.Akin hidden swaps (W.close i) d := by
  obtain ⟨g, hat, hcode⟩ := h.made
  cases henv : c.env with
  | none =>
    rw [henv] at hat
    exact { h with made := ⟨g, henv ▸ hat, hcode⟩ }
  | some j =>
    rw [henv] at hat
    have hat' : (W.close i)[j]? = some (if j < i then g else g.finished) := by
      rw [Stages.getElem?_close, show W[j]? = some g from hat]
      split <;> rfl
    refine { h with made := ⟨_, by rw [henv]; exact hat', ?_⟩ }
    split
    · exact hcode
    · cases g <;> exact hcode

theorem Scope.Akin.mono {a b : Scope} (h : Scope.Akin hidden W i g a b) (hW : W <+: W') :
    Scope.Akin hidden W' i g a b := by
  obtain ⟨p, hat, hwithin⟩ := h.outer
  exact { h with outer := ⟨p, hat.mono hW, hwithin⟩ }

/-- The scope when a call is over. -/
theorem Scope.Akin.close {a b : Scope} {j : Nat} (h : Scope.Akin hidden W j g a b) :
    Scope.Akin hidden (W.close i) j (if j < i then g else g.finished) a b := by
  obtain ⟨p, hat, hwithin⟩ := h.outer
  have hholds (n : String) (hn : (if j < i then g else g.finished).Holds hidden n) :
      g.Holds hidden n := by
    split at hn
    · exact hn
    · exact hn.of_finished
  refine { h with
    outer := ?_, vars := fun n hn => h.vars n (hholds n hn), own := fun n hn => h.own n ?_,
    pins := fun l r hg => h.pins l r ?_, clears := fun names p hg => h.clears names p ?_ }
  · cases hparent : a.parent with
    | none =>
      rw [hparent] at hat
      refine ⟨p, hat, ?_⟩
      cases hat
      split
      · exact hwithin
      · exact hwithin.finished
    | some k =>
      rw [hparent] at hat
      have hlt := h.earlier k hparent
      refine ⟨if k < i then p else p.finished, ?_, ?_⟩
      · show (W.close i)[k]? = _
        rw [Stages.getElem?_close, show W[k]? = some p from hat]
        split <;> rfl
      · -- The scope around is older, so it is closed only if this one is.
        split
        · rw [if_pos (by omega)]
          exact hwithin
        · split
          · cases g <;> cases p <;> simp_all [Stage.Within, Stage.finished, Stage.hides]
          · exact hwithin.finished
  · split at hn
    · exact hn
    · exact Stage.reserved_finished g ▸ hn
  · split at hg
    · exact hg
    · exact Stage.finished_eq_pinned_iff.mp hg
  · split at hg
    · exact hg
    · exact Stage.finished_eq_clear_iff.mp hg

namespace Frame.Akin

theorem names (h : F.Akin hidden swaps W G) :
    G.closures.map (·.name) = F.closures.map (·.name) := by
  have hnames {cs ds : List Closure} (h : List.Forall₂ (Closure.Akin hidden swaps W) cs ds) :
      ds.map (·.name) = cs.map (·.name) := by
    induction h with
    | nil => rfl
    | cons h _ ih => rw [List.map_cons, List.map_cons, h.name, ih]
  apply Array.ext'
  rw [Array.toList_map, Array.toList_map]
  exact hnames h.closures

theorem close (h : F.Akin hidden swaps W G) : F.Akin hidden swaps (W.close i) G := by
  -- A stage afterwards comes from one that was there.
  have hbefore {j : Nat} {g' : Stage} (hj : (W.close i)[j]? = some g') :
      ∃ g, W[j]? = some g ∧ g' = if j < i then g else g.finished := by
    rw [Stages.getElem?_close] at hj
    split at hj
    · exact ⟨g', hj, (if_pos ‹_›).symm⟩
    · obtain ⟨g, hg, rfl⟩ := Option.map_eq_some_iff.mp hj
      exact ⟨g, hg, (if_neg ‹_›).symm⟩
  refine { h with closures := ?_, left := ?_, right := ?_, exchanged := ?_, scopes := ?_ }
  · exact h.closures.imp fun _ _ hcd => hcd.close
  · rw [h.left, Stages.close_length]
  · rw [h.right, Stages.close_length]
  · intro g' hg' hof
    obtain ⟨j, hj⟩ := List.mem_iff_getElem?.mp hg'
    obtain ⟨g, hg, rfl⟩ := hbefore hj
    refine h.exchanged g (List.mem_of_getElem? hg) ?_
    split at hof
    · exact hof
    · exact Stage.of_finished hof
  · intro j g' hj
    obtain ⟨g, hg, rfl⟩ := hbefore hj
    obtain ⟨a, b, ha, hb, hab⟩ := h.scopes j g hg
    exact ⟨a, b, ha, hb, hab.close⟩

/-! ## Names -/

theorem lookupLocal_eq (h : F.Akin hidden swaps W G) (fuel : Nat) (hat : W.At env g)
    (hn : g.Knows hidden n) :
    Exec.lookupLocal F.scopes n fuel env = Exec.lookupLocal G.scopes n fuel env := by
  induction fuel generalizing env g with
  | zero => rfl
  | succ fuel ih =>
    cases env with
    | none => rfl
    | some i =>
      obtain ⟨a, b, ha, hb, hab⟩ := h.scopes i g hat
      obtain ⟨p, hp, hwithin⟩ := hab.outer
      rw [Exec.lookupLocal, Exec.lookupLocal, ha, hb]
      dsimp only
      rw [hab.globals, hab.vars n hn.holds, ih hp (hn.outer hwithin), hab.parent]

/-- The nearest scope around that binds a name is the same. -/
theorem binder?_eq (h : F.Akin hidden swaps W G) (fuel : Nat) (hat : W.At env g)
    (hn : g.Knows hidden n) :
    Exec.binder? F.scopes n fuel env = Exec.binder? G.scopes n fuel env := by
  induction fuel generalizing env g with
  | zero => rfl
  | succ fuel ih =>
    cases env with
    | none => rfl
    | some i =>
      obtain ⟨a, b, ha, hb, hab⟩ := h.scopes i g hat
      obtain ⟨p, hp, hwithin⟩ := hab.outer
      rw [Exec.binder?, Exec.binder?, ha, hb]
      dsimp only
      rw [hab.vars n hn.holds, ih hp (hn.outer hwithin), hab.parent]

/-- A name that is known may be bound again where it is bound. -/
theorem takes_of_binder? (h : F.Akin hidden swaps W G) (fuel : Nat) (hat : W.At env g)
    (hn : g.Knows hidden n) {j : Nat} (hj : Exec.binder? F.scopes n fuel env = some j) :
    ∀ p, W[j]? = some p → p.Takes hidden n := by
  induction fuel generalizing env g with
  | zero => cases hj
  | succ fuel ih =>
    cases env with
    | none => cases hj
    | some i =>
      obtain ⟨a, b, ha, hb, hab⟩ := h.scopes i g hat
      obtain ⟨p, hp, hwithin⟩ := hab.outer
      rw [Exec.binder?, ha] at hj
      dsimp only at hj
      split at hj
      · next hbound =>
        cases hj
        intro p hp
        cases hp.symm.trans hat
        intro hg hmem
        cases g with
        | clear names p =>
          obtain hmem | hmem := List.mem_append.mp hmem
          · rw [(hab.clears names p rfl).2 n hmem] at hbound
            cases hbound
          · exact hn hg hmem
        | apart | running => cases hg
        | ended | pinned | shaded => exact hn hg hmem
      · exact ih hp (hn.outer hwithin) hj

/-! ## Changes of a frame -/

theorem modifyScope (h : F.Akin hidden swaps W G) (i : Nat) {f : Scope → Scope}
    (hf : ∀ g a b, W[i]? = some g → Scope.Akin hidden W i g a b →
      Scope.Akin hidden W i g (f a) (f b)) :
    Frame.Akin hidden swaps W { F with scopes := F.scopes.modify i f }
      { G with scopes := G.scopes.modify i f } := by
  refine { h with left := ?_, right := ?_, scopes := ?_ }
  · exact Array.size_modify.trans h.left
  · exact Array.size_modify.trans h.right
  · intro j g hj
    obtain ⟨a, b, ha, hb, hab⟩ := h.scopes j g hj
    dsimp only
    rw [Array.getElem?_modify, Array.getElem?_modify, ha, hb]
    by_cases hij : i = j
    · subst hij
      exact ⟨f a, f b, by simp, by simp, hf g a b hj hab⟩
    · exact ⟨a, b, by simp [hij], by simp [hij], hab⟩

/-- Both runs give a variable the same value, where it may be bound. -/
theorem setVar (h : F.Akin hidden swaps W G) {i : Nat} {n : String}
    (hn : ∀ p, W[i]? = some p → p.Takes hidden n) (v : Value) :
    Frame.Akin hidden swaps W
      { F with scopes := F.scopes.modify i fun a => { a with vars := a.vars.set n v } }
      { G with scopes := G.scopes.modify i fun a => { a with vars := a.vars.set n v } } := by
  refine h.modifyScope i fun g a b hi hab => { hab with vars := fun m hm => ?_, pins := ?_, clears := ?_ }
  · simp only [Bindings.get?_set, hab.vars m hm]
  · rintro l r rfl m hm
    have hne : n ≠ m := fun he => hn _ hi rfl (he ▸ hm)
    simp only [Bindings.get?_set, beq_iff_eq, hne, if_false]
    exact hab.pins l r rfl m hm
  · rintro names p rfl
    obtain ⟨hparent, hclear⟩ := hab.clears names p rfl
    refine ⟨hparent, fun m hm => ?_⟩
    have hne : n ≠ m := fun he => hn _ hi rfl (List.mem_append_left _ (he ▸ hm))
    simp only [Bindings.get?_set, beq_iff_eq, hne, if_false]
    exact hclear m hm

/-- One run alone gives a hidden variable a value, in the scope of a call that is then over. -/
theorem setHidden (h : F.Akin hidden swaps W G) {i : Nat} (hi : W[i]? = some .running)
    (hn : n ∈ hidden) (v : Value) :
    Frame.Akin hidden swaps (W.close i)
      { F with scopes := F.scopes.modify i fun a => { a with vars := a.vars.set n v } } G := by
  have hclosed := h.close (i := i)
  have hi' : (W.close i)[i]? = some .ended := by
    rw [Stages.getElem?_close, if_neg (Nat.lt_irrefl i), hi]
    rfl
  refine { hclosed with left := Array.size_modify.trans hclosed.left, scopes := ?_ }
  intro j g hj
  obtain ⟨a, b, ha, hb, hab⟩ := hclosed.scopes j g hj
  dsimp only
  rw [Array.getElem?_modify, ha]
  by_cases hij : i = j
  · subst hij
    cases hi'.symm.trans hj
    refine ⟨{ a with vars := a.vars.set n v }, b, by simp, hb,
      { hab with vars := ?_, pins := nofun, clears := nofun }⟩
    intro m hm
    have hne : n ≠ m := fun he => hm (he ▸ hn)
    simp only [Bindings.get?_set, beq_iff_eq, hne, if_false, hab.vars m hm]
  · exact ⟨a, b, by simp [hij], hb, hab⟩

/-- A new scope inside one that is there. -/
theorem pushScope (h : F.Akin hidden swaps W G) {outer : Stage} (hat : W.At env outer)
    (hwithin : g.Within outer) (hswaps : g = .running ∨ g = .ended → ∃ b b', swaps b b')
    {vars : Bindings}
    (hpins : ∀ l r, g = .pinned l r → ∀ n ∈ hidden, vars.get? n = l n ∧ vars.get? n = r n)
    (hclear : ∀ names p, g = .clear names p → env = some p ∧ ∀ n ∈ names, vars.get? n = none) :
    Frame.Akin hidden swaps (W ++ [g]) { F with scopes := F.scopes.push { vars, parent := env } }
      { G with scopes := G.scopes.push { vars, parent := env } } := by
  have hgrown : W <+: W ++ [g] := List.prefix_append W [g]
  have hold {i : Nat} {g' : Stage} (hi : (W ++ [g])[i]? = some g') (hlast : i ≠ W.length) :
      i < W.length ∧ W[i]? = some g' := by
    have hlt : i < W.length := by
      have := (List.getElem?_eq_some_iff.mp hi).1
      simp only [List.length_append, List.length_cons, List.length_nil] at this
      omega
    rw [List.getElem?_append_left hlt] at hi
    exact ⟨hlt, hi⟩
  refine { h with closures := ?_, left := ?_, right := ?_, exchanged := ?_, scopes := ?_ }
  · exact h.closures.imp fun _ _ hcd => hcd.mono hgrown
  · simp [h.left]
  · simp [h.right]
  · intro g' hg'
    obtain hg' | hg' := List.mem_append.mp hg'
    · exact h.exchanged g' hg'
    · rw [List.mem_singleton.mp hg']
      exact hswaps
  · intro i g' hi
    by_cases hlast : i = W.length
    · subst hlast
      rw [List.getElem?_concat_length] at hi
      cases hi
      refine ⟨{ vars, parent := env }, { vars, parent := env }, by simp [← h.left],
        by simp [← h.right], ?_⟩
      refine ⟨rfl, ?_, ⟨outer, hat.mono hgrown, hwithin⟩, fun _ _ => rfl, rfl, rfl, ?_, hpins, hclear⟩
      · rintro j rfl
        exact (List.getElem?_eq_some_iff.mp hat).1
      · intro n _
        exact ⟨List.not_mem_nil, List.not_mem_nil⟩
    · obtain ⟨hlt, hi⟩ := hold hi hlast
      obtain ⟨a, b, ha, hb, hab⟩ := h.scopes i g' hi
      refine ⟨a, b, ?_, ?_, hab.mono hgrown⟩
      · rw [Array.getElem?_push_lt (h.left ▸ hlt)]
        exact (Array.getElem?_eq_getElem _).symm.trans ha
      · rw [Array.getElem?_push_lt (h.right ▸ hlt)]
        exact (Array.getElem?_eq_getElem _).symm.trans hb

/-- A new scope that can be made inside one that is there. -/
theorem openScope (h : F.Akin hidden swaps W G) {outer : Stage} (hat : W.At env outer)
    (hopens : g.Opens outer) (vars : Bindings) :
    Frame.Akin hidden swaps (W ++ [g]) { F with scopes := F.scopes.push { vars, parent := env } }
      { G with scopes := G.scopes.push { vars, parent := env } } := by
  refine h.pushScope hat hopens.within ?_ ?_ ?_
  · rintro (rfl | rfl)
    · obtain rfl : outer = .running := hopens
      cases env with
      | none => cases hat
      | some i => exact h.exchanged .running (List.mem_of_getElem? hat) (.inl rfl)
    · exact absurd hopens id
  · rintro l r rfl
    exact absurd hopens id
  · rintro names p rfl
    exact absurd hopens id

theorem pushClosure (h : F.Akin hidden swaps W G) {c d : Closure} (hcd : c.Akin hidden swaps W d) :
    Frame.Akin hidden swaps W { F with closures := F.closures.push c }
      { G with closures := G.closures.push d } := by
  refine { h with closures := ?_ }
  dsimp only
  rw [Array.toList_push, Array.toList_push]
  exact List.rel_append h.closures (.cons hcd .nil)

end Frame.Akin

end Machine

end Concord
