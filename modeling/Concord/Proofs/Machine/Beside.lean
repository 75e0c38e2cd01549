import Concord.Proofs.Machine.Effect
import Concord.Proofs.Machine.Renumbered

/-!
# A run that starts later

A state grows (`State.Grown`) while steps only spend fuel and make new containers and functions. `Beside`
relates the states of two runs that grow alike. One starts in `b`, the other one in `e`, where more has
been made and less fuel is left. What was there in `b` has its place in both runs, if nothing in `b` refers
to what is not there (`State.Grounded`); what is made since stands as many places further in the second
run as that one had more at the start.
-/

namespace Concord.Machine

variable {α β γ δ : Type}

/-! ## States in which nothing is missing -/

/-- All containers and functions that the value refers to exist. -/
def Heap.Has (h : Heap) : Value → Prop
  | .list r => r < h.lists.size
  | .tuple r => r < h.tuples.size
  | .set r => r < h.sets.size
  | .dict r => r < h.dicts.size
  | .function r => r < h.closures.size
  | .method receiver _ => h.Has receiver
  | _ => True

/-- All that variables and containers refer to exists. -/
structure State.Grounded (s : State) : Prop where
  globals : ∀ b ∈ s.globals, s.heap.Has b.2
  scopes : ∀ a ∈ s.scopes, ∀ b ∈ a.vars, s.heap.Has b.2
  lists : ∀ items ∈ s.heap.lists, ∀ v ∈ items, s.heap.Has v
  tuples : ∀ items ∈ s.heap.tuples, ∀ v ∈ items, s.heap.Has v
  sets : ∀ members ∈ s.heap.sets, ∀ v ∈ members, s.heap.Has v
  dicts : ∀ entries ∈ s.heap.dicts, ∀ e ∈ entries, s.heap.Has e.1 ∧ s.heap.Has e.2

namespace State.Grounded

variable {s t : State} (h : s.Grounded)
include h

theorem lookupLocal {n : Nat} {env : Env} {name : String} {v : Value}
    (hv : Exec.lookupLocal s.scopes name n env = some v) : s.heap.Has v := by
  induction n generalizing env with
  | zero => cases hv
  | succ n ih =>
    cases env with
    | none => cases hv
    | some i =>
      rw [Exec.lookupLocal] at hv
      split at hv
      · cases hv
      case h_2 scope hscope =>
        split at hv
        · cases hv
        · rcases Option.or_eq_some_iff.mp hv with hvar | ⟨-, hrest⟩
          · obtain ⟨b, hb, rfl⟩ := Option.map_eq_some_iff.mp hvar
            exact h.scopes scope (Array.mem_of_getElem? hscope) b (List.mem_of_find?_eq_some hb)
          · exact ih hrest

/-- A name stands for something that is there, or for something predefined. -/
theorem lookup {env : Env} {name : String} {v : Value} (hv : Exec.lookup env name s = .ok v t) :
    s.heap.Has v ∨ Value.predefined? name = some v := by
  unfold Exec.lookup at hv
  dsimp only at hv
  split at hv
  case h_1 w hfound =>
    cases hv
    rcases Option.or_eq_some_iff.mp hfound with hlocal | ⟨-, houtside⟩
    · exact .inl (h.lookupLocal hlocal)
    · rcases Option.or_eq_some_iff.mp houtside with hglobal | ⟨-, hpredefined⟩
      · obtain ⟨b, hb, rfl⟩ := Option.map_eq_some_iff.mp hglobal
        exact .inl (h.globals b (List.mem_of_find?_eq_some hb))
      · exact .inr hpredefined
  · cases hv

end State.Grounded

/-! ## States that have grown -/

/-- The heap holds what there was, as it was, and maybe more. -/
structure Heap.Grown (g h : Heap) : Prop where
  lists : Persists g.lists h.lists
  tuples : Persists g.tuples h.tuples
  sets : Persists g.sets h.sets
  dicts : Persists g.dicts h.dicts
  closures : g.closures.size ≤ h.closures.size

/-- Fuel has been spent and new things have been made since. -/
structure State.Grown (s t : State) : Prop where
  fuel : t.fuel ≤ s.fuel
  globals : t.globals = s.globals
  scopes : t.scopes = s.scopes
  heap : s.heap.Grown t.heap

theorem Persists.trans {xs ys zs : Array α} (h : Persists xs ys) (h' : Persists ys zs) :
    Persists xs zs := fun i x hx => h' i x (h i x hx)

namespace State.Grown

variable {s t u : State}

theorem refl (s : State) : s.Grown s :=
  ⟨Nat.le_refl _, rfl, rfl, .refl _, .refl _, .refl _, .refl _, Nat.le_refl _⟩

theorem trans (h : s.Grown t) (h' : t.Grown u) : s.Grown u where
  fuel := Nat.le_trans h'.fuel h.fuel
  globals := h'.globals.trans h.globals
  scopes := h'.scopes.trans h.scopes
  heap := {
    lists := h.heap.lists.trans h'.heap.lists
    tuples := h.heap.tuples.trans h'.heap.tuples
    sets := h.heap.sets.trans h'.heap.sets
    dicts := h.heap.dicts.trans h'.heap.dicts
    closures := Nat.le_trans h.heap.closures h'.heap.closures }

/-- Only fuel is spent. -/
theorem spend (h : s.Grown t) (n : Nat) : s.Grown { t with fuel := t.fuel - n } :=
  { h with fuel := Nat.le_trans (Nat.sub_le _ _) h.fuel }

end State.Grown

/-! ## Places -/

/-- The place, in a run that starts with `m` things in a store, of what stands at `r` in one that starts
with the first `n` of them. -/
def movedRef (n m r : Nat) : Nat := if r < n then r else r + (m - n)

theorem movedRef_of_lt {n m r : Nat} (hr : r < n) : movedRef n m r = r := if_pos hr

theorem movedRef_of_le {n m r : Nat} (hr : n ≤ r) : movedRef n m r = r + (m - n) :=
  if_neg (Nat.not_lt.mpr hr)

theorem movedRef_injective (n m : Nat) : Function.Injective (movedRef n m) := by
  intro r q h
  unfold movedRef at h
  split at h <;> split at h <;> omega

/-- Places in a run from `e`, for those in a run from `b`. -/
def Relocation.between (b e : State) : Relocation where
  list := movedRef b.heap.lists.size e.heap.lists.size
  tuple := movedRef b.heap.tuples.size e.heap.tuples.size
  set := movedRef b.heap.sets.size e.heap.sets.size
  dict := movedRef b.heap.dicts.size e.heap.dicts.size
  function := movedRef b.heap.closures.size e.heap.closures.size
  list_inj := movedRef_injective _ _
  tuple_inj := movedRef_injective _ _
  set_inj := movedRef_injective _ _
  dict_inj := movedRef_injective _ _
  function_inj := movedRef_injective _ _

/-- What there is at the start is the same in both runs. -/
theorem Heap.Has.moved_eq {b : State} {v : Value} (hv : b.heap.Has v) (e : State) :
    v.moved (.between b e) = v := by
  induction v with
  | list r => exact congrArg Value.list (movedRef_of_lt hv)
  | tuple r => exact congrArg Value.tuple (movedRef_of_lt hv)
  | set r => exact congrArg Value.set (movedRef_of_lt hv)
  | dict r => exact congrArg Value.dict (movedRef_of_lt hv)
  | function r => exact congrArg Value.function (movedRef_of_lt hv)
  | method receiver name ih => exact congrArg (Value.method · name) (ih hv)
  | _ => rfl

/-- The second store holds what the first one holds, moved as in runs that start with `n` and with `m`
things in store. -/
structure StoreMoved (n m : Nat) (f : α → α) (xs ys : Array (List α)) : Prop where
  start : n ≤ xs.size
  size : ys.size = xs.size + (m - n)
  holds : ∀ r : Ref, ys[movedRef n m r]?.getD [] = (xs[r]?.getD []).map f

namespace StoreMoved

variable {n m : Nat} {f : α → α} {xs ys : Array (List α)}

theorem place_size (h : StoreMoved n m f xs ys) : movedRef n m xs.size = ys.size :=
  (movedRef_of_le h.start).trans h.size.symm

theorem push (h : StoreMoved n m f xs ys) (items : List α) :
    StoreMoved n m f (xs.push items) (ys.push (items.map f)) where
  start := by
    rw [Array.size_push]
    exact Nat.le_succ_of_le h.start
  size := by
    rw [Array.size_push, Array.size_push, h.size]
    omega
  holds r := by
    rw [Heap.getD_push, Heap.getD_push, h.holds, ← h.place_size]
    simp only [(movedRef_injective n m).eq_iff]
    split <;> rfl

/-- At the start nothing has moved. -/
theorem begin (h : Persists xs ys) (hf : ∀ items ∈ xs, ∀ x ∈ items, f x = x) :
    StoreMoved xs.size ys.size f xs ys where
  start := Nat.le_refl _
  size := by
    have hle := h.size_le
    omega
  holds r := by
    rcases Nat.lt_or_ge r xs.size with hr | hr
    · rw [movedRef_of_lt hr, h r _ (Array.getElem?_eq_getElem hr), Array.getElem?_eq_getElem hr]
      exact ((List.map_congr_left (hf _ (Array.getElem_mem hr))).trans (List.map_id _)).symm
    · have hle := h.size_le
      rw [movedRef_of_le hr, Array.getElem?_eq_none (by omega), Array.getElem?_eq_none hr]
      rfl

end StoreMoved

/-! ## A larger heap -/

namespace Heap.Moved

variable {ρ : Relocation} {h g : Heap} (H : Moved ρ h g) (hle : g.containers ≤ h.containers)
include H hle

/-- Equality is the same in both runs: the bounds of both heaps exceed the number of pairs of containers
that there are in the smaller one. -/
theorem equal_eq (a b : Value) : h.equal (a.moved ρ) (b.moved ρ) = g.equal a b := by
  have hcard : (g.containerSet ×ˢ g.containerSet).card < g.depth := by
    have hcontainers := g.card_containerSet_le
    rw [Finset.card_product, Heap.depth]
    calc g.containerSet.card * g.containerSet.card
        ≤ g.containers * (g.containers + 1) :=
          Nat.mul_le_mul hcontainers (Nat.le_succ_of_le hcontainers)
      _ < 0x4000000000000000 + g.containers * (g.containers + 1) := Nat.lt_add_of_pos_left (by decide)
  exact (H.equalWithin_eq _ a b).trans (equalWithin_eq_of_card_lt hcard (depth_mono hle) a b)

theorem hashable_eq (v : Value) : h.hashable (v.moved ρ) = g.hashable v :=
  (H.hashableWithin_eq _ v).trans (Heap.hashableWithin_eq (depth_mono hle) v)

/-- Values that are in an order in the smaller heap are so in the larger one. -/
theorem order_eq_ok {a b : Value} {o : Ordering} (ho : g.order a b = .ok o) :
    h.order (a.moved ρ) (b.moved ρ) = .ok o :=
  (H.orderWithin_eq (H.equal_eq hle) _ a b).trans (orderWithin_mono (depth_mono hle) ho)

end Heap.Moved

/-! ## Two runs -/

/-- The states `t` and `s` of two runs that do the same from `b` and from `e`, where more has been made. -/
structure Beside (b e s t : State) : Prop where
  first : b.Grown t
  second : e.Grown s
  fuel : s.fuel ≤ t.fuel
  lists : StoreMoved b.heap.lists.size e.heap.lists.size (·.moved (.between b e))
    t.heap.lists s.heap.lists
  tuples : StoreMoved b.heap.tuples.size e.heap.tuples.size (·.moved (.between b e))
    t.heap.tuples s.heap.tuples
  sets : StoreMoved b.heap.sets.size e.heap.sets.size (·.moved (.between b e))
    t.heap.sets s.heap.sets
  dicts : StoreMoved b.heap.dicts.size e.heap.dicts.size (entryMoved (.between b e))
    t.heap.dicts s.heap.dicts
  closures : s.heap.closures.size =
    t.heap.closures.size + (e.heap.closures.size - b.heap.closures.size)

namespace Beside

variable {b e s t : State}

/-- The two runs start side by side. -/
theorem begin (hb : b.Grounded) (he : b.Grown e) : Beside b e e b where
  first := .refl b
  second := .refl e
  fuel := he.fuel
  lists := .begin he.heap.lists fun items hi v hv => (hb.lists items hi v hv).moved_eq _
  tuples := .begin he.heap.tuples fun items hi v hv => (hb.tuples items hi v hv).moved_eq _
  sets := .begin he.heap.sets fun members hm v hv => (hb.sets members hm v hv).moved_eq _
  dicts := .begin he.heap.dicts fun entries he' x hx =>
    Prod.ext ((hb.dicts entries he' x hx).1.moved_eq _) ((hb.dicts entries he' x hx).2.moved_eq _)
  closures := by
    have hle := he.heap.closures
    omega

variable (h : Beside b e s t)
include h

theorem moved : s.heap.Moved (.between b e) t.heap :=
  ⟨h.lists.holds, h.tuples.holds, h.sets.holds, h.dicts.holds⟩

theorem containers_le : t.heap.containers ≤ s.heap.containers := by
  unfold Heap.containers
  rw [h.lists.size, h.tuples.size, h.sets.size, h.dicts.size]
  omega

end Beside

end Concord.Machine
