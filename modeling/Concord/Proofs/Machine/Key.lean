import Concord.Proofs.Machine.Effect
import Concord.Proofs.Machine.Nesting
import Mathlib.Data.List.Zip

/-!
# Keys and members

A value may be a key of a dictionary or a member of a set if no list, set or dictionary stands in it. Such
a value never changes: tuples keep their items, and they hold tuples only that were made before them
(`Layered`). So whether a value is hashable, and whether two hashable values are equal, is settled once
their tuples are made (`Heap.hashable_of_before`, `Heap.Key.equal_of_before`), and equality does not depend
on the order in which they are asked for (`Heap.Key.equal_comm`).

`Distinct` says of keys that no two of them are equal. Giving a key a value, adding a member and taking
some away keep it.
-/

namespace Concord.Machine

/-! ## Tuples that are there -/

/-- The tuple that a value is, if it is one, is among the first `n`. -/
def Value.Within (n : Nat) : Value → Prop
  | .tuple r => r < n
  | _ => True

theorem Value.Within.mono {m n : Nat} {v : Value} (h : v.Within m) (hmn : m ≤ n) : v.Within n := by
  cases v with
  | tuple r => exact Nat.lt_of_lt_of_le h hmn
  | _ => trivial

/-- The tuples in a tuple were made before it. -/
def Layered (tuples : Array (List Value)) : Prop :=
  ∀ (r : Ref) (items : List Value), tuples[r]? = some items → ∀ v ∈ items, v.Within r

/-! ## Equality of numbers -/

open Float.Model in
theorem unpackedFloat_beq_comm (u v : UnpackedFloat) : u.beq v = v.beq u := by
  have hparts (e e' : Int) (m m' : Nat) :
      ((compare e e').then (compare m m') == .eq) = ((compare e' e).then (compare m' m) == .eq) := by
    rw [Bool.eq_iff_iff, beq_iff_eq, beq_iff_eq, Ordering.then_eq_eq, Ordering.then_eq_eq,
      Std.compare_eq_iff_eq, Std.compare_eq_iff_eq, Std.compare_eq_iff_eq, Std.compare_eq_iff_eq, eq_comm,
      @eq_comm _ m]
  have hswap (o : Ordering) : (o.swap == .eq) = (o == .eq) := by
    cases o <;> rfl
  unfold UnpackedFloat.beq
  cases u with
  | notANumber => cases v <;> rfl
  | infinity s =>
    cases v with
    | infinity s' => cases s <;> cases s' <;> rfl
    | finite s' m e hm => cases s <;> cases s' <;> rfl
    | _ => cases s <;> rfl
  | zero s =>
    cases v with
    | infinity s' => cases s' <;> rfl
    | finite s' m e hm => cases s' <;> rfl
    | _ => rfl
  | finite s m e hm =>
    cases v with
    | notANumber => rfl
    | infinity s' => cases s' <;> rfl
    | zero s' => cases s <;> rfl
    | finite s' m' e' hm' =>
      cases s with
      | positive =>
        cases s' with
        | positive => exact hparts e e' m m'
        | negative => rfl
      | negative =>
        cases s' with
        | positive => rfl
        | negative => exact (hswap _).trans ((hparts e e' m m').trans (hswap _).symm)

theorem float_beq_comm (x y : Float) : (x == y) = (y == x) :=
  unpackedFloat_beq_comm x.toModel.unpack y.toModel.unpack

theorem Number.equal_comm (m n : Number) : m.equal n = n.equal m := by
  cases m with
  | int i =>
    cases n with
    | int j => exact Bool.beq_comm
    | float y => exact float_beq_comm _ _
  | float x => cases n <;> exact float_beq_comm _ _

theorem Heap.equalNumbers_comm (a b : Value) : equalNumbers a b = equalNumbers b a := by
  unfold equalNumbers
  cases a.number? with
  | none => cases b.number? <;> rfl
  | some m =>
    cases b.number? with
    | none => rfl
    | some n => exact m.equal_comm n

namespace Heap

/-- The second heap comes later: the tuples of the first are there, and in all tuples are only earlier
ones. -/
structure Before (h k : Heap) : Prop where
  persists : Persists h.tuples k.tuples
  layered : Layered k.tuples

variable {h k l : Heap} {a b v : Value}

theorem Before.refl (hlayered : Layered h.tuples) : h.Before h := ⟨.refl _, hlayered⟩

theorem Before.trans (hk : h.Before k) (hl : k.Before l) : h.Before l :=
  ⟨fun i x hx => hl.persists i x (hk.persists i x hx), hl.layered⟩

theorem Before.size_le (hle : h.Before k) : h.tuples.size ≤ k.tuples.size := hle.persists.size_le

theorem Before.tuple_eq (hle : h.Before k) {r : Ref} (hr : r < h.tuples.size) : k.tuple r = h.tuple r := by
  rw [tuple, tuple, Array.getElem?_eq_getElem hr,
    hle.persists r _ (Array.getElem?_eq_getElem hr)]

theorem Before.items (hle : h.Before k) {r : Ref} (hr : r < h.tuples.size) : ∀ v ∈ h.tuple r, v.Within r := by
  have hitems := hle.persists r _ (Array.getElem?_eq_getElem hr)
  rw [tuple, Array.getElem?_eq_getElem hr]
  exact hle.layered r _ hitems

theorem size_lt_depth (h : Heap) : h.tuples.size < h.depth := by
  have hle : h.tuples.size ≤ h.containers := by
    unfold containers
    omega
  exact Nat.lt_of_le_of_lt hle h.containers_lt_depth

/-! ## Answers that are settled -/

/-- A value whose tuples are among the first `n` is known to be hashable or not after `n + 1` steps. -/
theorem hashableWithin_of_before (hle : h.Before k) {n i j : Nat} (hn : n ≤ h.tuples.size)
    (hv : v.Within n) (hi : n < i) (hj : n < j) : k.hashableWithin j v = h.hashableWithin i v := by
  induction i generalizing n j v with
  | zero => exact absurd hi (Nat.not_lt_zero n)
  | succ i ih =>
    cases j with
    | zero => exact absurd hj (Nat.not_lt_zero n)
    | succ j =>
      cases v with
      | tuple r =>
        have hr : r < n := hv
        have hrsize : r < h.tuples.size := Nat.lt_of_lt_of_le hr hn
        simp only [hashableWithin]
        rw [hle.tuple_eq hrsize, Bool.eq_iff_iff, List.all_eq_true, List.all_eq_true]
        refine forall₂_congr fun w hw => ?_
        rw [ih hrsize.le (hle.items hrsize w hw) (Nat.lt_of_lt_of_le hr (Nat.le_of_lt_succ hi))
          (Nat.lt_of_lt_of_le hr (Nat.le_of_lt_succ hj))]
      | _ => rfl

theorem hashable_of_before (hle : h.Before k) (hv : v.Within h.tuples.size) :
    k.hashable v = h.hashable v :=
  hashableWithin_of_before hle (Nat.le_refl _) hv h.size_lt_depth
    (Nat.lt_of_le_of_lt hle.size_le k.size_lt_depth)

theorem pairwise_congr_mem {α : Type} {rel rel' : α → α → Bool} {xs ys : List α}
    (hrel : ∀ x ∈ xs, ∀ y ∈ ys, rel x y = rel' x y) : pairwise rel xs ys = pairwise rel' xs ys := by
  unfold pairwise
  congr 1
  rw [Bool.eq_iff_iff, List.all_eq_true, List.all_eq_true]
  refine forall₂_congr fun p hp => ?_
  obtain ⟨x, y⟩ := p
  show rel x y = true ↔ rel' x y = true
  rw [hrel x (List.of_mem_zip hp).1 y (List.of_mem_zip hp).2]

theorem pairwise_comm {α : Type} {rel : α → α → Bool} {xs ys : List α}
    (hrel : ∀ x ∈ xs, ∀ y ∈ ys, rel x y = rel y x) : pairwise rel xs ys = pairwise rel ys xs := by
  have hlength : (xs.length == ys.length) = (ys.length == xs.length) := Bool.beq_comm
  unfold pairwise
  rw [hlength, ← List.zip_swap xs ys, List.all_map]
  congr 1
  rw [Bool.eq_iff_iff, List.all_eq_true, List.all_eq_true]
  refine forall₂_congr fun p hp => ?_
  obtain ⟨x, y⟩ := p
  show rel x y = true ↔ rel y x = true
  rw [hrel x (List.of_mem_zip hp).1 y (List.of_mem_zip hp).2]

/-- Two hashable values are known to be equal or not when the first one is gone through. -/
theorem equalWithin_of_before (hle : h.Before k) {n i j c d : Nat} (hn : n ≤ h.tuples.size)
    (ha : a.Within n) (hb : b.Within h.tuples.size) (hhash : h.hashableWithin c a = true)
    (hhash' : h.hashableWithin d b = true) (hi : n < i) (hj : n < j) :
    k.equalWithin j a b = h.equalWithin i a b := by
  induction i generalizing n j a b c d with
  | zero => exact absurd hi (Nat.not_lt_zero n)
  | succ i ih =>
    cases j with
    | zero => exact absurd hj (Nat.not_lt_zero n)
    | succ j =>
      cases c with
      | zero => cases hhash
      | succ c =>
        cases a with
        | list r | set r | dict r => cases hhash
        | tuple r =>
          cases b with
          | tuple q =>
            cases d with
            | zero => cases hhash'
            | succ d =>
              have hr : r < n := ha
              have hrsize : r < h.tuples.size := Nat.lt_of_lt_of_le hr hn
              rw [hashableWithin, List.all_eq_true] at hhash hhash'
              simp only [equalWithin]
              rw [hle.tuple_eq hrsize, hle.tuple_eq hb]
              refine pairwise_congr_mem fun x hx y hy => ?_
              exact ih hrsize.le (hle.items hrsize x hx) ((hle.items hb y hy).mono (Nat.le_of_lt hb))
                (hhash x hx) (hhash' y hy) (Nat.lt_of_lt_of_le hr (Nat.le_of_lt_succ hi))
                (Nat.lt_of_lt_of_le hr (Nat.le_of_lt_succ hj))
          | _ => rfl
        | _ => cases b <;> rfl

theorem equalWithin_comm {n c d : Nat} (ha : h.hashableWithin c a = true)
    (hb : h.hashableWithin d b = true) : h.equalWithin n a b = h.equalWithin n b a := by
  induction n generalizing a b c d with
  | zero => rfl
  | succ n ih =>
    cases c with
    | zero => cases ha
    | succ c =>
      cases d with
      | zero => cases hb
      | succ d =>
        cases a with
        | list r | set r | dict r => cases ha
        | tuple r =>
          cases b with
          | tuple q =>
            rw [hashableWithin, List.all_eq_true] at ha hb
            exact pairwise_comm fun x hx y hy => ih (ha x hx) (hb y hy)
          | list r | set r | dict r => cases hb
          | _ => rfl
        | str s =>
          cases b with
          | str t => exact Bool.beq_comm
          | _ => rfl
        | range start stop step =>
          cases b with
          | range start' stop' step' => simp only [equalWithin, Bool.beq_comm]
          | _ => rfl
        | function r | builtin r | exceptionType r | exception r =>
          cases b with
          | function q | builtin q | exceptionType q | exception q => first | rfl | exact Bool.beq_comm
          | _ => rfl
        | none | method _ _ => cases b <;> rfl
        | bool x | int x | float x =>
          cases b with
          | bool y | int y | float y =>
            simp only [equalWithin]
            exact equalNumbers_comm _ _
          | list r | set r | dict r => cases hb
          | _ => rfl

/-! ## Keys -/

/-- The value may be a key or a member, and its tuples are there. -/
structure Key (h : Heap) (v : Value) : Prop where
  within : v.Within h.tuples.size
  hashable : h.hashable v = true

theorem Key.mono (hv : h.Key v) (hle : h.Before k) : k.Key v :=
  ⟨hv.within.mono hle.size_le, (hashable_of_before hle hv.within).trans hv.hashable⟩

theorem Key.equal_of_before (ha : h.Key a) (hb : h.Key b) (hle : h.Before k) : k.equal a b = h.equal a b :=
  equalWithin_of_before hle (Nat.le_refl _) ha.within hb.within ha.hashable hb.hashable h.size_lt_depth
    (Nat.lt_of_le_of_lt hle.size_le k.size_lt_depth)

theorem Key.equal_comm (ha : h.Key a) (hb : h.Key b) : h.equal a b = h.equal b a :=
  equalWithin_comm ha.hashable hb.hashable

/-- The values may be keys, and if `strict`, no two of them are equal. -/
structure Distinct (strict : Prop) (h : Heap) (keys : List Value) : Prop where
  key : ∀ v ∈ keys, h.Key v
  differ : strict → keys.Pairwise fun a b => h.equal a b = false

variable {strict : Prop} {keys keys' : List Value}

theorem Distinct.nil : Distinct strict h [] := ⟨nofun, fun _ => .nil⟩

theorem Distinct.mono (hd : Distinct strict h keys) (hle : h.Before k) : Distinct strict k keys := by
  refine ⟨fun v hv => (hd.key v hv).mono hle, fun hstrict => ?_⟩
  refine (hd.differ hstrict).imp_of_mem fun {a b} ha hb hab => ?_
  rw [(hd.key a ha).equal_of_before (hd.key b hb) hle, hab]

theorem Distinct.sublist (hd : Distinct strict h keys) (hsub : keys'.Sublist keys) :
    Distinct strict h keys' :=
  ⟨fun v hv => hd.key v (hsub.subset hv), fun hstrict => (hd.differ hstrict).sublist hsub⟩

/-- A key that is equal to none of those that are there goes to the end. -/
theorem Distinct.append (hd : Distinct strict h keys) (hv : h.Key v) (hnone : ∀ a ∈ keys, h.equal a v = false) :
    Distinct strict h (keys ++ [v]) := by
  refine ⟨List.forall_mem_append.mpr ⟨hd.key, List.forall_mem_singleton.mpr hv⟩, fun hstrict => ?_⟩
  refine List.pairwise_append.mpr ⟨hd.differ hstrict, List.pairwise_singleton _ _, fun a ha b hb => ?_⟩
  obtain rfl := List.mem_singleton.mp hb
  exact hnone a ha

theorem Distinct.insertMember (hd : Distinct strict h keys) (hv : h.Key v) :
    Distinct strict h (h.insertMember keys v) := by
  unfold Heap.insertMember
  split
  · exact hd
  · rename_i hany
    rw [Bool.not_eq_true, List.any_eq_false] at hany
    exact hd.append hv fun a ha => Bool.eq_false_of_not_eq_true (hany a ha)

/-- The keys of entries when a key is given a value. -/
theorem map_fst_insertEntry (key value : Value) (entries : Entries) :
    (h.insertEntry key value entries).map Prod.fst = h.insertMember (entries.map Prod.fst) key := by
  induction entries with
  | nil => rfl
  | cons e entries ih =>
    unfold Heap.insertEntry
    unfold insertMember at ih ⊢
    by_cases heq : h.equal e.1 key = true
    · simp [heq]
    · rw [if_neg heq, List.map_cons, ih]
      simp only [List.map_cons, List.any_cons, Bool.eq_false_of_not_eq_true heq, Bool.false_or]
      split
      · rfl
      · rfl

theorem Distinct.insertEntry {entries : Entries} (hd : Distinct strict h (entries.map Prod.fst))
    {key : Value} (hkey : h.Key key) (value : Value) :
    Distinct strict h ((h.insertEntry key value entries).map Prod.fst) := by
  rw [map_fst_insertEntry]
  exact hd.insertMember hkey

/-- No two of the keys are equal, whichever comes first. -/
theorem Distinct.equal_eq_false (hd : Distinct True h keys) {i j : Nat} (hij : i ≠ j)
    (ha : keys[i]? = some a) (hb : keys[j]? = some b) : h.equal a b = false := by
  obtain ⟨hi, rfl⟩ := List.getElem?_eq_some_iff.mp ha
  obtain ⟨hj, rfl⟩ := List.getElem?_eq_some_iff.mp hb
  have hdiffer := List.pairwise_iff_getElem.mp (hd.differ trivial)
  rcases Nat.lt_or_gt_of_ne hij with hlt | hgt
  · exact hdiffer i j hi hj hlt
  · rw [(hd.key _ (List.getElem_mem hi)).equal_comm (hd.key _ (List.getElem_mem hj))]
    exact hdiffer j i hj hi hgt

end Heap

end Concord.Machine
