import Concord.Machine.Eval
import Concord.Proofs.Machine.Nesting
import Mathlib.Data.Finset.Prod
import Mathlib.Logic.Function.Defs
import Mathlib.Order.Monotone.Basic

/-!
# Values at other places

Two runs that have made different things before they do the same find what they make then at different
places of their heaps. A `Relocation` says where one run has what stands at given places in the other;
`Value.moved` is a value of the one run as it is in the other, and `Heap.Moved` says that the heaps hold
the same values up to that.

Places are opaque to a program: it can only ask whether two of them are one. So what depends on values
and on the contents of containers is the same in both runs, under the same bound (`equalWithin_eq`,
`hashableWithin_eq`). How the bounds of the two heaps compare is another matter; what rests on equality is
stated for runs that agree about it.
-/

namespace Concord.Machine

/-- Where one run has the containers and functions that another one has at given places. -/
structure Relocation where
  list : Ref → Ref
  tuple : Ref → Ref
  set : Ref → Ref
  dict : Ref → Ref
  function : Ref → Ref
  list_inj : Function.Injective list
  tuple_inj : Function.Injective tuple
  set_inj : Function.Injective set
  dict_inj : Function.Injective dict
  function_inj : Function.Injective function

variable {ρ : Relocation}

theorem Relocation.beq_of_injective {place : Ref → Ref} (h : Function.Injective place) (r q : Ref) :
    (place r == place q) = (r == q) := by
  rw [Bool.eq_iff_iff, beq_iff_eq, beq_iff_eq, h.eq_iff]

/-! ## Values -/

namespace Value

/-- A value as it is in the other run. -/
@[simp] def moved (ρ : Relocation) : Value → Value
  | .none => .none
  | .bool b => .bool b
  | .int i => .int i
  | .float x => .float x
  | .str s => .str s
  | .list r => .list (ρ.list r)
  | .tuple r => .tuple (ρ.tuple r)
  | .set r => .set (ρ.set r)
  | .dict r => .dict (ρ.dict r)
  | .range start stop step => .range start stop step
  | .function r => .function (ρ.function r)
  | .builtin b => .builtin b
  | .method receiver name => .method (receiver.moved ρ) name
  | .exceptionType c => .exceptionType c
  | .exception r => .exception r

variable (v w : Value)

@[simp] theorem number?_moved : (v.moved ρ).number? = v.number? := by cases v <;> rfl

@[simp] theorem int?_moved : (v.moved ρ).int? = v.int? := by
  unfold int?
  rw [number?_moved]

@[simp] theorem typeName_moved : (v.moved ρ).typeName = v.typeName := by cases v <;> rfl

@[simp] theorem identical_moved : Heap.identical (v.moved ρ) (w.moved ρ) = Heap.identical v w := by
  cases v <;> cases w <;>
    first
    | rfl
    | exact Relocation.beq_of_injective ρ.list_inj _ _
    | exact Relocation.beq_of_injective ρ.tuple_inj _ _
    | exact Relocation.beq_of_injective ρ.set_inj _ _
    | exact Relocation.beq_of_injective ρ.dict_inj _ _
    | exact Relocation.beq_of_injective ρ.function_inj _ _

/-- A predefined value is the same in both runs. -/
theorem moved_of_predefined? {v : Value} {name : String} (h : predefined? name = some v) :
    v.moved ρ = v := by
  unfold predefined? at h
  rcases Option.or_eq_some_iff.mp h with hb | ⟨-, hc⟩
  · obtain ⟨b, -, rfl⟩ := Option.map_eq_some_iff.mp hb
    rfl
  · obtain ⟨c, -, rfl⟩ := Option.map_eq_some_iff.mp hc
    rfl

/-- A result of an operation on numbers is the same in both runs. -/
theorem moved_of_numberOp {op : BinOp} {a b : Number} {v : Value} (h : numberOp op a b = .ok v) :
    v.moved ρ = v := by
  unfold numberOp at h
  split at h
  · unfold intOp intPow checked at h
    cases op <;> grind [Value.moved, bitwise]
  · unfold floatOp at h
    cases op <;> grind [Value.moved]

end Value

/-- An entry as it is in the other run. -/
def entryMoved (ρ : Relocation) (e : Value × Value) : Value × Value := (e.1.moved ρ, e.2.moved ρ)

theorem keys_moved (entries : Entries) :
    (entries.map (entryMoved ρ)).map (·.1) = (entries.map (·.1)).map (·.moved ρ) := by
  simp [entryMoved]

/-! ## Heaps -/

namespace Heap

/-- The heap `h` holds what `g` holds, moved. -/
structure Moved (ρ : Relocation) (h g : Heap) : Prop where
  list : ∀ r, h.list (ρ.list r) = (g.list r).map (·.moved ρ)
  tuple : ∀ r, h.tuple (ρ.tuple r) = (g.tuple r).map (·.moved ρ)
  set : ∀ r, h.set (ρ.set r) = (g.set r).map (·.moved ρ)
  dict : ∀ r, h.dict (ρ.dict r) = (g.dict r).map (entryMoved ρ)

theorem pairwise_map {α β : Type} {rel : β → β → Bool} {rel' : α → α → Bool} {f : α → β}
    (hrel : ∀ x y, rel (f x) (f y) = rel' x y) (xs ys : List α) :
    pairwise rel (xs.map f) (ys.map f) = pairwise rel' xs ys := by
  simp [pairwise, List.zip_map, List.all_map, Function.comp_def, hrel]

theorem covered_map {α β : Type} {rel : β → β → Bool} {rel' : α → α → Bool} {f : α → β}
    (hrel : ∀ x y, rel (f x) (f y) = rel' x y) (xs ys : List α) :
    covered rel (xs.map f) (ys.map f) = covered rel' xs ys := by
  simp [covered, List.all_map, List.any_map, Function.comp_def, hrel]

namespace Moved

variable {h g : Heap} (H : Moved ρ h g)
include H

theorem truthy_eq (v : Value) : h.truthy (v.moved ρ) = g.truthy v := by
  cases v <;> simp [truthy, H.list, H.tuple, H.set, H.dict]

theorem equalWithin_eq (k : Nat) (a b : Value) :
    h.equalWithin k (a.moved ρ) (b.moved ρ) = g.equalWithin k a b := by
  induction k generalizing a b with
  | zero => rfl
  | succ k ih =>
    have hentries (xs ys : Entries) :
        covered (fun x y => h.equalWithin k x.1 y.1 && h.equalWithin k x.2 y.2)
          (xs.map (entryMoved ρ)) (ys.map (entryMoved ρ)) =
        covered (fun x y => g.equalWithin k x.1 y.1 && g.equalWithin k x.2 y.2) xs ys := by
      refine covered_map (fun x y => ?_) xs ys
      rw [← ih x.1 y.1, ← ih x.2 y.2]
      rfl
    cases a <;> cases b <;>
      simp only [equalWithin, Value.moved, Relocation.beq_of_injective ρ.list_inj,
        Relocation.beq_of_injective ρ.function_inj, H.list, H.tuple, H.set, H.dict, pairwise_map ih,
        covered_map ih, hentries] <;>
      rfl

theorem hashableWithin_eq (k : Nat) (v : Value) :
    h.hashableWithin k (v.moved ρ) = g.hashableWithin k v := by
  induction k generalizing v with
  | zero => rfl
  | succ k ih =>
    cases v with
    | tuple r =>
      show (h.tuple (ρ.tuple r)).all (h.hashableWithin k) = (g.tuple r).all (g.hashableWithin k)
      rw [H.tuple, List.all_map, Function.comp_def]
      simp only [ih]
    | _ => rfl

end Moved

/-! ### What rests on equality -/

section Equality

variable {h g : Heap} (hequal : ∀ a b, h.equal (a.moved ρ) (b.moved ρ) = g.equal a b)
include hequal

theorem orderItems_moved {order order' : Value → Value → Except Exception Ordering}
    (horder : ∀ x y, order (x.moved ρ) (y.moved ρ) = order' x y) (xs ys : List Value) :
    orderItems h.equal order (xs.map (·.moved ρ)) (ys.map (·.moved ρ)) =
      orderItems g.equal order' xs ys := by
  induction xs generalizing ys with
  | nil => cases ys <;> rfl
  | cons x xs ih =>
    cases ys with
    | nil => rfl
    | cons y ys => rw [List.map_cons, List.map_cons, orderItems, orderItems, hequal, ih, horder]

theorem Moved.orderWithin_eq (H : Moved ρ h g) (k : Nat) (a b : Value) :
    h.orderWithin k (a.moved ρ) (b.moved ρ) = g.orderWithin k a b := by
  have hunordered (v w : Value) : unordered (v.moved ρ) (w.moved ρ) = unordered v w := by
    simp only [unordered, Value.typeName_moved]
  induction k generalizing a b with
  | zero => exact congrArg Except.error (hunordered a b)
  | succ k ih =>
    have hitems := orderItems_moved hequal ih
    cases a <;> cases b <;> simp only [orderWithin, Value.moved, H.list, H.tuple, hitems] <;> rfl

theorem any_equal_moved (items : List Value) (v : Value) :
    (items.map (·.moved ρ)).any (h.equal · (v.moved ρ)) = items.any (g.equal · v) := by
  rw [List.any_map]
  simp only [Function.comp_def, hequal]

theorem insertMember_moved (members : List Value) (item : Value) :
    h.insertMember (members.map (·.moved ρ)) (item.moved ρ) =
      (g.insertMember members item).map (·.moved ρ) := by
  unfold insertMember
  rw [any_equal_moved hequal]
  split
  · rfl
  · rw [List.map_append, List.map_singleton]

theorem insertEntry_moved (key value : Value) (entries : Entries) :
    h.insertEntry (key.moved ρ) (value.moved ρ) (entries.map (entryMoved ρ)) =
      (g.insertEntry key value entries).map (entryMoved ρ) := by
  induction entries with
  | nil => rfl
  | cons e entries ih =>
    rw [List.map_cons, entryMoved, insertEntry, insertEntry, hequal, ih]
    split <;> rfl

theorem valueOf?_moved (entries : Entries) (key : Value) :
    h.valueOf? (entries.map (entryMoved ρ)) (key.moved ρ) =
      (g.valueOf? entries key).map (·.moved ρ) := by
  induction entries with
  | nil => rfl
  | cons e entries ih =>
    unfold valueOf? at ih ⊢
    rw [List.map_cons, List.find?_cons, List.find?_cons,
      show h.equal (entryMoved ρ e).1 (key.moved ρ) = g.equal e.1 key from hequal e.1 key]
    cases g.equal e.1 key with
    | true => rfl
    | false => exact ih

end Equality

end Heap

/-! ## Results without a state -/

theorem position_moved (index : Value) (len : Nat) (message : String) :
    position (index.moved ρ) len message = position index len message := by
  simp only [position, Value.int?_moved, Value.typeName_moved]

theorem itemAt_moved (items : List Value) (index : Value) (message : String) :
    itemAt (items.map (·.moved ρ)) (index.moved ρ) message =
      (itemAt items index message).map (·.moved ρ) := by
  unfold itemAt
  rw [position_moved, List.length_map]
  cases position index items.length message with
  | error e => rfl
  | ok i =>
    show Except.ok (((items.map (·.moved ρ))[i]?).getD .none) = .ok (((items[i]?).getD .none).moved ρ)
    rw [List.getElem?_map]
    cases items[i]? <;> rfl

theorem sliceItems_map {α β : Type} (k : β → α) (items : List β) (lower upper step : Option Int) :
    sliceItems (items.map k) lower upper step =
      (sliceItems items lower upper step).map (List.map k) := by
  unfold sliceItems
  rw [List.length_map]
  cases slicePositions items.length lower upper step with
  | error e => rfl
  | ok places =>
    show Except.ok (places.filterMap ((items.map k)[·]?)) =
      .ok ((places.filterMap (items[·]?)).map k)
    rw [List.map_filterMap]
    simp only [List.getElem?_map]

theorem repeated_map {α β : Type} (k : β → α) (items : List β) (times : Int) :
    repeated (items.map k) times = (repeated items times).map (List.map k) := by
  unfold repeated
  rw [List.isEmpty_map, List.length_map]
  split
  · rfl
  · split
    · rfl
    · simp [Except.map]

theorem boundOf_moved (v : Option Value) : boundOf (v.map (·.moved ρ)) = boundOf v := by
  cases v with
  | none => rfl
  | some v => cases v <;> rfl

theorem repetition?_moved (left right : Value) :
    repetition? (left.moved ρ) (right.moved ρ) =
      (repetition? left right).map fun p => (p.1.moved ρ, p.2) := by
  cases left <;> cases right <;> rfl

/-- The characters of a text are the same in both runs. -/
theorem chars_moved (s : String) : (s.toList.map fun c => Value.str c.toString) =
    (s.toList.map fun c => Value.str c.toString).map (·.moved ρ) := by
  rw [List.map_map]
  rfl

end Concord.Machine

/-!
# Comparisons in a small heap

Comparing goes down into containers no deeper than `Heap.depth`. A larger bound turns more answers into
a yes and none into a no, and it does so for pairs of containers only. So the answers settle after as
many steps as there are such pairs, whether or not a container holds itself. In a heap of at most
`2 ^ 31` containers (`Heap.Small`) they have settled at `Heap.depth`: every larger bound gives the same.

Main statements:

* `Small.equalWithin_eq`, `hashableWithin_eq`: the answer under a larger bound.
* `Small.orderWithin_eq_ok`: so it is with an order, unless the values cannot be ordered.
-/

namespace Concord.Machine

/-! ## Answers that settle -/

/-- Answers that turn from no to yes, for members of a finite set only, and that stay as they are once
one step has changed nothing, have settled after as many steps as the set has members. -/
theorem settled_of_card_lt {α : Type} {F : Nat → α → Prop} {s : Finset α}
    (hmono : ∀ n x, F n x → F (n + 1) x)
    (hoff : ∀ m n, ∀ x ∉ s, F (m + 1) x ↔ F (n + 1) x)
    (hstep : ∀ m n, (∀ x, F m x ↔ F n x) → ∀ x, F (m + 1) x ↔ F (n + 1) x)
    {m n : Nat} (hm : s.card < m) (hmn : m ≤ n) (x : α) : F m x ↔ F n x := by
  classical
  let yes (k : Nat) : Finset α := s.filter (F (k + 1))
  have hyes : Monotone yes := monotone_nat_of_le_succ fun k =>
    Finset.monotone_filter_right s fun x _ => hmono (k + 1) x
  have hsame {k l : Nat} (hkl : k ≤ l) (hcard : (yes k).card = (yes l).card) (x : α) :
      F (k + 1) x ↔ F (l + 1) x := by
    by_cases hx : x ∈ s
    · have heq : yes k = yes l := Finset.eq_of_subset_of_card_le (hyes hkl) hcard.ge
      simpa [yes, hx] using Finset.ext_iff.mp heq x
    · exact hoff k l x hx
  have hsettled {k : Nat} (hk : s.card ≤ k) : (yes k).card = (yes s.card).card := by
    refine Nat.stabilises_of_monotone (f := fun k => (yes k).card)
      (fun k l hkl => Finset.card_le_card (hyes hkl)) (fun k => Finset.card_filter_le s _) ?_ hk
    intro k hk
    have hnext : ∀ x, F (k + 2) x ↔ F (k + 3) x := hstep _ _ (hsame k.le_succ hk)
    exact congrArg Finset.card (Finset.filter_congr fun x _ => hnext x)
  obtain ⟨m, rfl⟩ := Nat.exists_eq_add_of_le' (Nat.lt_of_le_of_lt (Nat.zero_le _) hm)
  obtain ⟨n, rfl⟩ := Nat.exists_eq_add_of_le' (Nat.le_trans (Nat.le_add_left 1 m) hmn)
  refine hsame (Nat.le_of_succ_le_succ hmn) ?_ x
  rw [hsettled (Nat.le_of_lt_succ hm),
    hsettled (Nat.le_of_lt_succ (Nat.lt_of_lt_of_le hm hmn))]

namespace Heap

variable {h : Heap} {a b v : Value} {n : Nat}

/-! ## A larger bound -/

theorem pairwise_mono {α : Type} {rel rel' : α → α → Bool} {xs ys : List α}
    (hrel : ∀ x y, rel x y = true → rel' x y = true) (h : pairwise rel xs ys = true) :
    pairwise rel' xs ys = true := by
  rw [pairwise, Bool.and_eq_true, List.all_eq_true] at h ⊢
  exact ⟨h.1, fun p hp => hrel _ _ (h.2 p hp)⟩

theorem covered_mono {α : Type} {rel rel' : α → α → Bool} {xs ys : List α}
    (hrel : ∀ x y, rel x y = true → rel' x y = true) (h : covered rel xs ys = true) :
    covered rel' xs ys = true := by
  rw [covered, Bool.and_eq_true, List.all_eq_true] at h ⊢
  refine ⟨h.1, fun x hx => ?_⟩
  obtain ⟨y, hy, hxy⟩ := List.any_eq_true.mp (h.2 x hx)
  exact List.any_eq_true.mpr ⟨y, hy, hrel x y hxy⟩

theorem equalWithin_succ (hab : h.equalWithin n a b = true) : h.equalWithin (n + 1) a b = true := by
  induction n generalizing a b with
  | zero => cases hab
  | succ n ih =>
    have hrel : ∀ x y, h.equalWithin n x y = true → h.equalWithin (n + 1) x y = true := fun _ _ => ih
    have hentry (x y : Value × Value)
        (hxy : (h.equalWithin n x.1 y.1 && h.equalWithin n x.2 y.2) = true) :
        (h.equalWithin (n + 1) x.1 y.1 && h.equalWithin (n + 1) x.2 y.2) = true := by
      rw [Bool.and_eq_true] at hxy ⊢
      exact ⟨ih hxy.1, ih hxy.2⟩
    unfold equalWithin at hab ⊢
    split at hab
    case h_3 r q =>
      rw [Bool.or_eq_true] at hab ⊢
      exact hab.imp_right (pairwise_mono hrel)
    case h_4 r q => exact pairwise_mono hrel hab
    case h_5 r q => exact covered_mono hrel hab
    case h_6 r q => exact covered_mono hentry hab
    all_goals exact hab

theorem hashableWithin_succ (hv : h.hashableWithin n v = true) :
    h.hashableWithin (n + 1) v = true := by
  induction n generalizing v with
  | zero => cases hv
  | succ n ih =>
    unfold hashableWithin at hv ⊢
    split at hv
    case h_4 r =>
      rw [List.all_eq_true] at hv ⊢
      exact fun w hw => ih (hv w hw)
    all_goals exact hv

theorem orderItems_mono {equal : Value → Value → Bool}
    {order order' : Value → Value → Except Exception Ordering} {o : Ordering}
    (horder : ∀ x y, order x y = .ok o → order' x y = .ok o) {xs ys : List Value}
    (h : orderItems equal order xs ys = .ok o) : orderItems equal order' xs ys = .ok o := by
  induction xs generalizing ys with
  | nil => cases ys <;> exact h
  | cons x xs ih =>
    cases ys with
    | nil => exact h
    | cons y ys =>
      rw [orderItems] at h ⊢
      split
      · exact ih (by rwa [if_pos ‹_›] at h)
      · exact horder x y (by rwa [if_neg ‹_›] at h)

theorem orderWithin_succ {o : Ordering} (hab : h.orderWithin n a b = .ok o) :
    h.orderWithin (n + 1) a b = .ok o := by
  induction n generalizing a b with
  | zero => cases hab
  | succ n ih =>
    unfold orderWithin at hab ⊢
    split at hab
    case h_2 r q => exact orderItems_mono (fun _ _ => ih) hab
    case h_3 r q => exact orderItems_mono (fun _ _ => ih) hab
    all_goals exact hab

/-! ## Small heaps -/

/-- A heap of at most `2 ^ 31` containers. -/
def Small (h : Heap) : Prop := h.containers ≤ 0x80000000

theorem Small.card_lt (hs : h.Small) : (h.containerSet ×ˢ h.containerSet).card < h.depth := by
  have hcard : h.containerSet.card ≤ 0x80000000 := Nat.le_trans h.card_containerSet_le hs
  rw [Finset.card_product, depth]
  rcases Nat.eq_zero_or_pos h.containers with hzero | hpos
  · have hnone : h.containerSet.card = 0 := Nat.le_zero.mp (hzero ▸ h.card_containerSet_le)
    simp [hnone, hzero]
  · calc h.containerSet.card * h.containerSet.card
        ≤ 0x80000000 * 0x80000000 := Nat.mul_le_mul hcard hcard
      _ < 0x4000000000000000 + h.containers * (h.containers + 1) :=
        Nat.lt_add_of_pos_right (Nat.mul_pos hpos h.containers.succ_pos)

/-- Of two values that are not both filled containers, the items are not looked at. -/
theorem items_eq_nil (hab : (a, b) ∉ h.containerSet ×ˢ h.containerSet) :
    h.items a = [] ∨ h.items b = [] := by
  by_contra hne
  rw [not_or] at hne
  exact hab (Finset.mem_product.mpr ⟨mem_containerSet hne.1, mem_containerSet hne.2⟩)

theorem pairwise_of_nil {α : Type} (rel rel' : α → α → Bool) {xs ys : List α}
    (h : xs = [] ∨ ys = []) : pairwise rel xs ys = pairwise rel' xs ys := by
  rcases h with rfl | rfl <;> simp [pairwise]

theorem covered_of_nil {α : Type} (rel rel' : α → α → Bool) {xs ys : List α}
    (h : xs = [] ∨ ys = []) : covered rel xs ys = covered rel' xs ys := by
  rcases h with rfl | rfl <;> simp [covered]

theorem orderItems_of_nil (equal : Value → Value → Bool)
    (order order' : Value → Value → Except Exception Ordering) {xs ys : List Value}
    (h : xs = [] ∨ ys = []) : orderItems equal order xs ys = orderItems equal order' xs ys := by
  rcases h with rfl | rfl
  · cases ys <;> rfl
  · cases xs <;> rfl

theorem dict_eq_nil {r : Ref} (hr : h.items (.dict r) = []) : h.dict r = [] := by
  cases hd : h.dict r with
  | nil => rfl
  | cons e _ =>
    have hmem := (mem_items_dict (hd ▸ List.mem_cons_self : e ∈ h.dict r)).1
    rw [hr] at hmem
    cases hmem

theorem equalWithin_of_items_nil (h : Heap) (m n : Nat) {a b : Value}
    (hab : h.items a = [] ∨ h.items b = []) :
    h.equalWithin (m + 1) a b = h.equalWithin (n + 1) a b := by
  unfold equalWithin
  split
  case h_3 r q => exact congrArg (r == q || ·) (pairwise_of_nil _ _ hab)
  case h_4 r q => exact pairwise_of_nil _ _ hab
  case h_5 r q => exact covered_of_nil _ _ hab
  case h_6 r q => exact covered_of_nil _ _ (hab.imp dict_eq_nil dict_eq_nil)
  all_goals rfl

theorem orderWithin_of_items_nil (h : Heap) (m n : Nat) {a b : Value}
    (hab : h.items a = [] ∨ h.items b = []) :
    h.orderWithin (m + 1) a b = h.orderWithin (n + 1) a b := by
  unfold orderWithin
  split
  case h_2 r q => exact orderItems_of_nil _ _ _ hab
  case h_3 r q => exact orderItems_of_nil _ _ _ hab
  all_goals rfl

/-- Equality is the same under all bounds that exceed the number of pairs of containers. -/
theorem equalWithin_eq_of_card_lt {m : Nat} (hm : (h.containerSet ×ˢ h.containerSet).card < m)
    (hmn : m ≤ n) (a b : Value) : h.equalWithin n a b = h.equalWithin m a b := by
  have hsettled := settled_of_card_lt
    (F := fun n (p : Value × Value) => h.equalWithin n p.1 p.2 = true)
    (s := h.containerSet ×ˢ h.containerSet) (fun _ _ => equalWithin_succ)
    (fun m n p hp => by rw [equalWithin_of_items_nil h m n (items_eq_nil hp)])
    (fun m n hmn p => by
      have hall (v : Value) : h.equalWithin m v = h.equalWithin n v :=
        funext fun w => Bool.eq_iff_iff.mpr (hmn (v, w))
      rw [equalWithin_congr fun v _ => hall v])
    hm hmn (a, b)
  exact Bool.eq_iff_iff.mpr hsettled.symm

/-- In a small heap, equality is the same under every larger bound. -/
theorem Small.equalWithin_eq (hs : h.Small) (hn : h.depth ≤ n) (a b : Value) :
    h.equalWithin n a b = h.equal a b := equalWithin_eq_of_card_lt hs.card_lt hn a b

/-- What may be a key is the same under every larger bound. -/
theorem hashableWithin_eq (hn : h.depth ≤ n) (v : Value) :
    h.hashableWithin n v = h.hashable v := by
  have hcard : h.containerSet.card < h.depth :=
    Nat.lt_of_le_of_lt h.card_containerSet_le h.containers_lt_depth
  have hsettled := settled_of_card_lt (F := fun n v => h.hashableWithin n v = true)
    (s := h.containerSet) (fun _ _ => hashableWithin_succ)
    (fun m n v hv => by
      have hnil : h.items v = [] := by_contra fun hne => hv (mem_containerSet hne)
      unfold hashableWithin
      split
      case h_4 r => rw [show h.tuple r = [] from hnil]; simp
      all_goals rfl)
    (fun m n hmn v => by
      unfold hashableWithin
      split
      case h_4 r => simp only [List.all_eq_true, hmn]
      all_goals rfl)
    hcard hn v
  exact Bool.eq_iff_iff.mpr hsettled.symm

theorem exists_orderItems_congr {equal : Value → Value → Bool}
    {order order' : Value → Value → Except Exception Ordering}
    (horder : ∀ x y, (∃ o, order x y = .ok o) ↔ ∃ o, order' x y = .ok o) (xs ys : List Value) :
    (∃ o, orderItems equal order xs ys = .ok o) ↔ ∃ o, orderItems equal order' xs ys = .ok o := by
  induction xs generalizing ys with
  | nil => cases ys <;> rfl
  | cons x xs ih =>
    cases ys with
    | nil => rfl
    | cons y ys =>
      rw [orderItems, orderItems]
      split
      · exact ih ys
      · exact horder x y

/-- Two values that are ordered stay so under a larger bound. -/
theorem orderWithin_mono {o : Ordering} {m : Nat} (hmn : m ≤ n) (hab : h.orderWithin m a b = .ok o) :
    h.orderWithin n a b = .ok o := by
  induction hmn with
  | refl => exact hab
  | step _ ih => exact orderWithin_succ ih

/-- In a small heap, values are in an order under a larger bound if and only if they are in it. -/
theorem Small.orderWithin_eq_ok (hs : h.Small) (hn : h.depth ≤ n) {o : Ordering} :
    h.orderWithin n a b = .ok o ↔ h.order a b = .ok o := by
  have hsettled := settled_of_card_lt
    (F := fun n (p : Value × Value) => ∃ o, h.orderWithin n p.1 p.2 = .ok o)
    (s := h.containerSet ×ˢ h.containerSet)
    (fun n p ⟨o, ho⟩ => ⟨o, orderWithin_succ ho⟩)
    (fun m n p hp => by rw [orderWithin_of_items_nil h m n (items_eq_nil hp)])
    (fun m n hmn p => by
      have hall (v w : Value) := hmn (v, w)
      obtain ⟨a, b⟩ := p
      dsimp only at hall ⊢
      unfold orderWithin
      split
      case h_2 r q => exact exists_orderItems_congr hall _ _
      case h_3 r q => exact exists_orderItems_congr hall _ _
      all_goals rfl)
    hs.card_lt hn (a, b)
  refine ⟨fun ho => ?_, orderWithin_mono hn⟩
  obtain ⟨o', ho'⟩ : ∃ o', h.order a b = .ok o' := hsettled.mpr ⟨o, ho⟩
  have hagain := orderWithin_mono hn ho'
  rw [ho] at hagain
  cases hagain
  exact ho'

end Heap

end Concord.Machine

/-!
## Heaps with one list more

Two runs that do the same, but for a list that only one of them has, give different places to the lists
made after it. `Value.past n` is a value of the run without that list as it is in the other, where the
list stands at place `n` and those from there on have moved one place further. `Heap.WithList` says
that the heaps hold the same values up to that, and that the list more holds `built`.

What a run can ask of a heap it then answers alike, if the heap is small: the two heaps do not have the
same number of containers, so that comparisons run under different bounds.
-/

namespace Concord.Machine

/-! ### Values in the other run -/

/-- The place of a list among lists with one more at `n`. -/
def pastRef (n r : Nat) : Nat := if r < n then r else r + 1

theorem pastRef_of_lt {n r : Nat} (hr : r < n) : pastRef n r = r := if_pos hr

theorem pastRef_of_le {n r : Nat} (hr : n ≤ r) : pastRef n r = r + 1 :=
  if_neg (Nat.not_lt.mpr hr)

theorem pastRef_ne (n r : Nat) : pastRef n r ≠ n := by
  unfold pastRef
  split <;> omega

@[simp] theorem pastRef_inj {n r q : Nat} : pastRef n r = pastRef n q ↔ r = q := by
  unfold pastRef
  split <;> split <;> omega

/-- Lists from place `n` on have moved one place further. -/
def Relocation.past (n : Nat) : Relocation where
  list := pastRef n
  tuple := id
  set := id
  dict := id
  function := id
  list_inj := fun _ _ => pastRef_inj.mp
  tuple_inj := Function.injective_id
  set_inj := Function.injective_id
  dict_inj := Function.injective_id
  function_inj := Function.injective_id

/-- A value in a run with one list more at `n`. -/
def Value.past (n : Nat) : Value → Value
  | .list r => .list (pastRef n r)
  | .method receiver name => .method (receiver.past n) name
  | v => v

/-- An entry in a run with one list more at `n`. -/
def entryPast (n : Nat) (e : Value × Value) : Value × Value := (e.1.past n, e.2.past n)

namespace Value

variable (n : Nat) (v w : Value)

@[simp] theorem past_none : Value.none.past n = .none := rfl

@[simp] theorem past_bool (b : Bool) : (Value.bool b).past n = .bool b := rfl

@[simp] theorem past_int (i : Int) : (Value.int i).past n = .int i := rfl

@[simp] theorem past_float (x : Float) : (Value.float x).past n = .float x := rfl

@[simp] theorem past_str (s : String) : (Value.str s).past n = .str s := rfl

@[simp] theorem past_list (r : Ref) : (Value.list r).past n = .list (pastRef n r) := rfl

@[simp] theorem past_tuple (r : Ref) : (Value.tuple r).past n = .tuple r := rfl

@[simp] theorem past_set (r : Ref) : (Value.set r).past n = .set r := rfl

@[simp] theorem past_dict (r : Ref) : (Value.dict r).past n = .dict r := rfl

@[simp] theorem past_range (a b c : Int) : (Value.range a b c).past n = .range a b c := rfl

@[simp] theorem past_function (r : Ref) : (Value.function r).past n = .function r := rfl

@[simp] theorem past_builtin (b : Builtin) : (Value.builtin b).past n = .builtin b := rfl

@[simp] theorem past_exceptionType (c : ExceptionClass) :
    (Value.exceptionType c).past n = .exceptionType c := rfl

@[simp] theorem past_exception (r : Ref) : (Value.exception r).past n = .exception r := rfl

@[simp] theorem past_method (name : String) : (Value.method v name).past n = .method (v.past n) name :=
  rfl

theorem past_eq_moved : Value.past n = Value.moved (.past n) := by
  funext v
  induction v with
  | method v name ih => exact congrArg (Value.method · name) ih
  | _ => rfl

@[simp] theorem number?_past : (v.past n).number? = v.number? := by
  rw [past_eq_moved, number?_moved]

@[simp] theorem int?_past : (v.past n).int? = v.int? := by rw [past_eq_moved, int?_moved]

@[simp] theorem typeName_past : (v.past n).typeName = v.typeName := by
  rw [past_eq_moved, typeName_moved]

@[simp] theorem identical_past : Heap.identical (v.past n) (w.past n) = Heap.identical v w := by
  rw [past_eq_moved, identical_moved]

/-- A predefined value is the same in both runs. -/
theorem past_of_predefined? {name : String} (h : predefined? name = some v) : v.past n = v := by
  rw [past_eq_moved, moved_of_predefined? h]

end Value

theorem entryPast_eq_moved (n : Nat) : entryPast n = entryMoved (.past n) := by
  funext e
  rw [entryPast, entryMoved, Value.past_eq_moved]

namespace Heap

/-! ### Heaps -/

/-- The heap `h` holds what `g` holds and at place `n` a list more, of `built`. -/
structure WithList (n : Nat) (built : List Value) (h g : Heap) : Prop where
  room : n ≤ g.lists.size
  lists : h.lists.size = g.lists.size + 1
  tuples : h.tuples.size = g.tuples.size
  sets : h.sets.size = g.sets.size
  dicts : h.dicts.size = g.dicts.size
  built : h.list n = built
  list : ∀ r, h.list (pastRef n r) = (g.list r).map (·.past n)
  tuple : ∀ r, h.tuple r = (g.tuple r).map (·.past n)
  set : ∀ r, h.set r = (g.set r).map (·.past n)
  dict : ∀ r, h.dict r = (g.dict r).map (entryPast n)

namespace WithList

variable {n : Nat} {built : List Value} {h g : Heap} (H : WithList n built h g)
include H

theorem containers_eq : h.containers = g.containers + 1 := by
  unfold containers
  rw [H.lists, H.tuples, H.sets, H.dicts]
  omega

theorem depth_le : g.depth ≤ h.depth := depth_mono (H.containers_eq ▸ Nat.le_succ _)

theorem moved : h.Moved (.past n) g where
  list r := by rw [← Value.past_eq_moved]; exact H.list r
  tuple r := by rw [← Value.past_eq_moved]; exact H.tuple r
  set r := by rw [← Value.past_eq_moved]; exact H.set r
  dict r := by rw [← entryPast_eq_moved]; exact H.dict r

theorem truthy_eq (v : Value) : h.truthy (v.past n) = g.truthy v := by
  rw [Value.past_eq_moved]
  exact H.moved.truthy_eq v

/-- What may be a key in one run may be one in the other. -/
theorem hashable_eq (v : Value) : h.hashable (v.past n) = g.hashable v := by
  rw [Value.past_eq_moved]
  exact (H.moved.hashableWithin_eq h.depth v).trans (Heap.hashableWithin_eq H.depth_le v)

/-! ### Comparisons -/

variable (hs : g.Small)
include hs

theorem equal_moved (a b : Value) : h.equal (a.moved (.past n)) (b.moved (.past n)) = g.equal a b :=
  (H.moved.equalWithin_eq h.depth a b).trans (hs.equalWithin_eq H.depth_le a b)

/-- Equality is the same in both runs. -/
@[simp] theorem equal_eq (a b : Value) : h.equal (a.past n) (b.past n) = g.equal a b := by
  rw [Value.past_eq_moved, H.equal_moved hs]

/-- Values that are ordered in the run with more lists are so in the other. -/
theorem order_eq_ok {a b : Value} {o : Ordering} (hab : h.order (a.past n) (b.past n) = .ok o) :
    g.order a b = .ok o := by
  rw [Value.past_eq_moved, order, H.moved.orderWithin_eq (H.equal_moved hs)] at hab
  exact (hs.orderWithin_eq_ok H.depth_le).mp hab

/-! ### Members and entries -/

theorem any_equal_eq (items : List Value) (v : Value) :
    (items.map (·.past n)).any (h.equal · (v.past n)) = items.any (g.equal · v) := by
  rw [Value.past_eq_moved]
  exact any_equal_moved (H.equal_moved hs) items v

theorem insertMember_eq (members : List Value) (item : Value) :
    h.insertMember (members.map (·.past n)) (item.past n) =
      (g.insertMember members item).map (·.past n) := by
  rw [Value.past_eq_moved]
  exact insertMember_moved (H.equal_moved hs) members item

theorem insertEntry_eq (key value : Value) (entries : Entries) :
    h.insertEntry (key.past n) (value.past n) (entries.map (entryPast n)) =
      (g.insertEntry key value entries).map (entryPast n) := by
  rw [Value.past_eq_moved, entryPast_eq_moved]
  exact insertEntry_moved (H.equal_moved hs) key value entries

theorem valueOf?_eq (entries : Entries) (key : Value) :
    h.valueOf? (entries.map (entryPast n)) (key.past n) =
      (g.valueOf? entries key).map (·.past n) := by
  rw [Value.past_eq_moved, entryPast_eq_moved]
  exact valueOf?_moved (H.equal_moved hs) entries key

end WithList

/-! ### Changes -/

theorem getD_push {α : Type} (store : Array (List α)) (items : List α) (r : Ref) :
    (store.push items)[r]?.getD [] = if r = store.size then items else store[r]?.getD [] := by
  rw [Array.getElem?_push]
  split <;> rfl

theorem getD_setIfInBounds {α : Type} (store : Array (List α)) (q : Ref) (items : List α) (r : Ref) :
    (store.setIfInBounds q items)[r]?.getD [] =
      if q = r ∧ r < store.size then items else store[r]?.getD [] := by
  rw [Array.getElem?_setIfInBounds]
  by_cases hq : q = r
  · subst hq
    by_cases hlt : q < store.size
    · simp [hlt]
    · simp [hlt]
  · simp [hq]

section Stores

variable {α β : Type} {f : α → β} {store : Array (List β)} {store' : Array (List α)}

theorem push_map (hsize : store.size = store'.size)
    (hmap : ∀ r : Ref, store[r]?.getD [] = (store'[r]?.getD []).map f) (items : List α) (r : Ref) :
    (store.push (items.map f))[r]?.getD [] = ((store'.push items)[r]?.getD []).map f := by
  rw [getD_push, getD_push, hsize]
  split
  · rfl
  · exact hmap r

theorem setIfInBounds_map (hsize : store.size = store'.size)
    (hmap : ∀ r : Ref, store[r]?.getD [] = (store'[r]?.getD []).map f) (q : Ref) (items : List α)
    (r : Ref) : (store.setIfInBounds q (items.map f))[r]?.getD [] =
      ((store'.setIfInBounds q items)[r]?.getD []).map f := by
  rw [getD_setIfInBounds, getD_setIfInBounds, hsize]
  split
  · rfl
  · exact hmap r

end Stores

namespace WithList

variable {n : Nat} {built : List Value} {h g : Heap} (H : WithList n built h g)
include H

/-- The place of the next list in both runs. -/
theorem pastRef_size : pastRef n g.lists.size = h.lists.size := by
  rw [pastRef_of_le H.room, H.lists]

theorem pushList (items : List Value) :
    WithList n built { h with lists := h.lists.push (items.map (·.past n)) }
      { g with lists := g.lists.push items } := by
  refine { H with room := ?_, lists := ?_, built := ?_, list := fun r => ?_ }
  · exact Nat.le_trans H.room (by simp)
  · simp [H.lists]
  · have hne : n ≠ h.lists.size := fun he => pastRef_ne n g.lists.size (H.pastRef_size.trans he.symm)
    exact (getD_push _ _ _).trans ((if_neg hne).trans H.built)
  · have hlist : h.lists[pastRef n r]?.getD [] = (g.lists[r]?.getD []).map _ := H.list r
    show (h.lists.push _)[pastRef n r]?.getD [] = ((g.lists.push items)[r]?.getD []).map _
    rw [getD_push, getD_push, hlist]
    simp only [← H.pastRef_size, pastRef_inj]
    split <;> rfl

theorem pushTuple (items : List Value) :
    WithList n built { h with tuples := h.tuples.push (items.map (·.past n)) }
      { g with tuples := g.tuples.push items } :=
  { H with tuples := by simp [H.tuples], tuple := push_map H.tuples H.tuple items }

theorem pushSet (members : List Value) :
    WithList n built { h with sets := h.sets.push (members.map (·.past n)) }
      { g with sets := g.sets.push members } :=
  { H with sets := by simp [H.sets], set := push_map H.sets H.set members }

theorem pushDict (entries : Entries) :
    WithList n built { h with dicts := h.dicts.push (entries.map (entryPast n)) }
      { g with dicts := g.dicts.push entries } :=
  { H with dicts := by simp [H.dicts], dict := push_map H.dicts H.dict entries }

theorem setDict (q : Ref) (entries : Entries) :
    WithList n built { h with dicts := h.dicts.setIfInBounds q (entries.map (entryPast n)) }
      { g with dicts := g.dicts.setIfInBounds q entries } :=
  { H with dicts := by simp [H.dicts], dict := setIfInBounds_map H.dicts H.dict q entries }

theorem pastRef_lt_iff (r : Nat) : pastRef n r < h.lists.size ↔ r < g.lists.size := by
  have hroom := H.room
  rw [H.lists, pastRef]
  split <;> omega

theorem setList (q : Ref) (items : List Value) :
    WithList n built { h with lists := h.lists.setIfInBounds (pastRef n q) (items.map (·.past n)) }
      { g with lists := g.lists.setIfInBounds q items } := by
  refine { H with room := ?_, lists := ?_, built := ?_, list := fun r => ?_ }
  · simpa using H.room
  · simpa using H.lists
  · exact (getD_setIfInBounds _ _ _ _).trans ((if_neg fun he => pastRef_ne n q he.1).trans H.built)
  · have hlist : h.lists[pastRef n r]?.getD [] = (g.lists[r]?.getD []).map _ := H.list r
    show (h.lists.setIfInBounds _ _)[pastRef n r]?.getD [] =
      ((g.lists.setIfInBounds q items)[r]?.getD []).map _
    rw [getD_setIfInBounds, getD_setIfInBounds, hlist]
    simp only [pastRef_inj, H.pastRef_lt_iff]
    split <;> rfl

/-- A change of the list that only one run has. -/
theorem rebuild (items : List Value) :
    WithList n items { h with lists := h.lists.setIfInBounds n items } g := by
  have hlt : n < h.lists.size := H.lists ▸ Nat.lt_succ_of_le H.room
  refine { H with lists := ?_, built := ?_, list := fun r => ?_ }
  · simpa using H.lists
  · exact (getD_setIfInBounds _ _ _ _).trans (if_pos ⟨rfl, hlt⟩)
  · exact (getD_setIfInBounds _ _ _ _).trans
      ((if_neg fun he => pastRef_ne n r he.1.symm).trans (H.list r))

end WithList

end Heap

end Concord.Machine
