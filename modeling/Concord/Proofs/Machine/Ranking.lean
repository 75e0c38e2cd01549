import Concord.Machine.Compare
import Concord.Proofs.Machine.Equivalence
import Mathlib.Order.Compare
import Mathlib.Data.String.Basic

/-!
# The order of keys

Keys that are numbers without fractions, texts, or lists and tuples of such keys down to any depth are
`Sortable`. Two of them cannot always be ordered: a number and a text are not, and two sequences are not if
the first items in which they differ are not. Where sortable keys are ordered, the order is a total
preorder, and the keys that it ties are those that are equal.

Main statements, for sortable keys:

* `Sortable.equal_symm`, `Sortable.equal_trans`: equality is an equivalence.
* `Sortable.order_eq_iff`: equal keys are ordered alike, and no others.
* `Sortable.order_swap`, `Sortable.order_trans`: the order goes one way only, and on.
-/

namespace Concord.Machine

namespace Heap

variable {h : Heap} {a b c : Value} {o : Ordering}

/-- A truth value or an integer, a text, or a list or tuple of such values, down to any depth. -/
inductive Sortable (h : Heap) : Value → Prop
  | number {v : Value} {i : Int} (hv : v.int? = some i) : Sortable h v
  | str (s : String) : Sortable h (.str s)
  | list (r : Ref) (items : ∀ v ∈ h.list r, Sortable h v) : Sortable h (.list r)
  | tuple (r : Ref) (items : ∀ v ∈ h.tuple r, Sortable h v) : Sortable h (.tuple r)

/-- Two numbers, two texts, two lists or two tuples, related by what they hold. -/
inductive OfOneKind (h : Heap) (numbers : Int → Int → Prop) (texts : String → String → Prop)
    (items : List Value → List Value → Prop) : Value → Value → Prop
  | number {a b : Value} {i j : Int} (ha : a.int? = some i) (hb : b.int? = some j)
    (hij : numbers i j) : OfOneKind h numbers texts items a b
  | str {s t : String} (hst : texts s t) : OfOneKind h numbers texts items (.str s) (.str t)
  | list {r q : Ref} (hrq : items (h.list r) (h.list q)) :
    OfOneKind h numbers texts items (.list r) (.list q)
  | tuple {r q : Ref} (hrq : items (h.tuple r) (h.tuple q)) :
    OfOneKind h numbers texts items (.tuple r) (.tuple q)

theorem eq_of_int? {v : Value} {i : Int} (hv : v.int? = some i) :
    v = .int i ∨ ∃ b, v = .bool b ∧ i = if b then 1 else 0 := by
  cases v with
  | int j => exact .inl (congrArg Value.int (Option.some.inj hv))
  | bool b => exact .inr ⟨b, rfl, (Option.some.inj hv).symm⟩
  | _ => cases hv

theorem Sortable.comparable (ha : h.Sortable a) : h.Comparable a := by
  induction ha with
  | number hv => rcases eq_of_int? hv with rfl | ⟨b, rfl, -⟩ <;> exact .scalar rfl rfl
  | str s => exact .scalar rfl rfl
  | list r _ ih => exact .intro rfl .nil ih
  | tuple r _ ih => exact .intro rfl .nil ih

theorem Sortable.founded (ha : h.Sortable a) : h.Founded a := ha.comparable.founded

theorem Sortable.equal_self (ha : h.Sortable a) : h.equal a a = true := ha.comparable.equal_self

theorem Sortable.of_mem (ha : h.Sortable a) (w : Value) (hw : w ∈ h.items a) : h.Sortable w := by
  cases ha with
  | number hv => rcases eq_of_int? hv with rfl | ⟨b, rfl, -⟩ <;> cases hw
  | str s => cases hw
  | list r items => exact items w hw
  | tuple r items => exact items w hw

/-- What holds of a sortable key if it holds of the items of that key holds of every sortable key. -/
theorem Sortable.itemwise {motive : (v : Value) → h.Sortable v → Prop}
    (step : ∀ (v : Value) (hv : h.Sortable v),
      (∀ (w : Value) (hw : w ∈ h.items v), motive w (hv.of_mem w hw)) → motive v hv)
    {v : Value} (hv : h.Sortable v) : motive v hv := by
  have hacc := hv.founded
  induction hacc with
  | intro v _ ih => exact step v hv fun w hw => ih w hw (hv.of_mem w hw)

namespace OfOneKind

variable {numbers numbers' numbers'' : Int → Int → Prop} {texts texts' texts'' : String → String → Prop}
  {items items' items'' : List Value → List Value → Prop}

theorem imp (hab : h.OfOneKind numbers texts items a b) (hnumbers : ∀ i j, numbers i j → numbers' i j)
    (htexts : ∀ s t, texts s t → texts' s t)
    (hitems : items (h.items a) (h.items b) → items' (h.items a) (h.items b)) :
    h.OfOneKind numbers' texts' items' a b := by
  cases hab with
  | number ha hb hij => exact .number ha hb (hnumbers _ _ hij)
  | str hst => exact .str (htexts _ _ hst)
  | list hrq => exact .list (hitems hrq)
  | tuple hrq => exact .tuple (hitems hrq)

theorem flip (hab : h.OfOneKind numbers texts items a b) (hnumbers : ∀ i j, numbers i j → numbers' j i)
    (htexts : ∀ s t, texts s t → texts' t s)
    (hitems : items (h.items a) (h.items b) → items' (h.items b) (h.items a)) :
    h.OfOneKind numbers' texts' items' b a := by
  cases hab with
  | number ha hb hij => exact .number hb ha (hnumbers _ _ hij)
  | str hst => exact .str (htexts _ _ hst)
  | list hrq => exact .list (hitems hrq)
  | tuple hrq => exact .tuple (hitems hrq)

theorem comp (hab : h.OfOneKind numbers texts items a b) (hbc : h.OfOneKind numbers' texts' items' b c)
    (hnumbers : ∀ i j k, numbers i j → numbers' j k → numbers'' i k)
    (htexts : ∀ s t u, texts s t → texts' t u → texts'' s u)
    (hitems : items (h.items a) (h.items b) → items' (h.items b) (h.items c) →
      items'' (h.items a) (h.items c)) :
    h.OfOneKind numbers'' texts'' items'' a c := by
  cases hab with
  | number ha hb hij =>
    cases hbc with
    | number hb' hc hjk =>
      obtain rfl := Option.some.inj (hb.symm.trans hb')
      exact .number ha hc (hnumbers _ _ _ hij hjk)
    | _ => cases hb
  | str hst =>
    cases hbc with
    | number hb => cases hb
    | str htu => exact .str (htexts _ _ _ hst htu)
  | list hrq =>
    cases hbc with
    | number hb => cases hb
    | list hqp => exact .list (hitems hrq hqp)
  | tuple hrq =>
    cases hbc with
    | number hb => cases hb
    | tuple hqp => exact .tuple (hitems hrq hqp)

theorem both {p : Prop} (hab : h.OfOneKind numbers texts items a b)
    (hab' : h.OfOneKind numbers' texts' items' a b) (hnumbers : ∀ i j, numbers i j → numbers' i j → p)
    (htexts : ∀ s t, texts s t → texts' s t → p)
    (hitems : items (h.items a) (h.items b) → items' (h.items a) (h.items b) → p) : p := by
  cases hab with
  | number ha hb hij =>
    cases hab' with
    | number ha' hb' hij' =>
      obtain rfl := Option.some.inj (ha.symm.trans ha')
      obtain rfl := Option.some.inj (hb.symm.trans hb')
      exact hnumbers _ _ hij hij'
    | _ => cases ha
  | str hst =>
    cases hab' with
    | number ha => cases ha
    | str hst' => exact htexts _ _ hst hst'
  | list hrq =>
    cases hab' with
    | number ha => cases ha
    | list hrq' => exact hitems hrq hrq'
  | tuple hrq =>
    cases hab' with
    | number ha => cases ha
    | tuple hrq' => exact hitems hrq hrq'

end OfOneKind

/-! ## Equality and order, one level at a time -/

theorem Founded.equal_eq (ha : h.Founded a) : h.equal a b = h.equalWithin (h.depth + 1) a b :=
  (congrFun (ha.endsWithin_depth.equalWithin_eq (Nat.le_succ _)) b).symm

theorem Founded.order_eq (ha : h.Founded a) : h.order a b = h.orderWithin (h.depth + 1) a b :=
  (congrFun (ha.endsWithin_depth.orderWithin_eq (Nat.le_succ _)) b).symm

theorem equalWithin_number {n : Nat} {i j : Int} (ha : a.int? = some i) (hb : b.int? = some j) :
    h.equalWithin (n + 1) a b = true ↔ i = j := by
  rcases eq_of_int? ha with rfl | ⟨x, rfl, rfl⟩ <;> rcases eq_of_int? hb with rfl | ⟨y, rfl, rfl⟩ <;>
    exact beq_iff_eq

theorem orderWithin_number {n : Nat} {i j : Int} (ha : a.int? = some i) (hb : b.int? = some j) :
    h.orderWithin (n + 1) a b = .ok (compare i j) := by
  rcases eq_of_int? ha with rfl | ⟨x, rfl, rfl⟩ <;> rcases eq_of_int? hb with rfl | ⟨y, rfl, rfl⟩ <;> rfl

/-- Sortable keys are equal if they are of one kind and hold what is equal. -/
theorem Sortable.equal_iff (ha : h.Sortable a) (hb : h.Sortable b) : h.equal a b = true ↔
    h.OfOneKind (· = ·) (· = ·) (List.Forall₂ fun x y => h.equal x y = true) a b := by
  rw [ha.founded.equal_eq]
  constructor
  · intro hab
    cases ha with
    | number hi =>
      cases hb with
      | number hj => exact .number hi hj ((equalWithin_number hi hj).mp hab)
      | _ => rcases eq_of_int? hi with rfl | ⟨x, rfl, -⟩ <;> cases hab
    | str s =>
      cases hb with
      | number hj => rcases eq_of_int? hj with rfl | ⟨y, rfl, -⟩ <;> cases hab
      | str t => exact .str (beq_iff_eq.mp hab)
      | _ => cases hab
    | list r items =>
      cases hb with
      | number hj => rcases eq_of_int? hj with rfl | ⟨y, rfl, -⟩ <;> cases hab
      | list q =>
        -- One list stands at one place only, so that its items are their own partners.
        rcases Bool.or_eq_true_iff.mp hab with hrq | hitems
        · obtain rfl := beq_iff_eq.mp hrq
          exact .list (List.forall₂_same.mpr fun x hx => (items x hx).equal_self)
        · exact .list (pairwise_iff_forall₂.mp hitems)
      | _ => cases hab
    | tuple r items =>
      cases hb with
      | number hj => rcases eq_of_int? hj with rfl | ⟨y, rfl, -⟩ <;> cases hab
      | tuple q => exact .tuple (pairwise_iff_forall₂.mp hab)
      | _ => cases hab
  · intro hab
    cases hab with
    | number hi hj hij => exact (equalWithin_number hi hj).mpr hij
    | str hst => exact beq_iff_eq.mpr hst
    | list hrq => exact Bool.or_eq_true_iff.mpr (.inr (pairwise_iff_forall₂.mpr hrq))
    | tuple hrq => exact pairwise_iff_forall₂.mpr hrq

/-- Sortable keys are ordered if they are of one kind and what they hold is. -/
theorem Sortable.order_iff (ha : h.Sortable a) (hb : h.Sortable b) : h.order a b = .ok o ↔
    h.OfOneKind (fun i j => compare i j = o) (fun s t => compare s t = o)
      (fun xs ys => orderItems h.equal h.order xs ys = .ok o) a b := by
  rw [ha.founded.order_eq]
  constructor
  · intro hab
    cases ha with
    | number hi =>
      cases hb with
      | number hj => exact .number hi hj (Except.ok.inj ((orderWithin_number hi hj).symm.trans hab))
      | _ => rcases eq_of_int? hi with rfl | ⟨x, rfl, -⟩ <;> cases hab
    | str s =>
      cases hb with
      | number hj => rcases eq_of_int? hj with rfl | ⟨y, rfl, -⟩ <;> cases hab
      | str t => exact .str (Except.ok.inj hab)
      | _ => cases hab
    | list r items =>
      cases hb with
      | number hj => rcases eq_of_int? hj with rfl | ⟨y, rfl, -⟩ <;> cases hab
      | list q => exact .list hab
      | _ => cases hab
    | tuple r items =>
      cases hb with
      | number hj => rcases eq_of_int? hj with rfl | ⟨y, rfl, -⟩ <;> cases hab
      | tuple q => exact .tuple hab
      | _ => cases hab
  · intro hab
    cases hab with
    | number hi hj hij => exact (orderWithin_number hi hj).trans (congrArg Except.ok hij)
    | str hst => exact congrArg Except.ok hst
    | list hrq => exact hrq
    | tuple hrq => exact hrq

/-! ## Equality is an equivalence -/

theorem Sortable.equal_symm (ha : h.Sortable a) (hb : h.Sortable b) (hab : h.equal a b = true) :
    h.equal b a = true :=
  ha.comparable.equal_symm hb.comparable hab

theorem Sortable.equal_comm (ha : h.Sortable a) (hb : h.Sortable b) : h.equal a b = h.equal b a :=
  Bool.eq_iff_iff.mpr ⟨ha.equal_symm hb, hb.equal_symm ha⟩

theorem Sortable.equal_trans (ha : h.Sortable a) (hb : h.Sortable b) (hc : h.Sortable c)
    (hab : h.equal a b = true) (hbc : h.equal b c = true) : h.equal a c = true :=
  ha.comparable.equal_trans hb.comparable hc.comparable hab hbc

/-- What equals one of two equal keys equals the other one. -/
theorem Sortable.equal_congr (ha : h.Sortable a) (hb : h.Sortable b) (hc : h.Sortable c)
    (hab : h.equal a b = true) : h.equal a c = h.equal b c :=
  Bool.eq_iff_iff.mpr ⟨hb.equal_trans ha hc (ha.equal_symm hb hab), ha.equal_trans hb hc hab⟩

/-! ## The order is a preorder that ties what is equal -/

section Items

variable {xs ys zs : List Value}

theorem orderItems_eq_iff
    (heq : ∀ x ∈ xs, ∀ y ∈ ys, h.order x y = .ok .eq ↔ h.equal x y = true) :
    orderItems h.equal h.order xs ys = .ok .eq ↔ List.Forall₂ (fun x y => h.equal x y = true) xs ys := by
  induction xs generalizing ys with
  | nil => cases ys <;> simp [orderItems]
  | cons x xs ih =>
    cases ys with
    | nil => simp [orderItems]
    | cons y ys =>
      rw [orderItems, List.forall₂_cons]
      split
      · next hxy =>
        rw [and_iff_right hxy]
        exact ih fun x hx y hy => heq x (List.mem_cons_of_mem _ hx) y (List.mem_cons_of_mem _ hy)
      · next hxy => simp [heq x List.mem_cons_self y List.mem_cons_self, hxy]

theorem orderItems_swap (hxs : ∀ x ∈ xs, h.Sortable x) (hys : ∀ y ∈ ys, h.Sortable y)
    (hswap : ∀ x ∈ xs, ∀ y ∈ ys, ∀ o, h.order x y = .ok o → h.order y x = .ok o.swap)
    (hxy : orderItems h.equal h.order xs ys = .ok o) :
    orderItems h.equal h.order ys xs = .ok o.swap := by
  induction xs generalizing ys with
  | nil => cases ys <;> cases hxy <;> rfl
  | cons x xs ih =>
    cases ys with
    | nil => cases hxy; rfl
    | cons y ys =>
      have hx := hxs x List.mem_cons_self
      have hy := hys y List.mem_cons_self
      rw [orderItems, hy.equal_comm hx]
      rw [orderItems] at hxy
      split at hxy
      · next heq =>
        rw [if_pos heq]
        exact ih (fun x hx => hxs x (List.mem_cons_of_mem _ hx))
          (fun y hy => hys y (List.mem_cons_of_mem _ hy))
          (fun x hx y hy => hswap x (List.mem_cons_of_mem _ hx) y (List.mem_cons_of_mem _ hy)) hxy
      · next heq =>
        rw [if_neg heq]
        exact hswap x List.mem_cons_self y List.mem_cons_self o hxy

/-- Sequences whose items are equal one by one have the same place in the order. -/
theorem orderItems_of_equal (hxs : ∀ x ∈ xs, h.Sortable x) (hys : ∀ y ∈ ys, h.Sortable y)
    (hzs : ∀ z ∈ zs, h.Sortable z)
    (hcongr : ∀ x ∈ xs, ∀ y ∈ ys, ∀ z ∈ zs, h.equal x y = true → ∀ o, h.order x z = .ok o →
      h.order y z = .ok o)
    (hxy : List.Forall₂ (fun x y => h.equal x y = true) xs ys)
    (hxz : orderItems h.equal h.order xs zs = .ok o) : orderItems h.equal h.order ys zs = .ok o := by
  induction hxy generalizing zs with
  | nil => exact hxz
  | @cons x y xs ys heq hrest ih =>
    cases zs with
    | nil => exact hxz
    | cons z zs =>
      have hz := hzs z List.mem_cons_self
      rw [orderItems, ← (hxs x List.mem_cons_self).equal_congr (hys y List.mem_cons_self) hz heq]
      rw [orderItems] at hxz
      split at hxz
      · next h₁ =>
        rw [if_pos h₁]
        exact ih (fun x hx => hxs x (List.mem_cons_of_mem _ hx))
          (fun y hy => hys y (List.mem_cons_of_mem _ hy)) (fun z hz => hzs z (List.mem_cons_of_mem _ hz))
          (fun x hx y hy z hz => hcongr x (List.mem_cons_of_mem _ hx) y (List.mem_cons_of_mem _ hy) z
            (List.mem_cons_of_mem _ hz)) hxz
      · next h₁ =>
        rw [if_neg h₁]
        exact hcongr x List.mem_cons_self y List.mem_cons_self z List.mem_cons_self heq o hxz

end Items

theorem Sortable.order_eq_iff (ha : h.Sortable a) (hb : h.Sortable b) :
    h.order a b = .ok .eq ↔ h.equal a b = true := by
  induction ha using Sortable.itemwise generalizing b with
  | step a ha ih =>
    have hitems := orderItems_eq_iff fun x hx y hy => ih x hx (hb.of_mem y hy)
    rw [ha.order_iff hb, ha.equal_iff hb]
    constructor
    · exact fun hab => hab.imp (fun _ _ => compare_eq_iff_eq.mp) (fun _ _ => compare_eq_iff_eq.mp)
        hitems.mp
    · exact fun hab => hab.imp (fun _ _ => compare_eq_iff_eq.mpr) (fun _ _ => compare_eq_iff_eq.mpr)
        hitems.mpr

theorem Sortable.order_swap (ha : h.Sortable a) (hb : h.Sortable b) (hab : h.order a b = .ok o) :
    h.order b a = .ok o.swap := by
  induction ha using Sortable.itemwise generalizing b o with
  | step a ha ih =>
    refine (hb.order_iff ha).mpr (((ha.order_iff hb).mp hab).flip ?_ ?_ ?_)
    · exact fun i j hij => hij ▸ Std.OrientedCmp.eq_swap
    · exact fun s t hst => hst ▸ Std.OrientedCmp.eq_swap
    · exact orderItems_swap ha.of_mem hb.of_mem fun x hx y hy o => ih x hx (hb.of_mem y hy)

/-- Equal keys have the same place in the order. -/
theorem Sortable.order_of_equal (ha : h.Sortable a) (hb : h.Sortable b) (hc : h.Sortable c)
    (hab : h.equal a b = true) (hac : h.order a c = .ok o) : h.order b c = .ok o := by
  induction ha using Sortable.itemwise generalizing b c o with
  | step a ha ih =>
    have hba : h.OfOneKind (· = ·) (· = ·)
        (fun ys xs => List.Forall₂ (fun x y => h.equal x y = true) xs ys) b a :=
      ((ha.equal_iff hb).mp hab).flip (fun _ _ => Eq.symm) (fun _ _ => Eq.symm) id
    refine (hb.order_iff hc).mpr (hba.comp ((ha.order_iff hc).mp hac) ?_ ?_ ?_)
    · exact fun i j k hij hjk => hij ▸ hjk
    · exact fun s t u hst htu => hst ▸ htu
    · exact orderItems_of_equal ha.of_mem hb.of_mem hc.of_mem fun x hx y hy z hz heq o =>
        ih x hx (hb.of_mem y hy) (hc.of_mem z hz) heq

theorem orderItems_trans {xs ys zs : List Value} (hxs : ∀ x ∈ xs, h.Sortable x)
    (hys : ∀ y ∈ ys, h.Sortable y) (hzs : ∀ z ∈ zs, h.Sortable z)
    (htrans : ∀ x ∈ xs, ∀ y ∈ ys, ∀ z ∈ zs, h.order x y = .ok .lt → h.order y z = .ok .lt →
      ∀ o, h.order x z = .ok o → o = .lt)
    (hxy : orderItems h.equal h.order xs ys = .ok .lt)
    (hyz : orderItems h.equal h.order ys zs = .ok .lt)
    (hxz : orderItems h.equal h.order xs zs = .ok o) : o = .lt := by
  induction xs generalizing ys zs with
  | nil =>
    cases zs with
    | nil => cases ys <;> cases hyz
    | cons z zs => cases hxz; rfl
  | cons x xs ih =>
    cases ys with
    | nil => cases hxy
    | cons y ys =>
      cases zs with
      | nil => cases hyz
      | cons z zs =>
        have hx := hxs x List.mem_cons_self
        have hy := hys y List.mem_cons_self
        have hz := hzs z List.mem_cons_self
        rw [orderItems] at hxy hyz hxz
        -- The first places in which the sequences differ decide.
        by_cases hxy' : h.equal x y = true
        · rw [hx.equal_congr hy hz hxy'] at hxz
          rw [if_pos hxy'] at hxy
          by_cases hyz' : h.equal y z = true
          · rw [if_pos hyz'] at hyz hxz
            exact ih (fun x hx => hxs x (List.mem_cons_of_mem _ hx))
              (fun y hy => hys y (List.mem_cons_of_mem _ hy))
              (fun z hz => hzs z (List.mem_cons_of_mem _ hz))
              (fun x hx y hy z hz => htrans x (List.mem_cons_of_mem _ hx) y
                (List.mem_cons_of_mem _ hy) z (List.mem_cons_of_mem _ hz)) hxy hyz hxz
          · rw [if_neg hyz'] at hyz hxz
            exact Except.ok.inj (hxz.symm.trans (hy.order_of_equal hx hz (hx.equal_symm hy hxy') hyz))
        · rw [if_neg hxy'] at hxy
          by_cases hyz' : h.equal y z = true
          · rw [hx.equal_comm hz, ← hy.equal_congr hz hx hyz', hy.equal_comm hx, if_neg hxy'] at hxz
            have hzx := hy.order_of_equal hz hx hyz' (hx.order_swap hy hxy)
            exact Except.ok.inj (hxz.symm.trans (hz.order_swap hx hzx))
          · rw [if_neg hyz'] at hyz
            by_cases hxz' : h.equal x z = true
            · cases (hx.order_of_equal hz hy hxz' hxy).symm.trans (hy.order_swap hz hyz)
            · rw [if_neg hxz'] at hxz
              exact htrans x List.mem_cons_self y List.mem_cons_self z List.mem_cons_self hxy hyz o hxz

theorem Sortable.order_trans (ha : h.Sortable a) (hb : h.Sortable b) (hc : h.Sortable c)
    (hab : h.order a b = .ok .lt) (hbc : h.order b c = .ok .lt) (hac : h.order a c = .ok o) :
    o = .lt := by
  induction ha using Sortable.itemwise generalizing b c o with
  | step a ha ih =>
    have hlt : h.OfOneKind (fun i k => compare i k = .lt) (fun s u => compare s u = .lt)
        (fun xs zs => ∀ o, orderItems h.equal h.order xs zs = .ok o → o = .lt) a c := by
      refine ((ha.order_iff hb).mp hab).comp ((hb.order_iff hc).mp hbc) ?_ ?_ ?_
      · exact fun i j k => Std.TransCmp.lt_trans
      · exact fun s t u => Std.TransCmp.lt_trans
      · exact fun hxy hyz o => orderItems_trans ha.of_mem hb.of_mem hc.of_mem
          (fun x hx y hy z hz h₁ h₂ o h₃ => ih x hx (hb.of_mem y hy) (hc.of_mem z hz) h₁ h₂ h₃) hxy hyz
    refine hlt.both ((ha.order_iff hc).mp hac) ?_ ?_ ?_
    · exact fun i k h₁ h₂ => h₂.symm.trans h₁
    · exact fun s u h₁ h₂ => h₂.symm.trans h₁
    · exact fun hall => hall o

end Heap

end Concord.Machine
