import Concord.Proofs.Machine.Nesting
import Mathlib.Data.List.Forall2

/-!
# Sameness and equality as equivalences

Sameness and equality go down two values in step, and they part in one point only: for equality a truth
value counts as an integer. `AlikeWithin` is what they have in common. Of doubles, and of what is told
apart by where it stands, neither is an equivalence; `Comparable` leaves these out, and containers that
hold themselves.

Of two sets or dictionaries it is asked that they are equally large and that everything in the first is
related to something in the second. That this holds in the other direction as well is a matter of
counting: two members related to one and the same would be equal to each other, and no two members of a
set are (`Covers.symm`, `AlikeWithin.symm`).

Main statement: `same_finer_equal`.
-/

namespace Concord.Machine

/-! ## Values that can be compared -/

namespace Value

/-- The value is no double, and no function, method or exception: these are told apart by where they
stand. -/
def isComparable : Value → Bool
  | .float _ | .function _ | .method _ _ | .exception _ => false
  | _ => true

/-- The value holds other values. -/
def isContainer : Value → Bool
  | .list _ | .tuple _ | .set _ | .dict _ => true
  | _ => false

/-- What a value counts as in a comparison; the two truth values count as integers if types are
`crossed`. -/
def face : (crossed : Bool) → Value → Value
  | true, .bool b => .int (if b then 1 else 0)
  | _, v => v

end Value

namespace Heap

variable {h k l : Heap} {a b c v w : Value} {crossed : Bool} {n : Nat}

/-- The members of a set and the keys of a dictionary. -/
def keys (h : Heap) : Value → List Value
  | .set r => h.set r
  | .dict r => (h.dict r).map Prod.fst
  | _ => []

theorem keys_subset (h : Heap) (v : Value) : h.keys v ⊆ h.items v := by
  cases v with
  | set r => exact fun _ => id
  | dict r =>
    intro key hkey
    obtain ⟨entry, hentry, rfl⟩ := List.mem_map.mp hkey
    exact (mem_items_dict hentry).1
  | _ => exact fun _ hkey => absurd hkey List.not_mem_nil

/-- The value does not hold itself and is built without doubles, functions, methods and exceptions; and
no two members of a set and no two keys of a dictionary in it are equal. -/
structure Comparable (h : Heap) (v : Value) : Prop where
  founded : h.Founded v
  kinds : ∀ u, h.Below u v → u.isComparable = true
  distinct : ∀ u, h.Below u v → (h.keys u).Pairwise fun a b => h.equal a b = false

theorem Comparable.item (hv : h.Comparable v) (hw : w ∈ h.items v) : h.Comparable w :=
  ⟨hv.founded.inv hw, fun u hu => hv.kinds u (hu.tail hw), fun u hu => hv.distinct u (hu.tail hw)⟩

theorem Comparable.intro (hkind : v.isComparable = true)
    (hkeys : (h.keys v).Pairwise fun a b => h.equal a b = false)
    (hitems : ∀ w ∈ h.items v, h.Comparable w) : h.Comparable v where
  founded := Acc.intro v fun w hw => (hitems w hw).founded
  kinds u hu := by
    rcases hu.cases_tail with rfl | ⟨w, huw, hw⟩
    · exact hkind
    · exact (hitems w hw).kinds u huw
  distinct u hu := by
    rcases hu.cases_tail with rfl | ⟨w, huw, hw⟩
    · exact hkeys
    · exact (hitems w hw).distinct u huw

theorem Comparable.scalar (hkind : v.isComparable = true) (hscalar : v.isContainer = false) :
    h.Comparable v := by
  have hitems : h.items v = [] := by
    cases v with
    | list _ | tuple _ | set _ | dict _ => cases hscalar
    | _ => rfl
  have hkeys : h.keys v = [] := List.subset_nil.mp (hitems ▸ h.keys_subset v)
  refine .intro hkind ?_ ?_
  · rw [hkeys]
    exact .nil
  · rw [hitems]
    exact nofun

/-! ## Lists compared item by item and as collections -/

section

variable {α β γ : Type} {rel rel' : α → β → Prop} {as : List α} {bs : List β}

/-- Two lists have equally many items, and each of the first is related to one of the second. -/
def Covers (rel : α → β → Prop) (as : List α) (bs : List β) : Prop :=
  as.length = bs.length ∧ ∀ a ∈ as, ∃ b ∈ bs, rel a b

theorem covered_iff {rel : α → α → Bool} {as bs : List α} :
    covered rel as bs = true ↔ Covers (fun x y => rel x y = true) as bs := by
  simp [covered, Covers]

theorem pairwise_iff_forall₂ {rel : α → α → Bool} {as bs : List α} :
    pairwise rel as bs = true ↔ List.Forall₂ (fun x y => rel x y = true) as bs := by
  rw [List.forall₂_iff_zip]
  simp [pairwise]

theorem forall₂_imp_of_mem (hall : List.Forall₂ rel as bs)
    (himp : ∀ a ∈ as, ∀ b ∈ bs, rel a b → rel' a b) : List.Forall₂ rel' as bs := by
  rw [List.forall₂_iff_zip] at hall ⊢
  refine ⟨hall.1, fun hmem => ?_⟩
  obtain ⟨ha, hb⟩ := List.of_mem_zip hmem
  exact himp _ ha _ hb (hall.2 hmem)

theorem forall₂_trans {rel' : β → γ → Prop} {rel'' : α → γ → Prop} {cs : List γ}
    (htrans : ∀ a b c, rel a b → rel' b c → rel'' a c) (hab : List.Forall₂ rel as bs)
    (hbc : List.Forall₂ rel' bs cs) : List.Forall₂ rel'' as cs := by
  induction hab generalizing cs with
  | nil =>
    cases hbc
    exact .nil
  | cons hhead _ ih =>
    cases hbc with
    | cons hhead' htail' => exact .cons (htrans _ _ _ hhead hhead') (ih htail')

theorem Covers.imp (hcovers : Covers rel as bs) (himp : ∀ a ∈ as, ∀ b ∈ bs, rel a b → rel' a b) :
    Covers rel' as bs := by
  refine ⟨hcovers.1, fun a ha => ?_⟩
  obtain ⟨b, hb, hab⟩ := hcovers.2 a ha
  exact ⟨b, hb, himp a ha b hb hab⟩

theorem Covers.trans {rel' : β → γ → Prop} {rel'' : α → γ → Prop} {cs : List γ}
    (htrans : ∀ a b c, rel a b → rel' b c → rel'' a c) (hab : Covers rel as bs)
    (hbc : Covers rel' bs cs) : Covers rel'' as cs := by
  refine ⟨hab.1.trans hbc.1, fun a ha => ?_⟩
  obtain ⟨b, hb, hfirst⟩ := hab.2 a ha
  obtain ⟨c, hc, hsecond⟩ := hbc.2 b hb
  exact ⟨c, hc, htrans a b c hfirst hsecond⟩

/-- If no two items of the first list are related to the same one, then as many items as there are on
both sides leave none of the second list out. -/
theorem Covers.symm (hcovers : Covers rel as bs)
    (hapart : as.Pairwise fun a a' => ∀ b ∈ bs, rel a b → ¬rel a' b) :
    Covers (fun b a => rel a b) bs as := by
  induction as generalizing bs with
  | nil => exact ⟨hcovers.1.symm, by simp [List.length_eq_zero_iff.mp hcovers.1.symm]⟩
  | cons a as ih =>
    obtain ⟨hfirst, hapart⟩ := List.pairwise_cons.mp hapart
    obtain ⟨b, hb, hab⟩ := hcovers.2 a List.mem_cons_self
    obtain ⟨front, back, rfl⟩ := List.append_of_mem hb
    -- Without `a` and its partner the counts still agree.
    have hsub : front ++ back ⊆ front ++ b :: back := by simp
    have hrest : Covers rel as (front ++ back) := by
      refine ⟨?_, fun a' ha' => ?_⟩
      · have hlength := hcovers.1
        simp only [List.length_cons, List.length_append] at hlength ⊢
        omega
      · obtain ⟨b', hb', hab'⟩ := hcovers.2 a' (List.mem_cons_of_mem _ ha')
        have hne : b' ≠ b := by
          rintro rfl
          exact hfirst a' ha' b' hb hab hab'
        exact ⟨b', by simpa [hne] using hb', hab'⟩
    have hback := ih hrest (hapart.imp fun hdiffer b' hb' => hdiffer b' (hsub hb'))
    refine ⟨hcovers.1.symm, fun b' hb' => ?_⟩
    by_cases hmem : b' ∈ front ++ back
    · obtain ⟨a', ha', hab'⟩ := hback.2 b' hmem
      exact ⟨a', List.mem_cons_of_mem _ ha', hab'⟩
    · obtain rfl : b' = b := by
        simp only [List.mem_append, List.mem_cons] at hb' hmem
        tauto
      exact ⟨a, List.mem_cons_self, hab⟩

end

/-! ## Values gone down in step -/

/-- How two values compare, if what they hold compares by `rel`. -/
inductive AlikeBy (crossed : Bool) (h k : Heap) (rel : Value → Value → Prop) : Value → Value → Prop
  | scalar {a b : Value} (ha : a.isContainer = false) (hb : b.isContainer = false)
      (hface : a.face crossed = b.face crossed) : AlikeBy crossed h k rel a b
  | list {r q : Ref} (hitems : List.Forall₂ rel (h.list r) (k.list q)) :
      AlikeBy crossed h k rel (.list r) (.list q)
  | tuple {r q : Ref} (hitems : List.Forall₂ rel (h.tuple r) (k.tuple q)) :
      AlikeBy crossed h k rel (.tuple r) (.tuple q)
  | set {r q : Ref} (hmembers : Covers rel (h.set r) (k.set q)) :
      AlikeBy crossed h k rel (.set r) (.set q)
  | dict {r q : Ref}
      (hentries : Covers (fun x y => rel x.1 y.1 ∧ rel x.2 y.2) (h.dict r) (k.dict q)) :
      AlikeBy crossed h k rel (.dict r) (.dict q)

/-- The comparison of two values with containers entered `n` deep. -/
def AlikeWithin (crossed : Bool) (h k : Heap) : Nat → Value → Value → Prop
  | 0, _, _ => False
  | n + 1, a, b => AlikeBy crossed h k (AlikeWithin crossed h k n) a b

namespace AlikeBy

variable {rel rel' : Value → Value → Prop}

theorem scalar_iff (ha : a.isContainer = false) : AlikeBy crossed h k rel a b ↔
    b.isContainer = false ∧ a.face crossed = b.face crossed := by
  refine ⟨fun hab => ?_, fun ⟨hb, hface⟩ => .scalar ha hb hface⟩
  cases hab with
  | scalar _ hb hface => exact ⟨hb, hface⟩
  | _ => cases ha

theorem list_iff {r : Ref} : AlikeBy crossed h k rel (.list r) b ↔
    ∃ q, b = .list q ∧ List.Forall₂ rel (h.list r) (k.list q) := by
  refine ⟨fun hab => ?_, fun ⟨q, hb, hitems⟩ => hb ▸ .list hitems⟩
  cases hab with
  | scalar ha => cases ha
  | list hitems => exact ⟨_, rfl, hitems⟩

theorem tuple_iff {r : Ref} : AlikeBy crossed h k rel (.tuple r) b ↔
    ∃ q, b = .tuple q ∧ List.Forall₂ rel (h.tuple r) (k.tuple q) := by
  refine ⟨fun hab => ?_, fun ⟨q, hb, hitems⟩ => hb ▸ .tuple hitems⟩
  cases hab with
  | scalar ha => cases ha
  | tuple hitems => exact ⟨_, rfl, hitems⟩

theorem set_iff {r : Ref} : AlikeBy crossed h k rel (.set r) b ↔
    ∃ q, b = .set q ∧ Covers rel (h.set r) (k.set q) := by
  refine ⟨fun hab => ?_, fun ⟨q, hb, hmembers⟩ => hb ▸ .set hmembers⟩
  cases hab with
  | scalar ha => cases ha
  | set hmembers => exact ⟨_, rfl, hmembers⟩

theorem dict_iff {r : Ref} : AlikeBy crossed h k rel (.dict r) b ↔
    ∃ q, b = .dict q ∧ Covers (fun x y => rel x.1 y.1 ∧ rel x.2 y.2) (h.dict r) (k.dict q) := by
  refine ⟨fun hab => ?_, fun ⟨q, hb, hentries⟩ => hb ▸ .dict hentries⟩
  cases hab with
  | scalar ha => cases ha
  | dict hentries => exact ⟨_, rfl, hentries⟩

theorem imp (hab : AlikeBy crossed h k rel a b)
    (himp : ∀ x ∈ h.items a, ∀ y ∈ k.items b, rel x y → rel' x y) : AlikeBy crossed h k rel' a b := by
  cases hab with
  | scalar ha hb hface => exact .scalar ha hb hface
  | list hitems => exact .list (forall₂_imp_of_mem hitems himp)
  | tuple hitems => exact .tuple (forall₂_imp_of_mem hitems himp)
  | set hmembers => exact .set (hmembers.imp himp)
  | dict hentries =>
    refine .dict (hentries.imp fun x hx y hy hxy => ?_)
    obtain ⟨hkey, hvalue⟩ := mem_items_dict hx
    obtain ⟨hkey', hvalue'⟩ := mem_items_dict hy
    exact ⟨himp _ hkey _ hkey' hxy.1, himp _ hvalue _ hvalue' hxy.2⟩

/-- What compares without crossing types compares with it. -/
theorem crossing (hab : AlikeBy crossed h k rel a b) : AlikeBy true h k rel a b := by
  cases hab with
  | scalar ha hb hface =>
    refine .scalar ha hb ?_
    cases crossed with
    | true => exact hface
    | false => exact congrArg (Value.face true) hface
  | list hitems => exact .list hitems
  | tuple hitems => exact .tuple hitems
  | set hmembers => exact .set hmembers
  | dict hentries => exact .dict hentries

theorem symm (hab : AlikeBy crossed h k rel a b)
    (hitem : ∀ x ∈ h.items a, ∀ y ∈ k.items b, rel x y → rel' y x)
    (hapart : (h.keys a).Pairwise fun x x' => ∀ y, rel x y → ¬rel x' y) :
    AlikeBy crossed k h rel' b a := by
  cases hab with
  | scalar ha hb hface => exact .scalar hb ha hface.symm
  | list hitems => exact .list (forall₂_imp_of_mem hitems hitem).flip
  | tuple hitems => exact .tuple (forall₂_imp_of_mem hitems hitem).flip
  | set hmembers =>
    have hback := hmembers.symm (hapart.imp fun hdiffer y _ => hdiffer y)
    exact .set (hback.imp fun y hy x hx hxy => hitem x hx y hy hxy)
  | dict hentries =>
    have hdiffer := List.pairwise_map.mp hapart
    have hback := hentries.symm (hdiffer.imp fun hdiffer y _ hxy hxy' => hdiffer y.1 hxy.1 hxy'.1)
    refine .dict (hback.imp fun y hy x hx hxy => ?_)
    obtain ⟨hkey, hvalue⟩ := mem_items_dict hx
    obtain ⟨hkey', hvalue'⟩ := mem_items_dict hy
    exact ⟨hitem _ hkey _ hkey' hxy.1, hitem _ hvalue _ hvalue' hxy.2⟩

theorem trans {rel'' : Value → Value → Prop} (hab : AlikeBy crossed h k rel a b)
    (hbc : AlikeBy crossed k l rel' b c) (htrans : ∀ x y z, rel x y → rel' y z → rel'' x z) :
    AlikeBy crossed h l rel'' a c := by
  cases hab with
  | scalar ha hb hface =>
    cases hbc with
    | scalar _ hc hface' => exact .scalar ha hc (hface.trans hface')
    | _ => cases hb
  | list hitems =>
    cases hbc with
    | list hitems' => exact .list (forall₂_trans htrans hitems hitems')
    | scalar hb => cases hb
  | tuple hitems =>
    cases hbc with
    | tuple hitems' => exact .tuple (forall₂_trans htrans hitems hitems')
    | scalar hb => cases hb
  | set hmembers =>
    cases hbc with
    | set hmembers' => exact .set (hmembers.trans htrans hmembers')
    | scalar hb => cases hb
  | dict hentries =>
    cases hbc with
    | dict hentries' =>
      exact .dict (hentries.trans
        (fun x y z hxy hyz => ⟨htrans _ _ _ hxy.1 hyz.1, htrans _ _ _ hxy.2 hyz.2⟩) hentries')
    | scalar hb => cases hb

end AlikeBy

namespace AlikeWithin

theorem crossing (hab : AlikeWithin crossed h k n a b) : AlikeWithin true h k n a b := by
  induction n generalizing a b with
  | zero => exact hab
  | succ n ih => exact (AlikeBy.crossing hab).imp fun x _ y _ => ih

theorem refl (hv : h.EndsWithin n v) : AlikeWithin crossed h h n v v := by
  induction n generalizing v with
  | zero => exact hv.elim
  | succ n ih =>
    have hitem : ∀ x ∈ h.items v, AlikeWithin crossed h h n x x := fun x hx => ih (hv x hx)
    cases v with
    | list r => exact .list (List.forall₂_same.mpr hitem)
    | tuple r => exact .tuple (List.forall₂_same.mpr hitem)
    | set r => exact .set ⟨rfl, fun x hx => ⟨x, hx, hitem x hx⟩⟩
    | dict r =>
      refine .dict ⟨rfl, fun entry hentry => ⟨entry, hentry, ?_⟩⟩
      obtain ⟨hkey, hvalue⟩ := mem_items_dict hentry
      exact ⟨hitem _ hkey, hitem _ hvalue⟩
    | _ => exact .scalar rfl rfl rfl

theorem trans (hab : AlikeWithin crossed h k n a b) (hbc : AlikeWithin crossed k l n b c) :
    AlikeWithin crossed h l n a c := by
  induction n generalizing a b c with
  | zero => exact hab
  | succ n ih => exact AlikeBy.trans hab hbc fun _ _ _ => ih

end AlikeWithin

/-! ## Sameness and equality go down values -/

theorem sameWithin_succ_iff (ha : a.isComparable = true) :
    sameWithin h k (n + 1) a b = true ↔
      AlikeBy false h k (fun x y => sameWithin h k n x y = true) a b := by
  cases a with
  | float _ | function _ | method _ _ | exception _ => cases ha
  | list r =>
    rw [AlikeBy.list_iff]
    cases b <;> simp [sameWithin, pairwise_iff_forall₂]
  | tuple r =>
    rw [AlikeBy.tuple_iff]
    cases b <;> simp [sameWithin, pairwise_iff_forall₂]
  | set r =>
    rw [AlikeBy.set_iff]
    cases b <;> simp [sameWithin, covered_iff]
  | dict r =>
    rw [AlikeBy.dict_iff]
    cases b <;> simp [sameWithin, covered_iff]
  | _ =>
    rw [AlikeBy.scalar_iff rfl]
    cases b <;> simp [sameWithin, Value.face, Value.isContainer, and_assoc]

/-- Two lists at one place are equal without a look at their items, which makes no difference if these
are equal to themselves. -/
theorem equalWithin_succ_iff (ha : a.isComparable = true) (hb : b.isComparable = true)
    (hself : ∀ x ∈ h.items a, h.equalWithin n x x = true) :
    h.equalWithin (n + 1) a b = true ↔
      AlikeBy true h h (fun x y => h.equalWithin n x y = true) a b := by
  cases a with
  | float _ | function _ | method _ _ | exception _ => cases ha
  | list r =>
    have hplace : ∀ q, r = q →
        List.Forall₂ (fun x y => h.equalWithin n x y = true) (h.list r) (h.list q) := by
      rintro q rfl
      exact List.forall₂_same.mpr hself
    rw [AlikeBy.list_iff]
    cases b with
    | list q => simpa [equalWithin, pairwise_iff_forall₂] using hplace q
    | _ => simp [equalWithin, equalNumbers, Value.number?]
  | tuple r =>
    rw [AlikeBy.tuple_iff]
    cases b <;> simp [equalWithin, pairwise_iff_forall₂, equalNumbers, Value.number?]
  | set r =>
    rw [AlikeBy.set_iff]
    cases b <;> simp [equalWithin, covered_iff, equalNumbers, Value.number?]
  | dict r =>
    rw [AlikeBy.dict_iff]
    cases b <;> simp [equalWithin, covered_iff, equalNumbers, Value.number?]
  | _ =>
    rw [AlikeBy.scalar_iff rfl]
    cases b with
    | float _ | function _ | method _ _ | exception _ => cases hb
    | _ =>
      simp [equalWithin, equalNumbers, Value.number?, Number.equal, Value.face, Value.isContainer,
        and_assoc]

theorem sameWithin_iff (ha : h.Comparable a) :
    sameWithin h k n a b = true ↔ AlikeWithin false h k n a b := by
  induction n generalizing a b with
  | zero => exact iff_of_false nofun id
  | succ n ih =>
    rw [sameWithin_succ_iff (ha.kinds a .refl)]
    constructor
    · exact fun hab => hab.imp fun x hx y _ => (ih (ha.item hx)).mp
    · exact fun hab => AlikeBy.imp hab fun x hx y _ => (ih (ha.item hx)).mpr

theorem equalWithin_iff (ha : h.Comparable a) (hb : h.Comparable b) (hn : h.EndsWithin n a) :
    h.equalWithin n a b = true ↔ AlikeWithin true h h n a b := by
  induction n generalizing a b with
  | zero => exact hn.elim
  | succ n ih =>
    have hitem : ∀ x ∈ h.items a, ∀ y, h.Comparable y →
        (h.equalWithin n x y = true ↔ AlikeWithin true h h n x y) :=
      fun x hx y hy => ih (ha.item hx) hy (hn x hx)
    have hself : ∀ x ∈ h.items a, h.equalWithin n x x = true :=
      fun x hx => (hitem x hx x (ha.item hx)).mpr (.refl (hn x hx))
    rw [equalWithin_succ_iff (ha.kinds a .refl) (hb.kinds b .refl) hself]
    constructor
    · exact fun hab => hab.imp fun x hx y hy => (hitem x hx y (hb.item hy)).mp
    · exact fun hab => AlikeBy.imp hab fun x hx y hy => (hitem x hx y (hb.item hy)).mpr

/-- Sameness, under any bound that is large enough for the first value. -/
theorem same_iff (ha : h.Comparable a) (hn : h.EndsWithin n a) :
    same h k a b = true ↔ AlikeWithin false h k n a b := by
  have hdepth := ha.founded.endsWithin_depth
  have hbound : sameWithin h k (max h.depth k.depth) a = sameWithin h k n a := by
    rcases Nat.le_total n (max h.depth k.depth) with hle | hle
    · exact hn.sameWithin_eq hle
    · exact ((hdepth.mono (Nat.le_max_left _ _)).sameWithin_eq hle).symm
  rw [same, hbound, sameWithin_iff ha]

/-- Equality, under any bound that is large enough for the first value. -/
theorem equal_iff (ha : h.Comparable a) (hb : h.Comparable b) (hn : h.EndsWithin n a) :
    h.equal a b = true ↔ AlikeWithin true h h n a b := by
  have hbound : h.equalWithin h.depth a = h.equalWithin n a := by
    rcases Nat.le_total n h.depth with hle | hle
    · exact hn.equalWithin_eq hle
    · exact (ha.founded.endsWithin_depth.equalWithin_eq hle).symm
  rw [equal, hbound, equalWithin_iff ha hb hn]

/-- Two members of a set that are related to one thing are related to each other, hence equal; so by
induction on the depth no two members of a set are related to one thing. -/
theorem AlikeWithin.symm (ha : h.Comparable a) (hn : h.EndsWithin n a)
    (hab : AlikeWithin crossed h k n a b) : AlikeWithin crossed k h n b a := by
  induction n generalizing a b with
  | zero => exact hn.elim
  | succ n ih =>
    have hitem : ∀ x ∈ h.items a, ∀ y, AlikeWithin crossed h k n x y → AlikeWithin crossed k h n y x :=
      fun x hx y => ih (ha.item hx) (hn x hx)
    refine AlikeBy.symm hab (fun x hx y _ => hitem x hx y) ?_
    refine (ha.distinct a .refl).imp_of_mem fun {x x'} hx hx' hdiffer y hxy hxy' => ?_
    have hx := h.keys_subset a hx
    have hx' := h.keys_subset a hx'
    have hrelated : AlikeWithin crossed h h n x x' := hxy.trans (hitem x' hx' y hxy')
    have hequal := (equal_iff (ha.item hx) (ha.item hx') (hn x hx)).mpr hrelated.crossing
    rw [hdiffer] at hequal
    cases hequal

/-! ## The laws -/

namespace Comparable

theorem same_self (ha : h.Comparable a) : same h h a a = true :=
  (same_iff ha ha.founded.endsWithin_depth).mpr (.refl ha.founded.endsWithin_depth)

/-- Two values end within a common bound. -/
theorem endsWithin_max (ha : h.Comparable a) (hb : k.Comparable b) :
    h.EndsWithin (max h.depth k.depth) a ∧ k.EndsWithin (max h.depth k.depth) b :=
  ⟨ha.founded.endsWithin_depth.mono (Nat.le_max_left _ _),
    hb.founded.endsWithin_depth.mono (Nat.le_max_right _ _)⟩

theorem same_symm (ha : h.Comparable a) (hb : k.Comparable b) (hab : same h k a b = true) :
    same k h b a = true := by
  obtain ⟨hna, hnb⟩ := ha.endsWithin_max hb
  exact (same_iff hb hnb).mpr (((same_iff ha hna).mp hab).symm ha hna)

theorem same_trans (ha : h.Comparable a) (hb : k.Comparable b) (hab : same h k a b = true)
    (hbc : same k l b c = true) : same h l a c = true := by
  obtain ⟨hna, hnb⟩ := ha.endsWithin_max hb
  exact (same_iff ha hna).mpr (((same_iff ha hna).mp hab).trans ((same_iff hb hnb).mp hbc))

theorem equal_self (ha : h.Comparable a) : h.equal a a = true :=
  (equal_iff ha ha ha.founded.endsWithin_depth).mpr (.refl ha.founded.endsWithin_depth)

theorem equal_symm (ha : h.Comparable a) (hb : h.Comparable b) (hab : h.equal a b = true) :
    h.equal b a = true := by
  have hna := ha.founded.endsWithin_depth
  exact (equal_iff hb ha hb.founded.endsWithin_depth).mpr (((equal_iff ha hb hna).mp hab).symm ha hna)

theorem equal_trans (ha : h.Comparable a) (hb : h.Comparable b) (hc : h.Comparable c)
    (hab : h.equal a b = true) (hbc : h.equal b c = true) : h.equal a c = true := by
  have hna := ha.founded.endsWithin_depth
  have hnb := hb.founded.endsWithin_depth
  exact (equal_iff ha hc hna).mpr
    (((equal_iff ha hb hna).mp hab).trans ((equal_iff hb hc hnb).mp hbc))

theorem equal_of_same (ha : h.Comparable a) (hb : h.Comparable b) (hab : same h h a b = true) :
    h.equal a b = true := by
  have hna := ha.founded.endsWithin_depth
  exact (equal_iff ha hb hna).mpr ((same_iff ha hna).mp hab).crossing

end Comparable

end Heap

open Heap

/-- Of comparable values, which may stand in different heaps, sameness is an equivalence; of those in
one heap, equality is one as well, and values that are the same are equal. -/
theorem same_finer_equal :
    Equivalence (fun p q : {p : Heap × Value // p.1.Comparable p.2} =>
      same p.1.1 q.1.1 p.1.2 q.1.2 = true) ∧
    ∀ h : Heap, Equivalence (fun a b : {v : Value // h.Comparable v} => h.equal a b = true) ∧
      ∀ a b : {v : Value // h.Comparable v}, same h h a b = true → h.equal a b = true := by
  refine ⟨⟨?_, ?_, ?_⟩, fun h => ⟨⟨?_, ?_, ?_⟩, ?_⟩⟩
  · exact fun p => p.2.same_self
  · exact fun {p q} hpq => p.2.same_symm q.2 hpq
  · exact fun {p q r} hpq hqr => p.2.same_trans q.2 hpq hqr
  · exact fun a => a.2.equal_self
  · exact fun {a b} hab => a.2.equal_symm b.2 hab
  · exact fun {a b c} hab hbc => a.2.equal_trans b.2 c.2 hab hbc
  · exact fun a b hab => a.2.equal_of_same b.2 hab

/-- A set of `True` and a text is the same in either order of its members, hence equal; to the set with 1
in place of `True` it is equal as well, but not the same. -/
theorem same_finer_equal_sets :
    let h : Heap := { sets := #[[.bool true, .str "a"], [.str "a", .bool true], [.str "a", .int 1]] }
    same h h (.set 0) (.set 1) = true ∧ same h h (.set 1) (.set 0) = true ∧
      h.equal (.set 0) (.set 1) = true ∧ h.equal (.set 0) (.set 2) = true ∧
      h.equal (.set 2) (.set 0) = true ∧ same h h (.set 0) (.set 2) = false := by
  intro h
  have hmember : ∀ w ∈ [Value.bool true, .str "a", .int 1], h.Comparable w := by
    simp only [List.forall_mem_cons]
    exact ⟨.scalar rfl rfl, .scalar rfl rfl, .scalar rfl rfl, nofun⟩
  have hset (r : Ref) (hkeys : (h.set r).Pairwise fun a b => h.equal a b = false)
      (hscalars : h.set r ⊆ [.bool true, .str "a", .int 1]) : h.Comparable (.set r) :=
    .intro rfl hkeys fun w hw => hmember w (hscalars hw)
  let a : {v : Value // h.Comparable v} := ⟨.set 0, hset 0 (by decide +kernel) (by simp [h, Heap.set])⟩
  let b : {v : Value // h.Comparable v} := ⟨.set 1, hset 1 (by decide +kernel) (by simp [h, Heap.set])⟩
  let c : {v : Value // h.Comparable v} := ⟨.set 2, hset 2 (by decide +kernel) (by simp [h, Heap.set])⟩
  obtain ⟨hsame, hheap⟩ := same_finer_equal
  obtain ⟨hequal, hfiner⟩ := hheap h
  have hab : same h h (.set 0) (.set 1) = true := by decide +kernel
  have hba : same h h (.set 1) (.set 0) = true :=
    @Equivalence.symm _ _ hsame ⟨(h, a.1), a.2⟩ ⟨(h, b.1), b.2⟩ hab
  have hbc : h.equal (.set 1) (.set 2) = true := by decide +kernel
  have hac : h.equal a.1 c.1 = true := @Equivalence.trans _ _ hequal a b c (hfiner a b hab) hbc
  exact ⟨hab, hba, hfiner a b hab, hac, hequal.symm hac, by decide +kernel⟩

end Concord.Machine
