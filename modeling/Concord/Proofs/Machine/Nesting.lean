import Concord.Machine.Compare
import Concord.Machine.Text
import Mathlib.Data.Finset.Image
import Mathlib.Data.Finset.Card
import Mathlib.Logic.Relation

/-!
# How deep values are nested

Printing and comparing go down into containers, and a program can build a container that holds
itself: a list that was appended to itself, or two lists in each other. From a value in which there
is no such container every way down ends (`Founded`), and then no way is longer than there are
containers, because none is met twice on it. So the bound under which containers are entered is
never felt: any larger one gives the same text and the same answers.

Where there is such a container, the bound is felt whatever it is, and the text grows with it.

Main statements:

* `Founded.endsWithin`: no way down is longer than there are containers.
* `EndsWithin.reprWithin_eq`, `EndsWithin.sameWithin_eq` and their likes: a bound that is large enough
  might as well be larger.
* `reprWithin_settles_iff`: printing comes to an end exactly for the founded values.
* `same_self_iff`: a founded value is the same as itself unless there is a function or a method in it.
-/

namespace Concord.Machine

namespace Heap

open Relation

variable (h : Heap)

/-! ## Ways down -/

/-- The values that stand directly in a value. -/
def items : Value → List Value
  | .list r => h.list r
  | .tuple r => h.tuple r
  | .set r => h.set r
  | .dict r => (h.dict r).flatMap fun entry => [entry.1, entry.2]
  | _ => []

/-- One value stands directly in another one. -/
def StandsIn (w v : Value) : Prop := w ∈ h.items v

/-- One value is, or stands somewhere in, another one. -/
def Below (w v : Value) : Prop := ReflTransGen h.StandsIn w v

/-- Every way down from a value ends. -/
def Founded (v : Value) : Prop := Acc h.StandsIn v

/-- Every way down from a value ends after at most so many values. -/
def EndsWithin : Nat → Value → Prop
  | 0, _ => False
  | n + 1, v => ∀ w ∈ h.items v, EndsWithin n w

variable {h} {v w : Value}

theorem EndsWithin.mono {n m : Nat} (hv : h.EndsWithin n v) (hnm : n ≤ m) : h.EndsWithin m v := by
  induction n generalizing m v with
  | zero => exact hv.elim
  | succ n ih =>
    obtain ⟨m, rfl⟩ := Nat.exists_eq_add_of_le' (Nat.le_trans (Nat.le_add_left 1 n) hnm)
    exact fun w hw => ih (hv w hw) (Nat.le_of_succ_le_succ hnm)

instance decidableEndsWithin (h : Heap) : (n : Nat) → (v : Value) → Decidable (h.EndsWithin n v)
  | 0, _ => isFalse id
  | n + 1, v =>
    have : DecidablePred (h.EndsWithin n) := decidableEndsWithin h n
    inferInstanceAs (Decidable (∀ w ∈ h.items v, h.EndsWithin n w))

theorem EndsWithin.founded {n : Nat} (hv : h.EndsWithin n v) : h.Founded v := by
  induction n generalizing v with
  | zero => exact hv.elim
  | succ n ih => exact Acc.intro v fun w hw => ih (hv w hw)

/-- No value stands somewhere in itself, if every way down from it ends. -/
theorem Founded.irrefl (hv : h.Founded v) : ¬TransGen h.StandsIn v v := by
  have hacc : Acc (TransGen h.StandsIn) v := Acc.transGen hv
  clear hv
  induction hacc with
  | intro v _ ih => exact fun hself => ih v hself hself

/-- A list stands directly in itself. -/
def holdsItself (h : Heap) (v : Value) : Bool :=
  match v with
  | .list r => (h.list r).any (identical (.list r))
  | _ => false

theorem not_founded_of_holdsItself (hv : h.holdsItself v = true) : ¬h.Founded v := by
  intro hfounded
  cases v with
  | list r =>
    obtain ⟨w, hw, hsame⟩ := List.any_eq_true.mp hv
    cases w with
    | list q =>
      obtain rfl : r = q := beq_iff_eq.mp hsame
      exact hfounded.irrefl (.single hw)
    | _ => cases hsame
  | _ => cases hv

/-! ## Ways down are bounded by the number of containers -/

open Classical in
/-- The containers of a heap. -/
noncomputable def containerSet (h : Heap) : Finset Value :=
  (Finset.range h.lists.size).image .list ∪ (Finset.range h.tuples.size).image .tuple ∪
    (Finset.range h.sets.size).image .set ∪ (Finset.range h.dicts.size).image .dict

theorem card_containerSet_le (h : Heap) : h.containerSet.card ≤ h.containers := by
  classical
  have himage (n : Nat) (f : Nat → Value) : ((Finset.range n).image f).card ≤ n := by
    simpa using Finset.card_image_le (s := Finset.range n) (f := f)
  unfold containerSet containers
  refine (Finset.card_union_le _ _).trans (Nat.add_le_add ?_ (himage _ _))
  refine (Finset.card_union_le _ _).trans (Nat.add_le_add ?_ (himage _ _))
  exact (Finset.card_union_le _ _).trans (Nat.add_le_add (himage _ _) (himage _ _))

/-- A place that a store does not have counts as empty. -/
theorem lt_size_of_getD_ne_nil {α : Type} {store : Array (List α)} {r : Ref}
    (hne : store[r]?.getD [] ≠ []) : r < store.size := by
  by_contra hr
  rw [Array.getElem?_eq_none (Nat.le_of_not_lt hr)] at hne
  exact hne rfl

/-- A value in which something stands is one of the containers. -/
theorem mem_containerSet (hne : h.items v ≠ []) : v ∈ h.containerSet := by
  classical
  simp only [containerSet, Finset.mem_union, Finset.mem_image, Finset.mem_range]
  cases v with
  | list r => exact .inl (.inl (.inl ⟨r, lt_size_of_getD_ne_nil hne, rfl⟩))
  | tuple r => exact .inl (.inl (.inr ⟨r, lt_size_of_getD_ne_nil hne, rfl⟩))
  | set r => exact .inl (.inr ⟨r, lt_size_of_getD_ne_nil hne, rfl⟩)
  | dict r =>
    have hentries : h.dict r ≠ [] := by
      intro hnil
      apply hne
      show (h.dict r).flatMap _ = []
      rw [hnil]
      rfl
    exact .inr ⟨r, lt_size_of_getD_ne_nil hentries, rfl⟩
  | _ => exact absurd rfl hne

/-- A way down does not meet a container twice, so it is no longer than there are containers that can
be met at all. -/
theorem Founded.endsWithin_card (hv : h.Founded v) (s : Finset Value)
    (hs : ∀ w, h.Below w v → h.items w ≠ [] → w ∈ s) : h.EndsWithin (s.card + 1) v := by
  classical
  induction hv generalizing s with
  | intro v hacc ih =>
    by_cases hempty : h.items v = []
    · intro w hw
      rw [hempty] at hw
      cases hw
    · have hmem : v ∈ s := hs v .refl hempty
      intro w hw
      -- below `w` the container `v` is not met again
      have hrest : ∀ u, h.Below u w → h.items u ≠ [] → u ∈ s.erase v := by
        intro u hu hne
        refine Finset.mem_erase.mpr ⟨?_, hs u (hu.tail hw) hne⟩
        rintro rfl
        exact Founded.irrefl (Acc.intro u hacc) (TransGen.tail' hu hw)
      have hshort := ih w hw (s.erase v) hrest
      rw [Finset.card_erase_of_mem hmem, Nat.sub_add_cancel (Finset.card_pos.mpr ⟨v, hmem⟩)] at hshort
      exact hshort

/-- From a founded value every way down ends, and none is longer than there are containers. -/
theorem Founded.endsWithin (hv : h.Founded v) : h.EndsWithin (h.containers + 1) v :=
  (hv.endsWithin_card h.containerSet fun _ _ hne => mem_containerSet hne).mono
    (Nat.succ_le_succ h.card_containerSet_le)

theorem containers_lt_depth (h : Heap) : h.containers < h.depth := by
  have hle : h.containers ≤ h.containers * (h.containers + 1) := Nat.le_mul_of_pos_right _ (Nat.succ_pos _)
  unfold depth
  omega

theorem depth_mono {g : Heap} (hle : g.containers ≤ h.containers) : g.depth ≤ h.depth :=
  Nat.add_le_add_left (Nat.mul_le_mul hle (Nat.succ_le_succ hle)) _

theorem Founded.endsWithin_depth (hv : h.Founded v) : h.EndsWithin h.depth v :=
  hv.endsWithin.mono h.containers_lt_depth

/-! ## Walks under a bound that is large enough -/

/-- What a walk finds in a value depends on the bound only through what it finds in the values that
stand directly in it; then a bound that is large enough might as well be larger. -/
theorem EndsWithin.walk_eq {β : Type} {f : Nat → Value → β}
    (hstep : ∀ m n v, (∀ w ∈ h.items v, f m w = f n w) → f (m + 1) v = f (n + 1) v)
    {n m : Nat} (hv : h.EndsWithin n v) (hnm : n ≤ m) : f m v = f n v := by
  induction n generalizing m v with
  | zero => exact hv.elim
  | succ n ih =>
    obtain ⟨m, rfl⟩ := Nat.exists_eq_add_of_le' (Nat.le_trans (Nat.le_add_left 1 n) hnm)
    exact hstep m n v fun w hw => ih (hv w hw) (Nat.le_of_succ_le_succ hnm)

theorem pairwise_congr {α : Type} {rel rel' : α → α → Bool} {a b : List α}
    (hrel : ∀ x ∈ a, ∀ y, rel x y = rel' x y) : pairwise rel a b = pairwise rel' a b := by
  unfold pairwise
  congr 1
  rw [Bool.eq_iff_iff, List.all_eq_true, List.all_eq_true]
  refine forall₂_congr fun p hp => ?_
  obtain ⟨x, y⟩ := p
  show rel x y = true ↔ rel' x y = true
  rw [hrel x (List.of_mem_zip hp).1 y]

theorem covered_congr {α : Type} {rel rel' : α → α → Bool} {a b : List α}
    (hrel : ∀ x ∈ a, ∀ y, rel x y = rel' x y) : covered rel a b = covered rel' a b := by
  unfold covered
  congr 1
  rw [Bool.eq_iff_iff, List.all_eq_true, List.all_eq_true]
  refine forall₂_congr fun x hx => ?_
  rw [funext (hrel x hx)]

/-- The two sides of an entry stand in the dictionary. -/
theorem mem_items_dict {r : Ref} {entry : Value × Value} (hentry : entry ∈ h.dict r) :
    entry.1 ∈ h.items (.dict r) ∧ entry.2 ∈ h.items (.dict r) := by
  constructor <;> exact List.mem_flatMap.mpr ⟨entry, hentry, by simp⟩

/-- Two relations that agree on the sides of entries agree on the entries. -/
theorem entries_congr {rel rel' : Value → Value → Bool} {r : Ref}
    (hrel : ∀ x ∈ h.items (.dict r), ∀ y, rel x y = rel' x y) :
    ∀ x ∈ h.dict r, ∀ y : Value × Value,
      (rel x.1 y.1 && rel x.2 y.2) = (rel' x.1 y.1 && rel' x.2 y.2) := by
  intro x hx y
  rw [hrel _ (mem_items_dict hx).1, hrel _ (mem_items_dict hx).2]

theorem reprWithin_list (n : Nat) (r : Ref) : h.reprWithin (n + 1) (.list r) =
    "[" ++ ", ".intercalate ((h.list r).map (h.reprWithin n)) ++ "]" := rfl

theorem reprWithin_tuple (n : Nat) (r : Ref) : h.reprWithin (n + 1) (.tuple r) =
    match h.tuple r with
    | [item] => "(" ++ h.reprWithin n item ++ ",)"
    | items => "(" ++ ", ".intercalate (items.map (h.reprWithin n)) ++ ")" := rfl

theorem reprWithin_set (n : Nat) (r : Ref) : h.reprWithin (n + 1) (.set r) =
    match h.set r with
    | [] => "set()"
    | items => "\x7b" ++ ", ".intercalate (items.map (h.reprWithin n)) ++ "\x7d" := rfl

theorem reprWithin_dict (n : Nat) (r : Ref) : h.reprWithin (n + 1) (.dict r) =
    "\x7b" ++ ", ".intercalate
      ((h.dict r).map fun e => h.reprWithin n e.1 ++ ": " ++ h.reprWithin n e.2) ++ "\x7d" := rfl

theorem reprWithin_congr {m n : Nat} {v : Value}
    (hitems : ∀ w ∈ h.items v, h.reprWithin m w = h.reprWithin n w) :
    h.reprWithin (m + 1) v = h.reprWithin (n + 1) v := by
  cases v with
  | list r =>
    have hmap : (h.list r).map (h.reprWithin m) = (h.list r).map (h.reprWithin n) :=
      List.map_congr_left hitems
    rw [reprWithin_list, reprWithin_list, hmap]
  | tuple r =>
    have hmap : (h.tuple r).map (h.reprWithin m) = (h.tuple r).map (h.reprWithin n) :=
      List.map_congr_left hitems
    rw [reprWithin_tuple, reprWithin_tuple]
    split
    · rename_i item hone
      rw [hone, List.map_singleton, List.map_singleton, List.singleton_inj] at hmap
      rw [hmap]
    · rw [hmap]
  | set r =>
    have hmap : (h.set r).map (h.reprWithin m) = (h.set r).map (h.reprWithin n) :=
      List.map_congr_left hitems
    rw [reprWithin_set, reprWithin_set]
    split
    · rfl
    · rw [hmap]
  | dict r =>
    have hmap : (h.dict r).map (fun e => h.reprWithin m e.1 ++ ": " ++ h.reprWithin m e.2) =
        (h.dict r).map (fun e => h.reprWithin n e.1 ++ ": " ++ h.reprWithin n e.2) := by
      refine List.map_congr_left fun e he => ?_
      obtain ⟨hkey, hvalue⟩ := mem_items_dict he
      rw [hitems _ hkey, hitems _ hvalue]
    rw [reprWithin_dict, reprWithin_dict, hmap]
  | _ => rfl

theorem EndsWithin.reprWithin_eq {n m : Nat} (hv : h.EndsWithin n v) (hnm : n ≤ m) :
    h.reprWithin m v = h.reprWithin n v :=
  EndsWithin.walk_eq (f := h.reprWithin) (fun _ _ _ => reprWithin_congr) hv hnm

theorem equalWithin_congr {m n : Nat} {v : Value}
    (hitems : ∀ x ∈ h.items v, h.equalWithin m x = h.equalWithin n x) :
    h.equalWithin (m + 1) v = h.equalWithin (n + 1) v := by
  have hrel : ∀ x ∈ h.items v, ∀ y, h.equalWithin m x y = h.equalWithin n x y :=
    fun x hx y => congrFun (hitems x hx) y
  funext w
  cases v with
  | list r => cases w <;> simp only [equalWithin, pairwise_congr (a := h.list r) hrel]
  | tuple r => cases w <;> simp only [equalWithin, pairwise_congr (a := h.tuple r) hrel]
  | set r => cases w <;> simp only [equalWithin, covered_congr (a := h.set r) hrel]
  | dict r => cases w <;> simp only [equalWithin, covered_congr (entries_congr hrel)]
  | _ => cases w <;> simp only [equalWithin]

theorem EndsWithin.equalWithin_eq {n m : Nat} (hv : h.EndsWithin n v) (hnm : n ≤ m) :
    h.equalWithin m v = h.equalWithin n v :=
  EndsWithin.walk_eq (f := h.equalWithin) (fun _ _ _ => equalWithin_congr) hv hnm

theorem sameWithin_congr {k : Heap} {m n : Nat} {v : Value}
    (hitems : ∀ x ∈ h.items v, sameWithin h k m x = sameWithin h k n x) :
    sameWithin h k (m + 1) v = sameWithin h k (n + 1) v := by
  have hrel : ∀ x ∈ h.items v, ∀ y, sameWithin h k m x y = sameWithin h k n x y :=
    fun x hx y => congrFun (hitems x hx) y
  funext w
  cases v with
  | list r => cases w <;> simp only [sameWithin, pairwise_congr (a := h.list r) hrel]
  | tuple r => cases w <;> simp only [sameWithin, pairwise_congr (a := h.tuple r) hrel]
  | set r => cases w <;> simp only [sameWithin, covered_congr (a := h.set r) hrel]
  | dict r => cases w <;> simp only [sameWithin, covered_congr (entries_congr hrel)]
  | _ => cases w <;> simp only [sameWithin]

theorem EndsWithin.sameWithin_eq {k : Heap} {n m : Nat} (hv : h.EndsWithin n v) (hnm : n ≤ m) :
    sameWithin h k m v = sameWithin h k n v :=
  EndsWithin.walk_eq (f := sameWithin h k) (fun _ _ _ => sameWithin_congr) hv hnm

theorem orderItems_congr {equal : Value → Value → Bool}
    {order order' : Value → Value → Except Exception Ordering} {a : List Value}
    (horder : ∀ x ∈ a, ∀ y, order x y = order' x y) (b : List Value) :
    orderItems equal order a b = orderItems equal order' a b := by
  induction a generalizing b with
  | nil => cases b <;> rfl
  | cons x xs ih =>
    cases b with
    | nil => rfl
    | cons y ys =>
      rw [orderItems, orderItems, ih (fun z hz => horder z (List.mem_cons_of_mem _ hz)) ys,
        horder x List.mem_cons_self y]

theorem orderWithin_congr {m n : Nat} {v : Value}
    (hitems : ∀ x ∈ h.items v, h.orderWithin m x = h.orderWithin n x) :
    h.orderWithin (m + 1) v = h.orderWithin (n + 1) v := by
  have hrel : ∀ x ∈ h.items v, ∀ y, h.orderWithin m x y = h.orderWithin n x y :=
    fun x hx y => congrFun (hitems x hx) y
  funext w
  cases v with
  | list r => cases w <;> simp only [orderWithin, orderItems_congr (a := h.list r) hrel]
  | tuple r => cases w <;> simp only [orderWithin, orderItems_congr (a := h.tuple r) hrel]
  | _ => cases w <;> simp only [orderWithin]

theorem EndsWithin.orderWithin_eq {n m : Nat} (hv : h.EndsWithin n v) (hnm : n ≤ m) :
    h.orderWithin m v = h.orderWithin n v :=
  EndsWithin.walk_eq (f := h.orderWithin) (fun _ _ _ => orderWithin_congr) hv hnm

theorem hashableWithin_congr {m n : Nat} {v : Value}
    (hitems : ∀ x ∈ h.items v, h.hashableWithin m x = h.hashableWithin n x) :
    h.hashableWithin (m + 1) v = h.hashableWithin (n + 1) v := by
  cases v with
  | tuple r =>
    simp only [hashableWithin]
    rw [Bool.eq_iff_iff, List.all_eq_true, List.all_eq_true]
    exact forall₂_congr fun x hx => by rw [hitems x hx]
  | _ => simp only [hashableWithin]

theorem EndsWithin.hashableWithin_eq {n m : Nat} (hv : h.EndsWithin n v) (hnm : n ≤ m) :
    h.hashableWithin m v = h.hashableWithin n v :=
  EndsWithin.walk_eq (f := h.hashableWithin) (fun _ _ _ => hashableWithin_congr) hv hnm

/-! ## Walks that come to no end -/

/-- Something that stands in a value lies further down when every way down from it has to end. -/
theorem exists_not_founded (hv : ¬h.Founded v) : ∃ w ∈ h.items v, ¬h.Founded w := by
  by_contra hall
  push Not at hall
  exact hv (Acc.intro v hall)

theorem length_le_intercalate {sep x : String} {xs : List String} (hx : x ∈ xs) :
    x.length ≤ (sep.intercalate xs).length := by
  induction xs with
  | nil => cases hx
  | cons y ys ih =>
    cases ys with
    | nil =>
      obtain rfl := List.mem_singleton.mp hx
      rw [String.intercalate_singleton]
    | cons z zs =>
      rw [String.intercalate_cons_cons, String.length_append, String.length_append]
      rcases List.mem_cons.mp hx with rfl | hx
      · omega
      · have := ih hx
        omega

theorem length_between (left text right : String) :
    (left ++ text ++ right).length = left.length + text.length + right.length := by
  rw [String.length_append, String.length_append]

/-- The text of a container is longer than that of what stands in it. -/
theorem length_reprWithin_lt {n : Nat} (hw : w ∈ h.items v) :
    (h.reprWithin n w).length + 2 ≤ (h.reprWithin (n + 1) v).length := by
  have hjoined {items : List Value} (hmem : w ∈ items) :
      (h.reprWithin n w).length ≤ (", ".intercalate (items.map (h.reprWithin n))).length :=
    length_le_intercalate (List.mem_map_of_mem hmem)
  have hbrackets : "[".length = 1 ∧ "]".length = 1 ∧ "(".length = 1 ∧ ")".length = 1 ∧
      ",)".length = 2 ∧ "\x7b".length = 1 ∧ "\x7d".length = 1 := by decide
  cases v with
  | list r =>
    have hmem : w ∈ h.list r := hw
    have hshown := hjoined hmem
    rw [reprWithin_list, length_between]
    omega
  | tuple r =>
    have hmem : w ∈ h.tuple r := hw
    rw [reprWithin_tuple]
    split
    · rename_i item hone
      rw [hone, List.mem_singleton] at hmem
      rw [length_between, hmem]
      omega
    · have hshown := hjoined hmem
      rw [length_between]
      omega
  | set r =>
    have hmem : w ∈ h.set r := hw
    rw [reprWithin_set]
    split
    · rename_i hnil
      rw [hnil] at hmem
      cases hmem
    · have hshown := hjoined hmem
      rw [length_between]
      omega
  | dict r =>
    obtain ⟨entry, hentry, hside⟩ := List.mem_flatMap.mp hw
    have hshown : (h.reprWithin n entry.1 ++ ": " ++ h.reprWithin n entry.2).length ≤
        (", ".intercalate ((h.dict r).map fun e =>
          h.reprWithin n e.1 ++ ": " ++ h.reprWithin n e.2)).length :=
      length_le_intercalate (List.mem_map.mpr ⟨entry, hentry, rfl⟩)
    rw [length_between] at hshown
    rw [reprWithin_dict, length_between]
    simp only [List.mem_cons, List.not_mem_nil, or_false] at hside
    rcases hside with rfl | rfl <;> omega
  | _ => cases hw

/-- With every level there is more to print. -/
theorem two_mul_le_length_reprWithin (hv : ¬h.Founded v) (n : Nat) :
    2 * n ≤ (h.reprWithin n v).length := by
  induction n generalizing v with
  | zero => omega
  | succ n ih =>
    obtain ⟨w, hw, hfounded⟩ := exists_not_founded hv
    have hdeeper := ih hfounded
    have hlonger := length_reprWithin_lt (n := n) hw
    omega

/-- Printing a value comes to an end, under some bound, exactly if every way down from it ends. -/
theorem reprWithin_settles_iff :
    (∃ n, ∀ m, n ≤ m → h.reprWithin m v = h.reprWithin n v) ↔ h.Founded v := by
  constructor
  · rintro ⟨n, hn⟩
    by_contra hv
    have hlong := two_mul_le_length_reprWithin hv (n + (h.reprWithin n v).length + 1)
    have hsame := hn (n + (h.reprWithin n v).length + 1) (by omega)
    rw [hsame] at hlong
    omega
  · intro hv
    exact ⟨_, fun m hm => hv.endsWithin.reprWithin_eq hm⟩

/-! ## Sameness of a value with itself -/

end Heap

/-- The value is neither a function of the program nor a method. -/
def Value.isData : Value → Bool
  | .function _ | .method _ _ => false
  | _ => true

namespace Heap

variable {h k : Heap} {v w : Value}

theorem exists_of_pairwise {α : Type} {rel : α → α → Bool} {a b : List α}
    (hrel : pairwise rel a b = true) {x : α} (hx : x ∈ a) : ∃ y, rel x y = true := by
  unfold pairwise at hrel
  rw [Bool.and_eq_true, beq_iff_eq, List.all_eq_true] at hrel
  obtain ⟨i, hi, rfl⟩ := List.mem_iff_getElem.mp hx
  have hib : i < b.length := hrel.1 ▸ hi
  have hpair : (a[i], b[i]) ∈ a.zip b := by
    rw [← List.getElem_zip (h := by simp [hi, hib])]
    exact List.getElem_mem _
  exact ⟨b[i], hrel.2 _ hpair⟩

theorem exists_of_covered {α : Type} {rel : α → α → Bool} {a b : List α}
    (hrel : covered rel a b = true) {x : α} (hx : x ∈ a) : ∃ y, rel x y = true := by
  unfold covered at hrel
  rw [Bool.and_eq_true, List.all_eq_true] at hrel
  obtain ⟨y, -, hy⟩ := List.any_eq_true.mp (hrel.2 x hx)
  exact ⟨y, hy⟩

/-- What stands in a value that is the same as another one is itself the same as something. -/
theorem exists_same_item {n : Nat} (hsame : sameWithin h k (n + 1) v w = true) {x : Value}
    (hx : x ∈ h.items v) : ∃ y, sameWithin h k n x y = true := by
  cases v with
  | list r =>
    cases w with
    | list q => exact exists_of_pairwise (a := h.list r) hsame hx
    | _ => cases hsame
  | tuple r =>
    cases w with
    | tuple q => exact exists_of_pairwise (a := h.tuple r) hsame hx
    | _ => cases hsame
  | set r =>
    cases w with
    | set q => exact exists_of_covered (a := h.set r) hsame hx
    | _ => cases hsame
  | dict r =>
    cases w with
    | dict q =>
      obtain ⟨entry, hentry, hside⟩ := List.mem_flatMap.mp hx
      obtain ⟨other, hother⟩ := exists_of_covered (a := h.dict r) hsame hentry
      rw [Bool.and_eq_true] at hother
      simp only [List.mem_cons, List.not_mem_nil, or_false] at hside
      rcases hside with rfl | rfl
      · exact ⟨_, hother.1⟩
      · exact ⟨_, hother.2⟩
    | _ => cases hsame
  | _ => cases hx

theorem isData_of_sameWithin {n : Nat} (hsame : sameWithin h k (n + 1) v w = true) :
    v.isData = true := by
  cases v with
  | function r => cases w <;> cases hsame
  | method receiver name => cases w <;> cases hsame
  | _ => rfl

/-- Where there is a function or a method, nothing is the same. -/
theorem isData_below_of_sameWithin {n : Nat} (hsame : sameWithin h k n v w = true) {u : Value}
    (hu : h.Below u v) : u.isData = true := by
  induction n generalizing v w with
  | zero => cases hsame
  | succ n ih =>
    rcases hu.cases_tail with rfl | ⟨x, hux, hx⟩
    · exact isData_of_sameWithin hsame
    · obtain ⟨y, hy⟩ := exists_same_item hsame hx
      exact ih hy hux

theorem pairwise_self {α : Type} {rel : α → α → Bool} {a : List α}
    (hrel : ∀ x ∈ a, rel x x = true) : pairwise rel a a = true := by
  unfold pairwise
  rw [beq_self_eq_true, Bool.true_and, List.all_eq_true]
  intro p hp
  obtain ⟨i, hi, rfl⟩ := List.mem_iff_getElem.mp hp
  rw [List.getElem_zip]
  exact hrel _ (List.getElem_mem _)

theorem covered_self {α : Type} {rel : α → α → Bool} {a : List α}
    (hrel : ∀ x ∈ a, rel x x = true) : covered rel a a = true := by
  unfold covered
  rw [beq_self_eq_true, Bool.true_and, List.all_eq_true]
  exact fun x hx => List.any_eq_true.mpr ⟨x, hx, hrel x hx⟩

/-- A double equals itself or is not a number. -/
theorem float_same_self (x : Float) : (x == x || (x.isNaN && x.isNaN)) = true := by
  have hunpacked : ∀ u : Float.Model.UnpackedFloat, (u.beq u || u.isNaN) = true := by
    intro u
    cases u with
    | finite sign mantissa exponent =>
      have hself : (compare exponent exponent).then (compare mantissa mantissa) = .eq := by
        rw [show compare exponent exponent = .eq from Std.ReflCmp.compare_self,
          show compare mantissa mantissa = .eq from Std.ReflCmp.compare_self]
        rfl
      cases sign with
      | negative =>
        show (some ((compare exponent exponent).then (compare mantissa mantissa)).swap == some .eq ||
          false) = true
        rw [hself]
        rfl
      | positive =>
        show (some ((compare exponent exponent).then (compare mantissa mantissa)) == some .eq ||
          false) = true
        rw [hself]
        rfl
    | infinity sign => cases sign <;> rfl
    | notANumber => rfl
    | zero sign => rfl
  rw [Bool.and_self]
  exact hunpacked x.toModel.unpack

theorem sameWithin_self {n : Nat} (hv : h.EndsWithin n v)
    (hdata : ∀ u, h.Below u v → u.isData = true) : sameWithin h h n v v = true := by
  induction n generalizing v with
  | zero => exact hv.elim
  | succ n ih =>
    have hitem : ∀ x ∈ h.items v, sameWithin h h n x x = true :=
      fun x hx => ih (hv x hx) fun u hu => hdata u (hu.tail hx)
    cases v with
    | list r => exact pairwise_self (a := h.list r) hitem
    | tuple r => exact pairwise_self (a := h.tuple r) hitem
    | set r => exact covered_self (a := h.set r) hitem
    | dict r =>
      refine covered_self (a := h.dict r) fun entry hentry => ?_
      obtain ⟨hkey, hvalue⟩ := mem_items_dict hentry
      rw [hitem _ hkey, hitem _ hvalue]
      rfl
    | float x => exact float_same_self x
    | function r => exact absurd (hdata _ .refl) (by simp [Value.isData])
    | method receiver name => exact absurd (hdata _ .refl) (by simp [Value.isData])
    | _ => simp [sameWithin]

/-- A founded value is the same as itself exactly if there is no function and no method in it. -/
theorem same_self_iff (hv : h.Founded v) :
    same h h v v = true ↔ ∀ u, h.Below u v → u.isData = true := by
  constructor
  · exact fun hsame u hu => isData_below_of_sameWithin hsame hu
  · exact fun hdata => sameWithin_self (hv.endsWithin_depth.mono (Nat.le_max_left _ _)) hdata

end Heap

end Concord.Machine
