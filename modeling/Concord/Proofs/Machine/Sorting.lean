import Concord.Machine.Native
import Concord.Proofs.Machine.Budget
import Concord.Proofs.Machine.Ranking
import Mathlib.Data.List.Pairwise
import Mathlib.Data.List.Sort

/-!
# Sorting, and the least and the greatest of several items

Where all keys can be ordered, putting items in place one by one is a stable sort: each one goes in behind
the items that it ties with. The search for the least item goes through the items in lockstep with that:
its candidate is, at each moment, the last of the items in falling order, that is, the first one of those
that have the least key. Downwards the same holds with the order turned round.

Main statement: `native_orders`.
-/

namespace Concord.Machine

/-! ## Putting items in place -/

section Placing

variable {α : Type} {below : α → α → Bool} {l seen done : List α} {a x : α}

/-- On the members of a list, `below` compares places in one row; members may share a place. -/
structure Ranks (below : α → α → Bool) (l : List α) : Prop where
  asymm : ∀ x ∈ l, ∀ y ∈ l, below x y = true → below y x = false
  trans : ∀ x ∈ l, ∀ y ∈ l, ∀ z ∈ l, below x y = false → below y z = false → below x z = false

/-- Two items of which neither is below the other. -/
def ties (below : α → α → Bool) (x y : α) : Bool := !below x y && !below y x

/-- An item among items in falling order, behind those that it is below of. -/
def place (below : α → α → Bool) (done : List α) (x : α) : List α :=
  done.orderedInsert (fun x y => below x y = false) x

/-- The first of two items, unless the second is below it. -/
def lesser (below : α → α → Bool) (best x : α) : α := if below x best then x else best

/-- The first of the least items. -/
def least? (below : α → α → Bool) : List α → Option α
  | [] => none
  | x :: xs => some (xs.foldl (lesser below) x)

theorem Ranks.turned (h : Ranks below l) : Ranks (fun x y => below y x) l where
  asymm x hx y hy := h.asymm y hy x hx
  trans x hx y hy z hz hxy hyz := h.trans z hz y hy x hx hyz hxy

theorem least?_append : least? below (l ++ [x]) =
    some ((least? below l).elim x (lesser below · x)) := by
  cases l with
  | nil => rfl
  | cons y ys => exact congrArg some (List.foldl_append ..)

/-- Of the items in `seen`, taken in that order, those in `done` are the ones put in place. -/
structure Placed (below : α → α → Bool) (l seen done : List α) : Prop where
  perm : done.Perm seen
  falling : done.Pairwise fun x y => below x y = false
  stable : ∀ a ∈ l, done.filter (ties below a) = (seen.filter (ties below a)).reverse
  least : done.getLast? = least? below seen

/-- An item goes in before all items that it ties with. -/
theorem filter_place (h : Ranks below l) (ha : a ∈ l) (hx : x ∈ l) (hdone : done ⊆ l) :
    (place below done x).filter (ties below a) = (x :: done).filter (ties below a) := by
  induction done with
  | nil => rfl
  | cons y ys ih =>
    obtain ⟨hy, hys⟩ := List.cons_subset.mp hdone
    unfold place at ih ⊢
    rw [List.orderedInsert_cons]
    split
    · rfl
    · next hxy =>
      rw [Bool.not_eq_false] at hxy
      rw [List.filter_cons, ih hys, List.filter_cons, List.filter_cons, List.filter_cons]
      by_cases hax : ties below a x = true
      · -- What ties with `a` does not stand above `x`.
        have hay : ¬ties below a y = true := fun hay => by
          simp only [ties, Bool.and_eq_true, Bool.not_eq_true'] at hax hay
          exact Bool.false_ne_true ((h.trans x hx a ha y hy hax.2 hay.1).symm.trans hxy)
        rw [if_neg hay, if_neg hay]
      · rw [if_neg hax, if_neg hax]

theorem pairwise_place (h : Ranks below l) (hx : x ∈ l) (hdone : done ⊆ l)
    (hfalling : done.Pairwise fun x y => below x y = false) :
    (place below done x).Pairwise fun x y => below x y = false := by
  induction done with
  | nil => exact List.pairwise_singleton _ x
  | cons y ys ih =>
    obtain ⟨hy, hys⟩ := List.cons_subset.mp hdone
    obtain ⟨hyall, hfalling'⟩ := List.pairwise_cons.mp hfalling
    unfold place at ih ⊢
    rw [List.orderedInsert_cons]
    split
    · next hxy =>
      refine List.pairwise_cons.mpr ⟨List.forall_mem_cons.mpr ⟨hxy, fun z hz => ?_⟩, hfalling⟩
      exact h.trans x hx y hy z (hys hz) hxy (hyall z hz)
    · next hxy =>
      rw [Bool.not_eq_false] at hxy
      refine List.pairwise_cons.mpr ⟨fun z hz => ?_, ih hys hfalling'⟩
      rcases (List.mem_orderedInsert _).mp hz with rfl | hz
      · exact h.asymm z hx y hy hxy
      · exact hyall z hz

theorem getLast?_place (h : Ranks below l) (hx : x ∈ l) (hdone : done ⊆ l)
    (hfalling : done.Pairwise fun x y => below x y = false) :
    (place below done x).getLast? = some (done.getLast?.elim x (lesser below · x)) := by
  induction done with
  | nil => rfl
  | cons y ys ih =>
    obtain ⟨hy, hys⟩ := List.cons_subset.mp hdone
    obtain ⟨hyall, hfalling⟩ := List.pairwise_cons.mp hfalling
    unfold place at ih ⊢
    rw [List.orderedInsert_cons]
    split
    · next hxy =>
      obtain ⟨b, hb⟩ : ∃ b, (y :: ys).getLast? = some b := ⟨_, List.getLast?_eq_some_getLast (by simp)⟩
      have hxb : below x b = false := by
        rcases List.mem_cons.mp (List.mem_of_getLast? hb) with rfl | hmem
        · exact hxy
        · exact h.trans x hx y hy b (hys hmem) hxy (hyall b hmem)
      rw [List.getLast?_cons_cons, hb, Option.elim_some, lesser, hxb, if_neg Bool.false_ne_true]
    · next hxy =>
      rw [Bool.not_eq_false] at hxy
      cases ys with
      | nil => simp [lesser, hxy]
      | cons z zs =>
        rw [List.getLast?_cons, ih hys hfalling, List.getLast?_cons_cons]
        rfl

theorem Placed.step (h : Ranks below l) (hx : x ∈ l) (hseen : seen ⊆ l)
    (hplaced : Placed below l seen done) : Placed below l (seen ++ [x]) (place below done x) := by
  have hdone : done ⊆ l := fun y hy => hseen (hplaced.perm.mem_iff.mp hy)
  have hperm : (place below done x).Perm (x :: done) := List.perm_orderedInsert _ x done
  refine ⟨hperm.trans ?_, ?_, fun a ha => ?_, ?_⟩
  · exact (hplaced.perm.cons x).trans (List.perm_append_singleton x seen).symm
  · exact pairwise_place h hx hdone hplaced.falling
  · rw [filter_place h ha hx hdone, List.filter_append, List.reverse_append, ← hplaced.stable a ha,
      List.filter_cons, List.filter_singleton]
    cases ties below a x <;> rfl
  · rw [getLast?_place h hx hdone hplaced.falling, hplaced.least, least?_append]

theorem Placed.run (h : Ranks below l) {xs : List α} (hxs : xs ⊆ l) (hseen : seen ⊆ l)
    (hplaced : Placed below l seen done) :
    Placed below l (seen ++ xs) (xs.foldl (place below) done) := by
  induction xs generalizing seen done with
  | nil => rwa [List.append_nil]
  | cons x xs ih =>
    obtain ⟨hx, hxs⟩ := List.cons_subset.mp hxs
    have hseen' : seen ++ [x] ⊆ l := List.append_subset.mpr ⟨hseen, List.cons_subset.mpr ⟨hx, by simp⟩⟩
    have hrun := ih hxs hseen' (hplaced.step h hx hseen)
    rwa [List.append_assoc] at hrun

/-! ## With comparisons that may fail -/

variable {before : α → α → Except Signal Bool}

theorem insertBefore_eq (h : ∀ y ∈ done, before x y = .ok (below x y)) :
    insertBefore before x done = .ok (place below done x) := by
  induction done with
  | nil => rfl
  | cons y ys ih =>
    have hys := ih fun z hz => h z (List.mem_cons_of_mem _ hz)
    unfold place at hys ⊢
    rw [insertBefore, h y List.mem_cons_self, List.orderedInsert_cons]
    show (if below x y then _ else _) = _
    cases below x y with
    | false => rfl
    | true => rw [if_pos rfl, hys]; rfl

theorem foldlM_insertBefore {xs : List α} (h : ∀ x ∈ xs ++ done, ∀ y ∈ xs ++ done,
    before x y = .ok (below x y)) :
    xs.foldlM (fun done x => insertBefore before x done) done = .ok (xs.foldl (place below) done) := by
  induction xs generalizing done with
  | nil => rfl
  | cons x xs ih =>
    have hplace : insertBefore before x done = .ok (place below done x) :=
      insertBefore_eq fun y hy => h x (by simp) y (by simp [hy])
    rw [List.foldlM_cons, hplace, List.foldl_cons]
    have hmem : ∀ y ∈ xs ++ place below done x, y ∈ (x :: xs) ++ done := fun y hy => by
      simpa [place, or_left_comm] using hy
    exact ih fun y hy z hz => h y (hmem y hy) z (hmem z hz)

theorem sortedBy_eq (h : ∀ x ∈ l, ∀ y ∈ l, before x y = .ok (below x y)) :
    sortedBy before l = .ok (l.foldl (place below) []).reverse := by
  rw [sortedBy, foldlM_insertBefore (by simpa using h)]
  rfl

end Placing

/-! ## Keys -/

namespace Heap

variable {h : Heap} {downwards : Bool} {pairs sorted : List (Value × Value)} {p q : Value × Value}

/-- The key of one pair is below that of another one, or above it. -/
def keyBelow (h : Heap) (downwards : Bool) (p q : Value × Value) : Bool :=
  (if downwards then h.order q.1 p.1 else h.order p.1 q.1) matches .ok .lt

/-- The items of `pairs`, in the order of their keys, with those of equal keys as they stood. -/
structure IsSorted (h : Heap) (downwards : Bool) (pairs sorted : List (Value × Value)) : Prop where
  perm : sorted.Perm pairs
  ordered : sorted.Pairwise fun p q =>
    ∃ o, h.order p.1 q.1 = .ok o ∧ o ≠ if downwards then .lt else .gt
  stable : ∀ p ∈ pairs,
    sorted.filter (fun q => h.equal p.1 q.1) = pairs.filter (fun q => h.equal p.1 q.1)

/-- Any two of the keys can be ordered, and a key of each pair is sortable. -/
structure Orderable (h : Heap) (pairs : List (Value × Value)) : Prop where
  sortable : ∀ p ∈ pairs, h.Sortable p.1
  ordered : pairs.Pairwise fun p q => ∃ o, h.order p.1 q.1 = .ok o

theorem keyBelow_eq {o : Ordering} (hp : h.Sortable p.1) (hq : h.Sortable q.1)
    (ho : h.order p.1 q.1 = .ok o) : h.keyBelow downwards p q = (o == if downwards then .gt else .lt) := by
  unfold keyBelow
  cases downwards with
  | false => rw [if_neg Bool.false_ne_true, ho]; cases o <;> rfl
  | true => rw [if_pos rfl, hp.order_swap hq ho]; cases o <;> rfl

namespace Orderable

theorem order (hp : h.Orderable pairs) (hmem : p ∈ pairs) (hmem' : q ∈ pairs) :
    ∃ o, h.order p.1 q.1 = .ok o := by
  have hself : ∀ p ∈ pairs, ∃ o, h.order p.1 p.1 = .ok o := fun p hmem =>
    ⟨.eq, ((hp.sortable p hmem).order_eq_iff (hp.sortable p hmem)).mpr (hp.sortable p hmem).equal_self⟩
  have hflip : pairs.Pairwise fun p q => ∃ o, h.order q.1 p.1 = .ok o :=
    hp.ordered.imp_of_mem fun hmem hmem' ⟨o, ho⟩ =>
      ⟨o.swap, (hp.sortable _ hmem).order_swap (hp.sortable _ hmem') ho⟩
  exact hp.ordered.forall_of_forall_of_flip hself hflip hmem hmem'

theorem ranks (hp : h.Orderable pairs) : Ranks (h.keyBelow downwards) pairs := by
  have hup : Ranks (h.keyBelow false) pairs := by
    constructor
    · intro p hmem q hmem' hpq
      have hps := hp.sortable p hmem
      have hqs := hp.sortable q hmem'
      obtain ⟨o, ho⟩ := hp.order hmem hmem'
      rw [keyBelow_eq hps hqs ho] at hpq
      rw [keyBelow_eq hqs hps (hps.order_swap hqs ho)]
      cases o <;> first | rfl | cases hpq
    · intro p hmem q hmem' r hmem'' hpq hqr
      have hps := hp.sortable p hmem
      have hqs := hp.sortable q hmem'
      have hrs := hp.sortable r hmem''
      obtain ⟨o, ho⟩ := hp.order hmem hmem''
      rw [keyBelow_eq hps hrs ho]
      cases o with
      | eq | gt => rfl
      | lt =>
        -- `p` is below `r`, and not below `q`: then `q` is below `r`.
        obtain ⟨o₁, ho₁⟩ := hp.order hmem hmem'
        obtain ⟨o₂, ho₂⟩ := hp.order hmem' hmem''
        rw [keyBelow_eq hps hqs ho₁] at hpq
        rw [keyBelow_eq hqs hrs ho₂] at hqr
        cases o₁ with
        | lt => cases hpq
        | eq =>
          have hqr' := hps.order_of_equal hqs hrs ((hps.order_eq_iff hqs).mp ho₁) ho
          obtain rfl := Except.ok.inj (hqr'.symm.trans ho₂)
          cases hqr
        | gt =>
          obtain rfl := hqs.order_trans hps hrs (hps.order_swap hqs ho₁) ho ho₂
          cases hqr
  cases downwards with
  | false => exact hup
  | true => exact hup.turned

theorem ties_eq (hp : h.Orderable pairs) (hmem : p ∈ pairs) (hmem' : q ∈ pairs) :
    ties (h.keyBelow downwards) p q = h.equal p.1 q.1 := by
  have hps := hp.sortable p hmem
  have hqs := hp.sortable q hmem'
  obtain ⟨o, ho⟩ := hp.order hmem hmem'
  have hequal := hps.order_eq_iff hqs
  rw [ho] at hequal
  rw [ties, keyBelow_eq hps hqs ho, keyBelow_eq hqs hps (hps.order_swap hqs ho), Bool.eq_iff_iff,
    ← hequal]
  cases o <;> cases downwards <;> decide

/-- The comparison that sorting makes. -/
theorem before_eq (hp : h.Orderable pairs) (hmem : p ∈ pairs) (hmem' : q ∈ pairs) :
    (do let o ← if downwards then h.keyOrder q.1 p.1 else h.keyOrder p.1 q.1
        return o.isLT : Except Signal Bool) = .ok (h.keyBelow downwards p q) := by
  have hkey (a b : Value) {o : Ordering} (ho : h.order a b = .ok o) :
      (do return (← h.keyOrder a b).isLT : Except Signal Bool) = .ok (o == .lt) := by
    rw [keyOrder, ho]
    cases o <;> rfl
  obtain ⟨o, ho⟩ := hp.order hmem hmem'
  have hswap := (hp.sortable p hmem).order_swap (hp.sortable q hmem') ho
  rw [keyBelow_eq (hp.sortable p hmem) (hp.sortable q hmem') ho]
  cases downwards with
  | false => exact hkey p.1 q.1 ho
  | true =>
    refine (hkey q.1 p.1 hswap).trans (congrArg Except.ok ?_)
    cases o <;> rfl

/-- The search for the best pair keeps the one that is the first of the least so far. -/
theorem foldlM_best (hp : h.Orderable pairs) {rest : List (Value × Value)} (hmem : p ∈ pairs)
    (hrest : rest ⊆ pairs) :
    h.bestPair (if downwards then .gt else .lt) p rest =
      .ok (rest.foldl (lesser (h.keyBelow downwards)) p) := by
  induction rest generalizing p with
  | nil => rfl
  | cons q rest ih =>
    obtain ⟨hmem', hrest⟩ := List.cons_subset.mp hrest
    obtain ⟨o, ho⟩ := hp.order hmem' hmem
    have hlesser : lesser (h.keyBelow downwards) p q =
        if o == (if downwards then .gt else .lt) then q else p := by
      rw [lesser, keyBelow_eq (hp.sortable q hmem') (hp.sortable p hmem) ho]
    have hstep : lesser (h.keyBelow downwards) p q ∈ pairs := by
      unfold lesser
      split <;> assumption
    rw [List.foldl_cons, ← ih hstep hrest, bestPair, List.foldlM_cons, keyOrder, ho, hlesser]
    rfl

/-- Sorting the pairs, and going through them for the best one. -/
theorem sortPairs (hp : h.Orderable pairs) (downwards : Bool) : ∃ sorted,
    h.sortPairs downwards pairs = .ok sorted ∧ h.IsSorted downwards pairs sorted ∧
      ∀ first rest, pairs = first :: rest → ∃ best, sorted.head? = some best ∧
        h.bestPair (if downwards then .gt else .lt) first rest = .ok best := by
  have hplaced := (⟨.rfl, .nil, fun _ _ => rfl, rfl⟩ : Placed (h.keyBelow downwards) pairs [] []).run
    hp.ranks (List.Subset.refl pairs) (List.nil_subset _)
  rw [List.nil_append] at hplaced
  have hmem {q : Value × Value} (hq : q ∈ pairs.foldl (place (h.keyBelow downwards)) []) : q ∈ pairs :=
    hplaced.perm.mem_iff.mp hq
  refine ⟨_, sortedBy_eq fun p hmem q hmem' => hp.before_eq hmem hmem', ⟨?perm, ?ordered, ?stable⟩, ?best⟩
  case perm => exact (List.reverse_perm _).trans hplaced.perm
  case ordered =>
    refine List.pairwise_reverse.mpr (hplaced.falling.imp_of_mem fun {p q} hp' hq' hpq => ?_)
    obtain ⟨o, ho⟩ := hp.order (hmem hq') (hmem hp')
    have hswap := (hp.sortable q (hmem hq')).order_swap (hp.sortable p (hmem hp')) ho
    rw [keyBelow_eq (hp.sortable p (hmem hp')) (hp.sortable q (hmem hq')) hswap] at hpq
    refine ⟨o, ho, ?_⟩
    rintro rfl
    cases downwards <;> cases hpq
  case stable =>
    intro p hmem'
    have hties (l : List (Value × Value)) (hl : l ⊆ pairs) :
        l.filter (fun q => h.equal p.1 q.1) = l.filter (ties (h.keyBelow downwards) p) :=
      List.filter_congr fun q hq => (hp.ties_eq hmem' (hl hq)).symm
    rw [List.filter_reverse, hties _ fun q hq => hmem hq, hplaced.stable p hmem', List.reverse_reverse,
      hties pairs (List.Subset.refl pairs)]
  case best =>
    rintro first rest rfl
    refine ⟨_, ?_, hp.foldlM_best List.mem_cons_self (List.subset_cons_self ..)⟩
    rw [List.head?_reverse, hplaced.least]
    rfl

end Orderable

end Heap

/-! ## Calls -/

/-- The arguments by name of a call that puts items in order. -/
def orderKeywords (key reverse : Option Value) : Keywords :=
  (key.map ("key", ·)).toList ++ (reverse.map ("reverse", ·)).toList

/-- The items of the only argument, or else the arguments. -/
def itemsOf : List Value → Exec (List Value)
  | [v] => iterate v
  | args => pure args

/-- What such a call does before it compares keys. -/
def keyedItems (apply : Apply) (key : Option Value) (args : List Value) :
    Exec (List (Value × Value)) := do
  Exec.charge 1
  let items ← itemsOf args
  withKeys apply (keyFunction key) items

variable {apply : Apply} {key : Option Value} {args : List Value} {s t : State}
  {pairs : List (Value × Value)}

theorem native_sorted {v : Value} (hpairs : keyedItems apply key [v] s = .ok pairs t)
    (reverse : Option Value) :
    native apply .sorted [v] (orderKeywords key reverse) s =
      (do Exec.newList (← sortValues pairs (reverse.any s.heap.truthy))) t := by
  have hcall (u : State) : orderedCall apply .sorted [v] (orderKeywords key reverse) u =
      ((itemsOf [v] >>= withKeys apply (keyFunction key)) >>= fun pairs => do
        Exec.newList (← sortValues pairs (reverse.any u.heap.truthy))) u := by
    rw [bind_assoc]
    cases key <;> cases reverse <;> rfl
  obtain ⟨hfuel, hrun⟩ := Exec.of_charge hpairs
  refine (Exec.charge_bind hfuel).trans ((hcall _).trans ?_)
  rw [Exec.bind_apply, hrun]

/-- What `min` and `max` make of the items with their keys. -/
def bestOf (b : Builtin) (wins : Ordering) : List (Value × Value) → Exec Value
  | [] => throw (.error .value s!"{b.label}() arg is an empty sequence")
  | first :: rest => do return (← (← Exec.ofHeap (·.bestPair wins first rest))).2

theorem native_best {b : Builtin} {wins : Ordering} {first : Value × Value}
    {rest : List (Value × Value)} (hb : b = .min ∧ wins = .lt ∨ b = .max ∧ wins = .gt)
    (hpairs : keyedItems apply key args s = .ok (first :: rest) t) (reverse : Option Value) :
    native apply b args (orderKeywords key reverse) s =
      (do return (← (← Exec.ofHeap (·.bestPair wins first rest))).2 : Exec Value) t := by
  have hcall (u : State) (hargs : args ≠ []) : orderedCall apply b args (orderKeywords key reverse) u =
      ((itemsOf args >>= withKeys apply (keyFunction key)) >>= bestOf b wins) u := by
    rw [bind_assoc]
    cases args with
    | nil => exact absurd rfl hargs
    | cons a more =>
      cases more <;> rcases hb with ⟨rfl, rfl⟩ | ⟨rfl, rfl⟩ <;> cases key <;> cases reverse <;> rfl
  obtain ⟨hfuel, hrun⟩ := Exec.of_charge hpairs
  have hargs : args ≠ [] := by
    rintro rfl
    have hnone : withKeys apply (keyFunction key) [] = pure [] := by
      cases keyFunction key <;> rfl
    replace hrun : withKeys apply (keyFunction key) [] _ = _ := hrun
    rw [hnone] at hrun
    cases hrun
  have hnative : native apply b args (orderKeywords key reverse) =
      (Exec.charge 1 >>= fun _ => orderedCall apply b args (orderKeywords key reverse)) := by
    rcases hb with ⟨rfl, -⟩ | ⟨rfl, -⟩ <;> rfl
  rw [hnative]
  refine (Exec.charge_bind hfuel).trans ((hcall _ hargs).trans ?_)
  rw [Exec.bind_apply, hrun]
  rfl

/-- Where the keys of all items can be ordered, `sorted` gives a new list of the items in the order of
their keys, upwards or downwards, and `min` and `max` give the first item of either. -/
theorem native_orders {apply : Apply} {key : Option Value} {args : List Value} {s t : State}
    {pairs : List (Value × Value)} (hpairs : keyedItems apply key args s = .ok pairs t)
    (hkeys : t.heap.Orderable pairs) :
    ∃ up down, t.heap.IsSorted false pairs up ∧ t.heap.IsSorted true pairs down ∧
      ∀ reverse : Option Value,
        (∀ v, args = [v] → pairs.length ≤ t.fuel →
          native apply .sorted args (orderKeywords key reverse) s =
            Exec.newList ((if reverse.any s.heap.truthy then down else up).map (·.2))
              { t with fuel := t.fuel - pairs.length }) ∧
        (pairs ≠ [] → ∃ least greatest, up.head? = some least ∧ down.head? = some greatest ∧
          native apply .min args (orderKeywords key reverse) s = .ok least.2 t ∧
          native apply .max args (orderKeywords key reverse) s = .ok greatest.2 t) := by
  obtain ⟨up, hup, hisUp, hleast⟩ := hkeys.sortPairs false
  obtain ⟨down, hdown, hisDown, hgreatest⟩ := hkeys.sortPairs true
  refine ⟨up, down, hisUp, hisDown, fun reverse => ⟨?sorted, ?best⟩⟩
  case sorted =>
    rintro v rfl hfuel
    have hsort (downwards : Bool) : t.heap.sortPairs downwards pairs =
        .ok (if downwards then down else up) := by
      cases downwards
      · exact hup
      · exact hdown
    have hvalues (downwards : Bool) : sortValues pairs downwards t =
        .ok ((if downwards then down else up).map (·.2)) { t with fuel := t.fuel - pairs.length } := by
      show (Exec.ofExcept (t.heap.sortPairs downwards pairs) >>= fun sorted => do
        Exec.charge pairs.length
        return sorted.map (·.2)) t = _
      rw [hsort]
      exact Exec.charge_bind hfuel
    rw [native_sorted hpairs, Exec.bind_apply, hvalues]
  case best =>
    intro hne
    obtain ⟨first, rest, rfl⟩ := List.exists_cons_of_ne_nil hne
    obtain ⟨least, hhead, hmin⟩ := hleast first rest rfl
    obtain ⟨greatest, hhead', hmax⟩ := hgreatest first rest rfl
    have hbest {wins : Ordering} {best : Value × Value} (h : t.heap.bestPair wins first rest = .ok best) :
        (do return (← (← Exec.ofHeap (·.bestPair wins first rest))).2 : Exec Value) t = .ok best.2 t := by
      show (Exec.ofExcept (t.heap.bestPair wins first rest) >>= fun best => pure best.2) t = _
      rw [h]
      rfl
    refine ⟨least, greatest, hhead, hhead', ?_, ?_⟩
    · exact (native_best (.inl ⟨rfl, rfl⟩) hpairs reverse).trans (hbest hmin)
    · exact (native_best (.inr ⟨rfl, rfl⟩) hpairs reverse).trans (hbest hmax)

/-- `sorted(['bb', 'a', 'cc'], key=len, reverse=True)`, and `min` and `max` of the same, where two of the
texts have the same length. -/
theorem native_orders_length :
    let apply : Apply := fun _ args => native (fun _ _ => pure .none) .len args []
    let s : State :=
      { fuel := 100, maxDepth := 40, heap.lists := #[[.str "bb", .str "a", .str "cc"]] }
    let t : State := { s with fuel := 93 }
    let pairs := [(Value.int 2, Value.str "bb"), (.int 1, .str "a"), (.int 2, .str "cc")]
    let key := some (Value.builtin .len)
    keyedItems apply key [.list 0] s = .ok pairs t ∧ t.heap.Orderable pairs ∧
    ∃ up down, t.heap.IsSorted false pairs up ∧ t.heap.IsSorted true pairs down ∧
      native apply .sorted [.list 0] (orderKeywords key (some (.bool true))) s =
        Exec.newList (down.map (·.2)) { t with fuel := 90 } ∧
      ∃ least greatest, up.head? = some least ∧ down.head? = some greatest ∧
        native apply .min [.list 0] (orderKeywords key none) s = .ok least.2 t ∧
        native apply .max [.list 0] (orderKeywords key none) s = .ok greatest.2 t := by
  intro apply s t pairs key
  have hpairs : keyedItems apply key [.list 0] s = .ok pairs t := rfl
  have hint (i j : Int) : ∃ o, t.heap.order (.int i) (.int j) = .ok o :=
    ⟨_, (Heap.Sortable.number rfl).founded.order_eq.trans (Heap.orderWithin_number rfl rfl)⟩
  have hkeys : t.heap.Orderable pairs := by
    refine ⟨fun p hp => ?_, ?_⟩
    · simp only [pairs, List.mem_cons, List.not_mem_nil, or_false] at hp
      rcases hp with rfl | rfl | rfl <;> exact .number rfl
    · simp [pairs, hint]
  obtain ⟨up, down, hup, hdown, hcalls⟩ := native_orders hpairs hkeys
  refine ⟨hpairs, hkeys, up, down, hup, hdown, ?_, (hcalls none).2 (by simp [pairs])⟩
  exact (hcalls (some (.bool true))).1 (.list 0) rfl (by decide)

end Concord.Machine
