import Concord.Probe.Basic
import Concord.Proofs.Store.Agreement
import Concord.Proofs.Tree.Names
import Mathlib.Data.List.MinMax
import Mathlib.Data.Set.Card

/-!
# What a probe passes to a function

The rounds of a probe reach every entry of every battery, whatever the lengths of the others: with stride
0 all parameters go through their batteries at the same place, as many places as the longest battery has.
Rounds that are left out because they were there before change nothing in this.

So a parameter that is probed with texts gets what its fixed battery holds, and of the string literals of
the two programs those that the battery was given: the first `Seed.maxLiterals` of them in increasing
order.

Main statement: `Probe.inputs_reach`.
-/

namespace Concord

/-! ## Lists without repetitions -/

/-- An item is in a list that leaves out repetitions if it was there before or has come. -/
theorem mem_foldl_of_contains {α : Type} [BEq α] [LawfulBEq α] {x : α} {seen new : List α} :
    x ∈ new.foldl (fun acc y => if acc.contains y then acc else acc ++ [y]) seen ↔
      x ∈ seen ∨ x ∈ new := by
  induction new generalizing seen with
  | nil => simp
  | cons y ys ih =>
    rw [List.foldl_cons, ih, List.mem_cons]
    split
    · next hy =>
      rw [List.contains_iff_mem] at hy
      constructor
      · rintro (h | h) <;> simp [h]
      · rintro (h | rfl | h)
        · exact .inl h
        · exact .inl hy
        · exact .inr h
    · rw [List.mem_append, List.mem_singleton, or_assoc]

/-- What stands among the first items of an increasing list is what has fewer items below it. -/
theorem mem_take_of_increasing {α : Type} [LinearOrder α] {l : List α} (hl : l.Pairwise (· < ·))
    {n : Nat} {s : α} :
    s ∈ l.take n ↔ s ∈ l ∧ (l.filter (· < s)).length < n := by
  induction l generalizing n with
  | nil => simp
  | cons a l ih =>
    obtain ⟨ha, hl⟩ := List.pairwise_cons.mp hl
    cases n with
    | zero => simp
    | succ n =>
      rw [List.take_succ_cons, List.mem_cons, List.mem_cons, ih hl]
      by_cases hs : s = a
      · subst hs
        have hnone : (s :: l).filter (· < s) = [] := by
          simp only [List.filter_eq_nil_iff, List.forall_mem_cons, decide_eq_true_eq]
          exact ⟨lt_irrefl s, fun b hb => (ha b hb).not_gt⟩
        simp [hnone]
      · have hcount (h : s ∈ l) : ((a :: l).filter (· < s)).length = (l.filter (· < s)).length + 1 := by
          rw [List.filter_cons, if_pos (decide_eq_true (ha s h)), List.length_cons]
        simp only [hs, false_or]
        refine and_congr_right fun h => ?_
        rw [hcount h, Nat.succ_lt_succ_iff]

/-! ## Rounds -/

namespace Seed

theorem length_round (stride place : Nat) (batteries : List (List Seed)) :
    (round stride place batteries).length = batteries.length := by
  induction batteries generalizing place with
  | nil => rfl
  | cons b bs ih => rw [round, List.length_cons, List.length_cons, ih]

theorem getElem?_round {stride place : Nat} {batteries : List (List Seed)} {j : Nat} {b : List Seed}
    (hj : batteries[j]? = some b) :
    (round stride place batteries)[j]? =
      some ((b[(place + j * stride) % b.length]?).getD (int 0)) := by
  induction batteries generalizing place j with
  | nil => simp at hj
  | cons b' bs ih =>
    cases j with
    | zero =>
      obtain rfl := Option.some.inj hj
      simp [round]
    | succ j =>
      rw [round, List.getElem?_cons_succ, ih hj, Nat.add_one_mul, Nat.add_assoc, Nat.add_comm stride]

/-- With stride 0 there is a round for each place of the longest battery. -/
theorem round_mem_rounds {batteries : List (List Seed)} {b : List Seed} (hb : b ∈ batteries)
    {place : Nat} (hplace : place < b.length) : round 0 place batteries ∈ rounds batteries := by
  have hcount : b.length ≤ ((batteries.map List.length).max?).getD 1 :=
    List.le_max?_getD_of_mem (List.mem_map_of_mem hb)
  have hstride : 0 ∈ strides.take (if 1 < batteries.length then strides.length else 1) := by
    split <;> simp [strides]
  refine mem_foldl_of_contains.mpr (.inr (List.mem_flatMap.mpr ⟨0, hstride, ?_⟩))
  exact List.mem_map.mpr ⟨place, List.mem_range.mpr (Nat.lt_of_lt_of_le hplace hcount), rfl⟩

/-- Every entry of every battery is passed in some round. -/
theorem exists_round_of_mem {batteries : List (List Seed)} {j : Nat} {b : List Seed} {x : Seed}
    (hj : batteries[j]? = some b) (hx : x ∈ b) :
    ∃ r ∈ rounds batteries, r.length = batteries.length ∧ r[j]? = some x := by
  obtain ⟨i, hi, rfl⟩ := List.mem_iff_getElem.mp hx
  refine ⟨round 0 i batteries, round_mem_rounds (List.mem_of_getElem? hj) hi, length_round .., ?_⟩
  rw [getElem?_round hj, Nat.mul_zero, Nat.add_zero, Nat.mod_eq_of_lt hi, List.getElem?_eq_getElem hi]
  rfl

/-- A round passes nothing but entries of the batteries. -/
theorem mem_of_mem_rounds {batteries : List (List Seed)} {r : List Seed} (hr : r ∈ rounds batteries)
    {j : Nat} {b : List Seed} (hj : batteries[j]? = some b) (hb : b ≠ []) {x : Seed}
    (hx : r[j]? = some x) : x ∈ b := by
  rcases mem_foldl_of_contains.mp hr with hr | hr
  · cases hr
  · obtain ⟨stride, -, hr⟩ := List.mem_flatMap.mp hr
    obtain ⟨place, -, rfl⟩ := List.mem_map.mp hr
    have hlt : (place + j * stride) % b.length < b.length :=
      Nat.mod_lt _ (List.length_pos_iff.mpr hb)
    rw [getElem?_round hj, List.getElem?_eq_getElem hlt] at hx
    exact Option.some.inj hx ▸ List.getElem_mem hlt

/-! ## Literals -/

/-- One of the modules has the text as a string literal, wherever it stands. -/
def IsLiteral (before after : Module) (s : String) : Prop :=
  ∃ m ∈ [before, after], ∃ lit : StrLit,
    .str lit ∈ Block.exprs m.body ∧ lit.bytes = false ∧ lit.value = s

theorem exprs_append (b c : Block) : Block.exprs (b ++ c) = Block.exprs b ++ Block.exprs c := by
  have hnodes : Stmt.nodesList (b ++ c) = Stmt.nodesList b ++ Stmt.nodesList c := by
    induction b with
    | nil => rfl
    | cons s b ih => rw [List.cons_append, Stmt.nodesList, ih, Stmt.nodesList, List.append_assoc]
  unfold Block.exprs Block.nodes
  rw [hnodes, List.filterMap_append]

theorem literal?_eq_some {e : Expr} {s : String} :
    literal? e = some s ↔ ∃ lit : StrLit, e = .str lit ∧ lit.bytes = false ∧ lit.value = s := by
  cases e with
  | str lit => cases hb : lit.bytes <;> simp [literal?, hb]
  | _ => simp [literal?]

theorem mem_literalTexts {before after : Module} {s : String} :
    s ∈ (Block.exprs (before.body ++ after.body)).filterMap literal? ↔ IsLiteral before after s := by
  simp only [List.mem_filterMap, literal?_eq_some, exprs_append, List.mem_append, IsLiteral,
    List.mem_cons, List.not_mem_nil, or_false, exists_eq_or_imp, exists_eq_left]
  constructor
  · rintro ⟨e, he | he, lit, rfl, h⟩
    · exact .inl ⟨lit, he, h⟩
    · exact .inr ⟨lit, he, h⟩
  · rintro (⟨lit, he, h⟩ | ⟨lit, he, h⟩)
    · exact ⟨_, .inl he, lit, rfl, h⟩
    · exact ⟨_, .inr he, lit, rfl, h⟩

/-- A literal is added to the batteries if few enough literals come before it. -/
theorem text_mem_literals {before after : Module} {s : String} :
    text s ∈ literals before after ↔ IsLiteral before after s ∧
      {t | IsLiteral before after t ∧ t < s}.ncard < maxLiterals := by
  have hincreasing := Names.pairwise_ofList
    ((Block.exprs (before.body ++ after.body)).filterMap literal?)
  have hlower : {t | IsLiteral before after t ∧ t < s} =
      ↑((Names.ofList ((Block.exprs (before.body ++ after.body)).filterMap literal?)).filter
        (· < s)).toFinset := by
    ext t
    simp [Names.mem_ofList, ← mem_literalTexts]
  have hnodup : ((Names.ofList ((Block.exprs (before.body ++ after.body)).filterMap literal?)).filter
      (· < s)).Nodup := (hincreasing.imp ne_of_lt).filter _
  rw [literals, List.mem_map_of_injective fun _ _ => Seed.text.inj, mem_take_of_increasing hincreasing,
    Names.mem_ofList, mem_literalTexts, hlower, Set.ncard_coe_finset, List.toFinset_card_of_nodup hnodup]

theorem mem_battery {literals : List Seed} {d : Domain} {x : Seed} :
    x ∈ battery literals d ↔ x ∈ base d ∨ ((d = .text ∨ d = .any) ∧ x ∈ literals) := by
  cases d with
  | text | any =>
    rw [battery, append, mem_foldl_of_contains]
    simp
  | _ => simp [battery]

theorem battery_ne_nil (literals : List Seed) (d : Domain) : battery literals d ≠ [] := by
  have hbase : ∃ x, x ∈ base d := by cases d <;> exact ⟨_, List.mem_cons_self⟩
  obtain ⟨x, hx⟩ := hbase
  exact List.ne_nil_of_mem (mem_battery.mpr (.inl hx))

end Seed

namespace Probe

open Seed

/-- A parameter that is probed with texts, or with values of all kinds, gets the texts of its fixed
battery and the string literals of either program that have fewer than `Seed.maxLiterals` different
literals below them, and no other text. In general every entry of every battery is passed in its
parameter, whatever the lengths of the other batteries. -/
theorem inputs_reach (before after : Module) (f : Function) (params : List String) :
    (∀ (j : Nat) (p : String), params[j]? = some p →
      Domain.ofName f.body p = .text ∨ Domain.ofName f.body p = .any → ∀ s : String,
      (∃ r ∈ inputs before after f params, r.length = params.length ∧ r[j]? = some (.text s)) ↔
        .text s ∈ base (Domain.ofName f.body p) ∨ IsLiteral before after s ∧
          {t | IsLiteral before after t ∧ t < s}.ncard < maxLiterals) ∧
    ∀ (batteries : List (List Seed)) (j : Nat) (b : List Seed), batteries[j]? = some b → ∀ x ∈ b,
      ∃ r ∈ rounds batteries, r.length = batteries.length ∧ r[j]? = some x := by
  refine ⟨fun j p hp hd s => ?_, fun batteries j b hj x hx => exists_round_of_mem hj hx⟩
  have hbattery : ((Domain.infer f params).map (battery (literals before after)))[j]? =
      some (battery (literals before after) (Domain.ofName f.body p)) := by
    simp [Domain.infer, hp]
  have hlength : ((Domain.infer f params).map (battery (literals before after))).length =
      params.length := by
    simp [Domain.infer]
  have hmem : .text s ∈ battery (literals before after) (Domain.ofName f.body p) ↔
      .text s ∈ base (Domain.ofName f.body p) ∨ IsLiteral before after s ∧
        {t | IsLiteral before after t ∧ t < s}.ncard < maxLiterals := by
    rw [mem_battery, text_mem_literals, and_iff_right hd]
  rw [← hmem]
  constructor
  · rintro ⟨r, hr, -, hx⟩
    exact mem_of_mem_rounds hr hbattery (battery_ne_nil _ _) hx
  · intro hx
    obtain ⟨r, hr, hrlength, hrj⟩ := exists_round_of_mem hbattery hx
    exact ⟨r, hr, hrlength.trans hlength, hrj⟩

/-- `def f(n, s): return n + 1 if s == 'k' else n - 1` is called with `'k'` for `s`, although the battery
of `n` is shorter. -/
theorem inputs_reach_letter :
    let f : Function := ⟨"f", [⟨"n", .regular, none, none⟩, ⟨"s", .regular, none, none⟩],
      [.ret (some (.ifExp (.compare (.name "s") [(.eq, .str ⟨"k", false, false⟩)])
        (.bin .add (.name "n") (.int 1)) (.bin .sub (.name "n") (.int 1))))], [], none, false⟩
    let m : Module := ⟨[.define f]⟩
    ["n", "s"][1]? = some "s" ∧ Domain.ofName f.body "s" = .text ∧
      ∃ r ∈ inputs m m f ["n", "s"], r.length = 2 ∧ r[1]? = some (.text "k") := by
  intro f m
  have hdomain : Domain.ofName f.body "s" = .text := by decide +kernel
  refine ⟨rfl, hdomain, ((inputs_reach m m f ["n", "s"]).1 1 "s" rfl (.inl hdomain) "k").mpr (.inr ?_)⟩
  have hliteral : ∀ t, IsLiteral m m t → t = "k" := by
    intro t ht
    have hmem := mem_literalTexts.mpr ht
    rw [show (Block.exprs (m.body ++ m.body)).filterMap literal? = ["k", "k"] by decide +kernel] at hmem
    simpa using hmem
  refine ⟨mem_literalTexts.mp (by decide +kernel), ?_⟩
  have hnone : {t | IsLiteral m m t ∧ t < "k"} = ∅ := Set.eq_empty_of_forall_notMem fun t ht => by
    have hlt : t < "k" := ht.2
    rw [hliteral t ht.1] at hlt
    exact lt_irrefl _ hlt
  rw [hnone, Set.ncard_empty]
  decide

/-- Of 17 letters that a function compares its argument with, the last one is never passed to it. -/
theorem inputs_reach_not_last :
    let letters := ["b", "c", "d", "e", "f", "g", "h", "i", "j", "k", "l", "m", "n", "o", "p", "q", "r"]
    let f : Function := ⟨"f", [⟨"s", .regular, none, none⟩],
      [.ret (some (.compare (.name "s") [(.member, .list (letters.map fun t => .str ⟨t, false, false⟩))]))],
      [], none, false⟩
    let m : Module := ⟨[.define f]⟩
    f.positionalParams? = some ["s"] ∧ Domain.ofName f.body "s" = .any ∧ IsLiteral m m "r" ∧
      ∀ r ∈ inputs m m f ["s"], r[0]? ≠ some (.text "r") := by
  intro letters f m
  exact ⟨by decide +kernel, by decide +kernel, mem_literalTexts.mp (by decide +kernel), by decide +kernel⟩

end Probe

end Concord
