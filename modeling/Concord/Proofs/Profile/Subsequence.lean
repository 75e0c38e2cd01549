import Concord.Profile.Distance
import Mathlib.Data.List.Basic
import Mathlib.Order.Bounds.Basic

/-!
# Longest common subsequences

The lengths are computed in one row with a cell for every prefix of the second list. A pass over the
row takes one more item of the first list into account. It overwrites a cell as soon as it has read
it, so that the cells behind belong to one prefix of the first list and those ahead to a shorter one;
`lcsPass` carries the one value that would be lost. `IsRow` says which pair of prefixes each cell
stands for, `IsRow.pass` that a pass keeps this, and `isRow_foldl` that all passes do.

Main statement: `lcsLength_isGreatest`.
-/

namespace Concord

namespace Distance

variable {xs ys zs : List String} {x y : String}

/-! ## Lengths of common subsequences -/

/-- The lengths of the lists that are subsequences of both. -/
def commonLengths (xs ys : List String) : Set Nat :=
  {n | ∃ zs : List String, zs.Sublist xs ∧ zs.Sublist ys ∧ zs.length = n}

theorem commonLengths_comm (xs ys : List String) : commonLengths xs ys = commonLengths ys xs := by
  ext n
  constructor <;> exact fun ⟨zs, hfirst, hsecond, hlength⟩ => ⟨zs, hsecond, hfirst, hlength⟩

/-- A subsequence of a list with one more item at the end comes without or with that item. -/
theorem sublist_concat_iff :
    zs.Sublist (xs ++ [x]) ↔ zs.Sublist xs ∨ ∃ front, zs = front ++ [x] ∧ front.Sublist xs := by
  rw [List.sublist_append_iff]
  constructor
  · rintro ⟨front, last, rfl, hfront, hlast⟩
    rcases List.sublist_singleton.mp hlast with rfl | rfl
    · exact .inl (by rwa [List.append_nil])
    · exact .inr ⟨front, rfl, hfront⟩
  · rintro (hzs | ⟨front, rfl, hfront⟩)
    · exact ⟨zs, [], (List.append_nil zs).symm, hzs, List.nil_sublist _⟩
    · exact ⟨front, [x], rfl, hfront, List.Sublist.refl _⟩

theorem isGreatest_nil_left (ys : List String) : IsGreatest (commonLengths [] ys) 0 := by
  refine ⟨⟨[], List.nil_sublist _, List.nil_sublist _, rfl⟩, ?_⟩
  rintro n ⟨zs, hzs, -, rfl⟩
  rw [List.sublist_nil.mp hzs, List.length_nil]

theorem isGreatest_nil_right (xs : List String) : IsGreatest (commonLengths xs []) 0 :=
  commonLengths_comm [] xs ▸ isGreatest_nil_left xs

/-- One item more at the end of both lists. -/
theorem isGreatest_concat_self {n : Nat} (h : IsGreatest (commonLengths xs ys) n) :
    IsGreatest (commonLengths (xs ++ [x]) (ys ++ [x])) (n + 1) := by
  obtain ⟨⟨zs, hxs, hys, rfl⟩, hbound⟩ := h
  refine ⟨⟨zs ++ [x], hxs.append_right _, hys.append_right _, List.length_append⟩, ?_⟩
  rintro m ⟨ws, hws, hws', rfl⟩
  -- Without its last item a common subsequence is one of the shorter lists.
  have hfront : ∀ {front : List String}, front.Sublist xs → front.Sublist ys →
      front.length ≤ zs.length := fun hfirst hsecond => hbound ⟨_, hfirst, hsecond, rfl⟩
  rcases sublist_concat_iff.mp hws with hfirst | ⟨front, rfl, hfirst⟩
  · rcases sublist_concat_iff.mp hws' with hsecond | ⟨front, rfl, hsecond⟩
    · exact (hfront hfirst hsecond).trans (Nat.le_succ _)
    · rw [List.length_append]
      exact Nat.succ_le_succ (hfront ((List.sublist_append_left _ _).trans hfirst) hsecond)
  · rw [List.length_append]
    rcases sublist_concat_iff.mp hws' with hsecond | ⟨front', hsame, hsecond⟩
    · exact Nat.succ_le_succ (hfront hfirst ((List.sublist_append_left _ _).trans hsecond))
    · obtain rfl := List.append_cancel_right hsame
      exact Nat.succ_le_succ (hfront hfirst hsecond)

/-- Two different items at the ends: a common subsequence does without one of them. -/
theorem isGreatest_concat_ne {m n : Nat} (hxy : x ≠ y)
    (hfirst : IsGreatest (commonLengths xs (ys ++ [y])) m)
    (hsecond : IsGreatest (commonLengths (xs ++ [x]) ys) n) :
    IsGreatest (commonLengths (xs ++ [x]) (ys ++ [y])) (max m n) := by
  have hunion : commonLengths (xs ++ [x]) (ys ++ [y]) =
      commonLengths xs (ys ++ [y]) ∪ commonLengths (xs ++ [x]) ys := by
    ext k
    constructor
    · rintro ⟨zs, hxs, hys, hlength⟩
      rcases sublist_concat_iff.mp hxs with hshort | ⟨front, rfl, -⟩
      · exact .inl ⟨zs, hshort, hys, hlength⟩
      · rcases sublist_concat_iff.mp hys with hshort | ⟨front', hsame, -⟩
        · exact .inr ⟨_, hxs, hshort, hlength⟩
        · exact absurd (List.singleton_inj.mp (List.append_inj_right' hsame rfl)) hxy
    · rintro (⟨zs, hxs, hys, hlength⟩ | ⟨zs, hxs, hys, hlength⟩)
      · exact ⟨zs, hxs.trans (List.sublist_append_left _ _), hys, hlength⟩
      · exact ⟨zs, hxs, hys.trans (List.sublist_append_left _ _), hlength⟩
  rw [hunion]
  exact hfirst.union hsecond

/-! ## The row -/

/-- The cells of a row for `xs`, behind the one for `before`: one for every longer prefix of
`before ++ ys`, with the greatest length for `xs` and that prefix. -/
inductive IsRow (xs : List String) : List String → List String → List Nat → Prop
  | nil (before : List String) : IsRow xs before [] []
  | cons {before ys : List String} {y : String} {cell : Nat} {row : List Nat}
      (hcell : IsGreatest (commonLengths xs (before ++ [y])) cell)
      (hrow : IsRow xs (before ++ [y]) ys row) : IsRow xs before (y :: ys) (cell :: row)

/-- Before the first pass there are zeros. -/
theorem isRow_replicate (before ys : List String) :
    IsRow [] before ys (List.replicate ys.length 0) := by
  induction ys generalizing before with
  | nil => exact .nil before
  | cons y ys ih => exact .cons (isGreatest_nil_left _) (ih (before ++ [y]))

/-- A pass: from cells for `xs` to cells for `xs` and one more item. `diagonal` belongs to the old row
and `left` to the new one. -/
theorem IsRow.pass {before : List String} {row : List Nat} {diagonal left : Nat}
    (h : IsRow xs before ys row) (hdiagonal : IsGreatest (commonLengths xs before) diagonal)
    (hleft : IsGreatest (commonLengths (xs ++ [x]) before) left) :
    IsRow (xs ++ [x]) before ys (lcsPass x diagonal left ys row) := by
  induction h generalizing diagonal left with
  | nil before => exact .nil before
  | @cons before ys y above row hcell hrow ih =>
    have hnew : IsGreatest (commonLengths (xs ++ [x]) (before ++ [y]))
        (if x = y then diagonal + 1 else max above left) := by
      split
      · next hxy =>
        subst hxy
        exact isGreatest_concat_self hdiagonal
      · next hxy => exact isGreatest_concat_ne hxy hcell hleft
    exact .cons hnew (ih hcell hnew)

/-- The passes for all items, one after the other. -/
theorem isRow_foldl {row : List Nat} (h : IsRow xs [] ys row) (more : List String) :
    ∃ row', more.foldl (lcsUpdate ys) (0 :: row) = 0 :: row' ∧ IsRow (xs ++ more) [] ys row' := by
  induction more generalizing xs row with
  | nil => exact ⟨row, rfl, by rwa [List.append_nil]⟩
  | cons x more ih =>
    have hpass := h.pass (x := x) (isGreatest_nil_right xs) (isGreatest_nil_right (xs ++ [x]))
    obtain ⟨row', hfold, hrow'⟩ := ih hpass
    exact ⟨row', hfold, by rwa [List.append_assoc] at hrow'⟩

/-- The last cell is the one for the whole of the second list. -/
theorem IsRow.last {before : List String} {first : Nat} {row : List Nat} (h : IsRow xs before ys row)
    (hfirst : IsGreatest (commonLengths xs before) first) :
    IsGreatest (commonLengths xs (before ++ ys)) ((first :: row).getD ys.length 0) := by
  induction h generalizing first with
  | nil before => rwa [List.append_nil]
  | cons hcell _ ih =>
    have hlast := ih hcell
    rwa [List.append_assoc] at hlast

/-! ## The length -/

theorem exists_row (xs ys : List String) :
    ∃ row, IsRow xs [] ys row ∧ lcsLength xs ys = (0 :: row).getD ys.length 0 := by
  obtain ⟨row, hfold, hrow⟩ := isRow_foldl (isRow_replicate [] ys) xs
  refine ⟨row, hrow, ?_⟩
  rw [lcsLength, List.replicate_succ, hfold]

/-- There is a common subsequence of the length that is computed. -/
theorem exists_common_sublist (xs ys : List String) :
    ∃ zs : List String, zs.Sublist xs ∧ zs.Sublist ys ∧ zs.length = lcsLength xs ys := by
  obtain ⟨row, hrow, hlength⟩ := exists_row xs ys
  rw [hlength]
  exact (hrow.last (isGreatest_nil_right xs)).1

/-- No common subsequence is longer. -/
theorem length_le_lcsLength (hxs : zs.Sublist xs) (hys : zs.Sublist ys) :
    zs.length ≤ lcsLength xs ys := by
  obtain ⟨row, hrow, hlength⟩ := exists_row xs ys
  rw [hlength]
  exact (hrow.last (isGreatest_nil_right xs)).2 ⟨zs, hxs, hys, rfl⟩

theorem lcsLength_le (xs ys : List String) : lcsLength xs ys ≤ xs.length := by
  obtain ⟨zs, hxs, -, hlength⟩ := exists_common_sublist xs ys
  exact hlength ▸ hxs.length_le

theorem lcsLength_self (xs : List String) : lcsLength xs xs = xs.length :=
  Nat.le_antisymm (lcsLength_le xs xs) (length_le_lcsLength (.refl xs) (.refl xs))

theorem lcsLength_comm (xs ys : List String) : lcsLength xs ys = lcsLength ys xs := by
  have hle (xs ys : List String) : lcsLength xs ys ≤ lcsLength ys xs := by
    obtain ⟨zs, hxs, hys, hlength⟩ := exists_common_sublist xs ys
    exact hlength ▸ length_le_lcsLength hys hxs
  exact Nat.le_antisymm (hle xs ys) (hle ys xs)

/-- What is computed is the greatest length of a list that is a subsequence of both. -/
theorem lcsLength_isGreatest (xs ys : List String) :
    IsGreatest {n | ∃ zs : List String, zs.Sublist xs ∧ zs.Sublist ys ∧ zs.length = n}
      (lcsLength xs ys) := by
  refine ⟨exists_common_sublist xs ys, ?_⟩
  rintro n ⟨zs, hxs, hys, rfl⟩
  exact length_le_lcsLength hxs hys

end Distance

end Concord
