import Mathlib.Data.List.Induction
import Concord.Strategy.Registry

/-!
# Rewriting an idiom is never idle

Every idiom has a rewriting: where the predicate of the idiom holds, the rewriting goes through and
gives another tree. For expressions the result has another outermost form or is a proper part of the
match; for statements the block gets another length, or another statement at the position.

Of the chain of assignments that a return takes up, more is said: it is folded as far as is asked for, without
an assignment missing on the way, and nothing else in the block changes (`Strategy.inlineChain_exact`).
-/

namespace Concord

namespace Expr

/-! ## Expressions and their proper parts -/

theorem ne_bin_left (op : BinOp) (l r : Expr) : l ≠ .bin op l r := by
  intro h
  have := congrArg sizeOf h
  simp at this
  omega

theorem ne_bin_right (op : BinOp) (l r : Expr) : r ≠ .bin op l r := by
  intro h
  have := congrArg sizeOf h
  simp at this

theorem ne_compare_left (l : Expr) (links : List (CmpOp × Expr)) : l ≠ .compare l links := by
  intro h
  have := congrArg sizeOf h
  simp at this
  omega

theorem ne_compare_right (l : Expr) (op : CmpOp) (r : Expr) : r ≠ .compare l [(op, r)] := by
  intro h
  have := congrArg sizeOf h
  simp at this
  omega

theorem ne_call_arg (f e : Expr) : e ≠ .call f [.positional e] := by
  intro h
  have := congrArg sizeOf h
  simp at this
  omega

theorem ne_compare_call_arg (f e : Expr) (links : List (CmpOp × Expr)) :
    e ≠ .compare (.call f [.positional e]) links := by
  intro h
  have := congrArg sizeOf h
  simp at this
  omega

/-- The only form of a call with one positional argument. -/
theorem eq_of_asSimpleCall? {e a : Expr} {f : String} (h : e.asSimpleCall? = some (f, [a])) :
    e = .call (.name f) [.positional a] := by
  cases e with
  | call g args =>
    cases g with
    | name n =>
      simp only [asSimpleCall?, Option.map_eq_some_iff, Prod.mk.injEq] at h
      obtain ⟨es, hes, rfl, rfl⟩ := h
      cases args with
      | nil => simp [positional?] at hes
      | cons x xs =>
        cases x with
        | positional y =>
          simp only [positional?, Option.map_eq_some_iff, List.cons.injEq] at hes
          obtain ⟨ys, hys, rfl, rfl⟩ := hes
          cases xs with
          | nil => rfl
          | cons z zs => cases z <;> simp [positional?] at hys
        | _ => simp [positional?] at hes
    | _ => simp [asSimpleCall?] at h
  | _ => simp [asSimpleCall?] at h

end Expr

namespace Strategy

/-! ## Arithmetic -/

theorem withoutIdentity?_ne (x : Expr) (h : Idiom.isIdentity x = true) :
    (withoutIdentity? x).getD x ≠ x := by
  cases x with
  | bin op l r =>
    have hl := Expr.ne_bin_left op l r
    have hr := Expr.ne_bin_right op l r
    unfold withoutIdentity?
    cases op with
    | add | mul =>
      simp only [Idiom.isIdentity, Bool.or_eq_true] at h
      dsimp only
      split
      · exact hl
      · next hright =>
        rw [if_pos (h.resolve_left hright)]
        exact hr
    | sub | pow =>
      dsimp only
      rw [if_pos (by simpa only [Idiom.isIdentity] using h)]
      exact hl
    | _ => simp [Idiom.isIdentity] at h
  | _ => simp [Idiom.isIdentity] at h

theorem powerToProduct?_ne (x : Expr) (h : Idiom.isSquare x = true) :
    (powerToProduct? x).getD x ≠ x := by
  cases x with
  | bin op l r => cases op <;> simp_all [Idiom.isSquare, powerToProduct?]
  | _ => simp [Idiom.isSquare] at h

theorem productToPower?_ne (x : Expr) (h : Idiom.isSelfProduct x = true) :
    (productToPower? x).getD x ≠ x := by
  cases x with
  | bin op l r => cases op <;> simp_all [Idiom.isSelfProduct, productToPower?]
  | _ => simp [Idiom.isSelfProduct] at h

theorem floored?_ne (x : Expr) (h : Idiom.isTruncatingDivision x = true) :
    (floored? x).getD x ≠ x := by
  unfold Idiom.isTruncatingDivision at h
  split at h
  · next callee l r hcall =>
    rw [floored?, hcall, Expr.eq_of_asSimpleCall? hcall]
    simp
  · simp at h

theorem regroupLeft?_ne (x : Expr) (h : Idiom.isRightNested x = true) :
    (regroupLeft? x).getD x ≠ x := by
  unfold Idiom.isRightNested at h
  split at h
  · next op a inner b c =>
    have hop : inner = op := by simp_all
    subst hop
    simp only [regroupLeft?, if_pos, Option.getD_some]
    intro he
    exact Expr.ne_bin_left inner a b (Expr.bin.inj he).2.1.symm
  · simp at h

theorem regroupRight?_ne (x : Expr) (h : Idiom.isLeftNested x = true) :
    (regroupRight? x).getD x ≠ x := by
  unfold Idiom.isLeftNested at h
  split at h
  · next op inner a b c =>
    have hop : inner = op := by simp_all
    subst hop
    simp only [regroupRight?, if_pos, Option.getD_some]
    intro he
    exact Expr.ne_bin_left inner a b (Expr.bin.inj he).2.1
  · simp at h

/-! ## Conditions -/

theorem toTruthiness?_ne (x : Expr) (h : (Idiom.lengthCheck? x).isSome = true) :
    (toTruthiness? x).getD x ≠ x := by
  obtain ⟨⟨operand, empty⟩, hcheck⟩ := Option.isSome_iff_exists.mp h
  have hform : ∃ links, x = .compare (.call (.name "len") [.positional operand]) links := by
    unfold Idiom.lengthCheck? at hcheck
    split at hcheck
    · next left op k =>
      split at hcheck
      · next callee arg hcall =>
        split at hcheck
        · next hlen =>
          subst hlen
          obtain ⟨_, _, he⟩ := Option.map_eq_some_iff.mp hcheck
          obtain ⟨rfl, -⟩ := Prod.mk.inj he
          exact ⟨_, by rw [Expr.eq_of_asSimpleCall? hcall]⟩
        · simp at hcheck
      · simp at hcheck
    · simp at hcheck
  rw [toTruthiness?, hcheck]
  obtain ⟨links, rfl⟩ := hform
  simp only [Option.map_some, Option.getD_some]
  split
  · simp
  · exact Expr.ne_compare_call_arg _ _ _

theorem toLength?_ne (x : Expr) (h : Idiom.isNegatedTruthiness x = true) :
    (toLength? x).getD x ≠ x := by
  unfold Idiom.isNegatedTruthiness at h
  split at h
  · simp [toLength?]
  · simp at h

theorem withoutBool?_ne (x : Expr) (h : Idiom.isBoolComparison x = true) :
    (withoutBool? x).getD x ≠ x := by
  unfold Idiom.isBoolComparison at h
  split at h
  · next left op right =>
    simp only [withoutBool?]
    split
    · simp only [Option.getD_some]
      split
      · exact Expr.ne_compare_right _ _ _
      · simp
    · simp only [Option.getD_some]
      split
      · exact Expr.ne_compare_left _ _
      · simp
    · next hleft hright =>
      -- Neither side is a constant, so this is no such comparison.
      have hl : left.isBoolLiteral = false := by
        cases left with
        | bool b => exact absurd rfl (hleft b)
        | _ => rfl
      have hr : right.isBoolLiteral = false := by
        cases right with
        | bool b => exact absurd rfl (hright b)
        | _ => rfl
      simp [hl, hr] at h
  · simp at h

theorem inverted?_ne (x : Expr) (h : Idiom.isNegatedComparison x = true) :
    (inverted? x).getD x ≠ x := by
  unfold Idiom.isNegatedComparison at h
  split at h
  · simp [inverted?]
  · simp at h

theorem converted?_ne (x : Expr) (h : Idiom.isMaterializing x = true) :
    (converted? x).getD x ≠ x := by
  unfold Idiom.isMaterializing at h
  split at h
  · exact Expr.ne_call_arg _ _
  · simp at h

/-! ## Positions of blocks -/

theorem lt_length_of_getElem? {α : Type} {l : List α} {i : Nat} {a : α} (h : l[i]? = some a) :
    i < l.length :=
  (List.getElem?_eq_some_iff.mp h).1

/-- Another statement at a position is another block. -/
theorem take_append_cons_ne {block rest : Block} {i : Nat} {old new : Stmt}
    (h : block[i]? = some old) (hne : new ≠ old) : block.take i ++ new :: rest ≠ block := by
  intro he
  have hlen : (block.take i).length = i :=
    List.length_take_of_le (Nat.le_of_lt (lt_length_of_getElem? h))
  have hnew : (block.take i ++ new :: rest)[i]? = some new := by
    rw [List.getElem?_append_right (Nat.le_of_eq hlen), hlen, Nat.sub_self, List.getElem?_cons_zero]
  rw [he, h] at hnew
  exact hne (Option.some.inj hnew).symm

/-- A block that loses a statement is another one, unless it is `pass` alone. -/
theorem nonempty_eraseIdx_ne {block : Block} {i : Nat} {s : Stmt} (h : block[i]? = some s)
    (hs : s ≠ .pass) : nonempty (block.eraseIdx i) ≠ block := by
  have hi := lt_length_of_getElem? h
  unfold nonempty
  split
  · -- The statement was the only one, and `pass` stands in its place.
    rintro rfl
    simp only [List.getElem?_singleton] at h
    split at h
    · exact hs (Option.some.inj h).symm
    · simp at h
  · intro he
    have hlen := congrArg List.length he
    rw [List.length_eraseIdx_of_lt hi] at hlen
    omega

theorem collapseReturns_changes (b : Block) (i : Nat) (h : Idiom.isIfElseReturn b i = true) :
    ∃ new, collapseReturns b i = some new ∧ new ≠ b := by
  unfold Idiom.isIfElseReturn at h
  split at h
  · next test body orelse hat =>
    simp only [Bool.and_eq_true] at h
    obtain ⟨hbody, hother⟩ := h
    obtain ⟨a, rfl⟩ : ∃ a, body = [.ret (some a)] := by
      unfold Idiom.returnsValue at hbody
      split at hbody
      · exact ⟨_, rfl⟩
      · simp at hbody
    unfold collapseReturns
    rw [hat]
    simp only [List.getLast?_singleton]
    split at hother
    · next hempty =>
      simp only [hempty, if_true]
      split at hother
      · next v hnext =>
        rw [hnext]
        exact ⟨_, rfl, take_append_cons_ne hat (by simp)⟩
      · simp at hother
    · next hfull =>
      obtain ⟨v, rfl⟩ : ∃ v, orelse = [.ret (some v)] := by
        unfold Idiom.returnsValue at hother
        split at hother
        · exact ⟨_, rfl⟩
        · simp at hother
      exact ⟨_, rfl, take_append_cons_ne hat (by simp)⟩
  · simp at h

theorem hoistElse_changes (b : Block) (i : Nat) (h : Idiom.isElseAfterReturn b i = true) :
    ∃ new, hoistElse b i = some new ∧ new ≠ b := by
  unfold Idiom.isElseAfterReturn at h
  split at h
  · next test body orelse hat =>
    have horelse : orelse ≠ [] := by
      rintro rfl
      simp at h
    refine ⟨_, by rw [hoistElse, hat], take_append_cons_ne hat ?_⟩
    intro he
    exact horelse (Stmt.cond.inj he).2.2.symm
  · simp at h

theorem nonempty_eraseIdx_of_isPrint (b : Block) (i : Nat) (h : Idiom.isPrint b i = true) :
    ∃ new, some (nonempty (b.eraseIdx i)) = some new ∧ new ≠ b := by
  cases hs : b[i]? with
  | none => simp [Idiom.isPrint, hs] at h
  | some s =>
    refine ⟨_, rfl, nonempty_eraseIdx_ne hs ?_⟩
    rintro rfl
    simp [Idiom.isPrint, hs, Stmt.isCallTo] at h

/-! ### Loops -/

theorem lt_length_of_loopBuild? {init : Expr → Bool} {step : String → Stmt → Option Expr}
    {b : Block} {i : Nat} {build : Idiom.LoopBuild}
    (h : Idiom.loopBuild? init step b i = some build) : i + 1 < b.length := by
  unfold Idiom.loopBuild? at h
  simp only [Option.bind_eq_bind, Option.bind_eq_some_iff] at h
  obtain ⟨_, _, _, _, s, hs, _⟩ := h
  exact lt_length_of_getElem? hs

/-- A loop that is put in one statement with its start value leaves a shorter block. -/
theorem collapse_ne {b : Block} {i : Nat} (h : i + 1 < b.length) (accumulator : String)
    (value : Expr) : collapse b i accumulator value ≠ b := by
  intro he
  have hlen := congrArg List.length he
  simp only [collapse, List.length_append, List.length_take, List.length_cons,
    List.length_drop] at hlen
  omega

theorem collapse_changes {init : Expr → Bool} {step : String → Stmt → Option Expr}
    (value : Idiom.LoopBuild → Expr) (b : Block) (i : Nat)
    (h : (Idiom.loopBuild? init step b i).isSome = true) :
    ∃ new, ((Idiom.loopBuild? init step b i).map fun x =>
      collapse b i x.accumulator (value x)) = some new ∧ new ≠ b := by
  obtain ⟨build, hbuild⟩ := Option.isSome_iff_exists.mp h
  rw [hbuild]
  exact ⟨_, rfl, collapse_ne (lt_length_of_loopBuild? hbuild) _ _⟩

theorem iterateElements_changes (element : String) (b : Block) (i : Nat)
    (h : Idiom.isIndexIteration b i = true) :
    ∃ new, iterateElements element b i = some new ∧ new ≠ b := by
  obtain ⟨⟨index, sequence⟩, hloop⟩ := Option.isSome_iff_exists.mp h
  have hat : ∃ target iter body orelse, b[i]? = some (.forLoop target iter body orelse) ∧
      iter ≠ .name sequence := by
    unfold Idiom.indexIteration? at hloop
    split at hloop
    · next target iter body hb =>
      simp only [Option.bind_eq_bind, Option.bind_eq_some_iff] at hloop
      obtain ⟨range, hrange, hrest⟩ := hloop
      refine ⟨_, _, _, _, hb, ?_⟩
      rintro rfl
      simp [Idiom.rangeOfLength?, Expr.asSimpleCall?] at hrange
    · simp at hloop
  obtain ⟨target, iter, body, orelse, hb, hiter⟩ := hat
  refine ⟨_, by rw [iterateElements, hloop, hb], ?_⟩
  intro he
  have hget := congrArg (·[i]?) he
  simp only [List.getElem?_set_self (lt_length_of_getElem? hb), hb, Option.some.injEq] at hget
  exact hiter (Stmt.forLoop.inj hget).2.1.symm

/-! ### Values carried to a return -/

theorem eq_of_asNameAssign? {s : Stmt} {n : String} {v : Expr}
    (h : s.asNameAssign? = some (n, v)) : s = .assign [.name n] v none := by
  unfold Stmt.asNameAssign? at h
  split at h
  · simp_all
  · simp at h

/-- An assignment to one name and nothing else. -/
def IsNameAssign (s : Stmt) : Prop := ∃ target value, s = .assign [.name target] value none

/-- What a return gives back when it takes up an assignment. -/
def absorb : Stmt → Expr → Expr
  | .assign (.name target :: _) value _, e => e.substitute target value
  | _, e => e

/-- The assignment right before a return leaves the block, and the return takes it up. -/
theorem foldReturn_succ (count : Nat) (before after : Block) (target : String) (value e : Expr) :
    foldReturn (count + 1)
        ((before ++ [.assign [.name target] value none]) ++ .ret (some e) :: after) (before.length + 1) =
      foldReturn count (before ++ .ret (some (e.substitute target value)) :: after) before.length := by
  rw [foldReturn, List.append_assoc, List.singleton_append,
    List.getElem?_append_right (Nat.le_refl _), Nat.sub_self, List.getElem?_cons_zero]
  dsimp only
  rw [List.eraseIdx_append_of_length_le (Nat.le_refl _), Nat.sub_self, List.eraseIdx_cons_zero,
    List.modify_eq_take_cons_drop (by simp)]
  simp [takeUp]

/-- All assignments of a chain leave the block, and the return takes them up from the last to the first. -/
theorem foldReturn_append (before after : Block) {chain : Block} (h : ∀ s ∈ chain, IsNameAssign s)
    (e : Expr) :
    foldReturn chain.length (before ++ chain ++ .ret (some e) :: after) (before ++ chain).length =
      some (before ++ .ret (some (chain.foldr absorb e)) :: after) := by
  induction chain using List.reverseRecOn generalizing e with
  | nil => simp [foldReturn]
  | append_singleton chain s ih =>
    obtain ⟨target, value, rfl⟩ := h s (by simp)
    have hrest := ih (fun s hs => h s (List.mem_append_left _ hs)) (e.substitute target value)
    rw [List.length_append, List.length_singleton, ← List.append_assoc, List.length_append,
      List.length_singleton, foldReturn_succ, hrest, List.foldr_append]
    rfl

/-- Right before position `i` there are `n` assignments to a name. -/
def Assigned (n : Nat) (block : Block) (i : Nat) : Prop :=
  ∀ j < n, j < i ∧ ∃ target value, block[i - 1 - j]? = some (.assign [.name target] value none)

/-- The links of a chain are assignments to a name. -/
theorem asNameAssign?_of_furtherLinks {target : String} {before : Block} {j : Nat}
    (hhead : (before.head?.bind Stmt.asNameAssign?).isSome = true)
    (hj : j ≤ Idiom.furtherLinks target before) :
    ∃ s, before[j]? = some s ∧ (s.asNameAssign?).isSome = true := by
  fun_induction Idiom.furtherLinks target before generalizing j with
  | case1 later earlier rest _ _ _ _ hearlier _ _ ih =>
    cases j with
    | zero => exact ⟨later, rfl, by simpa using hhead⟩
    | succ j =>
      rw [List.getElem?_cons_succ]
      exact ih (by simp [hearlier]) (by omega)
  | _ =>
    obtain rfl : j = 0 := by omega
    rw [← List.head?_eq_getElem?]
    cases hb : List.head? _ with
    | none => simp [hb] at hhead
    | some s => exact ⟨s, rfl, by simpa [hb] using hhead⟩

/-- A chain is as long as there are assignments before the return. -/
theorem assigned_returnChainLength (b : Block) (i : Nat) :
    Assigned (Idiom.returnChainLength b i) b i := by
  intro j hj
  unfold Idiom.returnChainLength at hj
  split at hj
  · next returned hat =>
    simp only at hj
    split at hj
    · next target value hhead =>
      split at hj
      · obtain ⟨s, hs, hassign⟩ :=
          asNameAssign?_of_furtherLinks (by rw [hhead]; rfl) (Nat.lt_succ_iff.mp hj)
        have hi := lt_length_of_getElem? hat
        have hjlen := lt_length_of_getElem? hs
        rw [List.length_reverse, List.length_take_of_le (by omega)] at hjlen
        rw [List.getElem?_reverse (by rw [List.length_take_of_le (by omega)]; omega),
          List.length_take_of_le (by omega), List.getElem?_take_of_lt (by omega)] at hs
        obtain ⟨⟨n, v⟩, hnv⟩ := Option.isSome_iff_exists.mp hassign
        exact ⟨hjlen, n, v, by rw [hs, eq_of_asNameAssign? hnv]⟩
      · simp at hj
    · simp at hj
  · simp at hj

/-- No more statements stand before a position than its number. -/
theorem Assigned.le {n : Nat} {block : Block} {i : Nat} (h : Assigned n block i) : n ≤ i := by
  cases n with
  | zero => exact Nat.zero_le i
  | succ n =>
    have hlast := (h n n.lt_succ_self).1
    omega

/-- The assignments right before a position are the last statements before it. -/
theorem Assigned.isNameAssign {n : Nat} {block : Block} {i : Nat} (h : Assigned n block i) :
    ∀ s ∈ (block.take i).drop (i - n), IsNameAssign s := by
  intro s hs
  obtain ⟨k, hk, rfl⟩ := List.mem_iff_getElem.mp hs
  rw [List.length_drop, List.length_take] at hk
  obtain ⟨-, target, value, hat⟩ := h (i - 1 - (i - n + k)) (by omega)
  refine ⟨target, value, ?_⟩
  rw [show i - 1 - (i - 1 - (i - n + k)) = i - n + k by omega] at hat
  rw [List.getElem_drop, List.getElem_take]
  exact List.getElem_eq_iff _ |>.mpr hat

theorem Assigned.mono {m n : Nat} {block : Block} {i : Nat} (h : Assigned n block i) (hmn : m ≤ n) :
    Assigned m block i :=
  fun j hj => h j (Nat.lt_of_lt_of_le hj hmn)

/-- Only a return of a value takes up assignments. -/
theorem exists_return {block : Block} {i : Nat} (h : Idiom.isReturnChain block i = true) :
    ∃ e, block[i]? = some (.ret (some e)) := by
  have hpos : 0 < Idiom.returnChainLength block i := of_decide_eq_true h
  unfold Idiom.returnChainLength at hpos
  split at hpos
  · next e hat => exact ⟨e, hat⟩
  · cases hpos

/-- Right before a return there are the assignments that it takes up. -/
theorem exists_chain {block : Block} {i : Nat} (h : Idiom.isReturnChain block i = true) {n : Nat}
    (hn : n ≤ Idiom.returnChainLength block i) : ∃ before chain e after,
      block = before ++ chain ++ .ret (some e) :: after ∧ (before ++ chain).length = i ∧
      chain.length = n ∧ ∀ s ∈ chain, IsNameAssign s := by
  obtain ⟨e, hat⟩ := exists_return h
  have hassigned := (assigned_returnChainLength block i).mono hn
  have hi := lt_length_of_getElem? hat
  have hle := hassigned.le
  have hsplit : block.take (i - n) ++ (block.take i).drop (i - n) = block.take i := by
    have h := List.take_append_drop (i - n) (block.take i)
    rwa [List.take_take, Nat.min_eq_left (Nat.sub_le i n)] at h
  refine ⟨block.take (i - n), (block.take i).drop (i - n), e, block.drop (i + 1), ?_, ?_, ?_,
    hassigned.isNameAssign⟩
  · have hdrop : block.drop i = .ret (some e) :: block.drop (i + 1) := by
      rw [List.drop_eq_getElem_cons hi, (List.getElem_eq_iff hi).mpr hat]
    rw [hsplit, ← hdrop, List.take_append_drop]
  · rw [hsplit, List.length_take_of_le (Nat.le_of_lt hi)]
  · rw [List.length_drop, List.length_take_of_le (Nat.le_of_lt hi)]
    omega

/-- A chain is folded unless nothing of it is asked for. -/
theorem inlineChain_eq_foldReturn {block : Block} {i : Nat} (h : Idiom.isReturnChain block i = true)
    (wanted : Nat) : inlineChain wanted block i =
      if wanted = 0 then none else foldReturn (min wanted (Idiom.returnChainLength block i)) block i := by
  have hpos : 0 < Idiom.returnChainLength block i := of_decide_eq_true h
  unfold inlineChain
  split
  · next hzero => rw [if_pos (by omega)]
  · next hcount => rw [if_neg fun hzero => hcount (by rw [hzero, Nat.zero_min])]

/-- The edit at a return that can take up assignments goes through for every number that is asked for. As
many assignments right before the return as there are, and at most that number, leave the block, the
return takes them up in their place, and every other statement stays. -/
theorem inlineChain_exact (wanted : Nat) (block : Block) (i : Nat) :
    Idiom.returnChainLength block i ≤ i ∧
      (Idiom.isReturnChain block i = true → ∃ before chain e after,
        block = before ++ chain ++ .ret (some e) :: after ∧ (before ++ chain).length = i ∧
        chain.length = min wanted (Idiom.returnChainLength block i) ∧
        (∀ s ∈ chain, IsNameAssign s) ∧
        foldReturn chain.length block i = some (before ++ .ret (some (chain.foldr absorb e)) :: after) ∧
        inlineChain wanted block i =
          if wanted = 0 then none
          else some (before ++ .ret (some (chain.foldr absorb e)) :: after)) := by
  refine ⟨(assigned_returnChainLength block i).le, fun h => ?_⟩
  obtain ⟨before, chain, e, after, hblock, hi, hlength, hchain⟩ := exists_chain h (Nat.min_le_right wanted _)
  have hfold := foldReturn_append before after hchain e
  rw [← hblock, hi] at hfold
  refine ⟨before, chain, e, after, hblock, hi, hlength, hchain, hfold, ?_⟩
  rw [inlineChain_eq_foldReturn h, ← hlength, hfold]

/-- Of two assignments before a return, one is asked for, and the other one stays. -/
theorem inlineChain_exact_one :
    let t : Expr := .name "t"
    let block : Block := [.pass, .assign [t] (.int 1) none, .assign [t] (.bin .add t (.int 2)) none,
      .ret (some (.bin .mul t (.int 3)))]
    Idiom.isReturnChain block 3 = true ∧ Idiom.returnChainLength block 3 = 2 ∧
      ∃ before chain e after,
        block = before ++ chain ++ .ret (some e) :: after ∧ (before ++ chain).length = 3 ∧
        chain.length = 1 ∧ (∀ s ∈ chain, IsNameAssign s) ∧
        inlineChain 1 block 3 = some (before ++ .ret (some (chain.foldr absorb e)) :: after) := by
  intro t block
  have hchain : Idiom.isReturnChain block 3 = true := by decide +kernel
  have hlength : Idiom.returnChainLength block 3 = 2 := by decide +kernel
  obtain ⟨before, chain, e, after, hblock, hi, hcount, hassign, -, hedit⟩ :=
    (inlineChain_exact 1 block 3).2 hchain
  rw [hlength] at hcount
  exact ⟨hchain, hlength, before, chain, e, after, hblock, hi, hcount, hassign, hedit⟩

/-- A return takes up the whole chain before it. -/
theorem inlineChain_changes (b : Block) (i : Nat) (h : Idiom.isReturnChain b i = true) :
    ∃ new, inlineChain (Idiom.returnChainLength b i) b i = some new ∧ new ≠ b := by
  have hpos : 0 < Idiom.returnChainLength b i := of_decide_eq_true h
  obtain ⟨before, chain, e, after, hblock, hi, hlength, hchain⟩ := exists_chain h (Nat.le_refl _)
  have hfold := foldReturn_append before after hchain e
  rw [← hblock, hi, hlength] at hfold
  refine ⟨before ++ .ret (some (chain.foldr absorb e)) :: after, ?_, ?_⟩
  · rw [inlineChain_eq_foldReturn h, if_neg (Nat.ne_of_gt hpos), Nat.min_self, hfold]
  · intro hsame
    have hshort := congrArg List.length (hsame.trans hblock)
    simp only [List.length_append, List.length_cons] at hshort
    omega

end Strategy

end Concord
