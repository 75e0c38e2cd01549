import Concord.Difference.Explain
import Concord.Profile.Extract
import Concord.Proofs.Tree.Mirror

/-!
# Operands in another order

The facet of operators lists the signatures of all commutative operations of the normal form; a
report takes the first one whose operands stand the other way in the canon, and points to the
operation with the same number in the module itself. That operation has two different operands:
equal operands have the same sign in the normal form, and a signature with two equal signs is its
own reverse.

Main statement: `Explain.operands_ne`.
-/

namespace Concord

/-! ## Texts split at a character -/

namespace Text

variable {sep : Char}

theorem splitAt_append {xs : List Char} (h : sep ∉ xs) (ys : List Char) :
    splitAt sep (xs ++ sep :: ys) = xs :: splitAt sep ys := by
  induction xs with
  | nil => simp [splitAt]
  | cons x xs ih =>
    simp only [List.mem_cons, not_or] at h
    rw [List.cons_append, splitAt, ih h.2]
    simp [Ne.symm h.1]

theorem splitAt_ne_nil (sep : Char) (xs : List Char) : splitAt sep xs ≠ [] := by
  cases xs with
  | nil => simp [splitAt]
  | cons x xs =>
    rw [splitAt]
    split
    · simp
    · split <;> simp

/-- The pieces of a text joined by the character give the text back. -/
theorem intercalate_splitAt (sep : Char) (xs : List Char) :
    [sep].intercalate (splitAt sep xs) = xs := by
  induction xs with
  | nil => simp [splitAt]
  | cons x xs ih =>
    obtain ⟨piece, pieces, hsplit⟩ := List.exists_cons_of_ne_nil (splitAt_ne_nil sep xs)
    rw [hsplit] at ih
    rw [splitAt, hsplit]
    split
    · next hx =>
      rw [List.intercalate_cons_cons, ih, eq_of_beq hx]
      rfl
    · cases pieces with
      | nil => simp_all
      | cons next rest =>
        rw [List.intercalate_cons_cons] at ih ⊢
        rw [← ih]
        simp

end Text

/-! ## Signatures -/

namespace Idiom

/-- A sign is a word, so it has no comma. -/
theorem comma_notMem_operandSign (params : List String) (e : Expr) :
    ',' ∉ (operandSign params e).toList := by
  unfold operandSign
  split
  · next i hi =>
    have hdigits : (toString i).toList = Nat.toDigits 10 i := Nat.toList_repr
    rw [String.toList_append, hdigits, List.mem_append, not_or]
    refine ⟨by decide, ?_⟩
    intro hmem
    have hdigit := Nat.isDigit_of_mem_toDigits (by decide) (by decide) hmem
    exact absurd hdigit (by decide)
  · unfold operandClass
    split
    any_goals decide
    split <;> decide

theorem colon_notMem_symbol {op : BinOp} (h : op.isCommutative = true) :
    ':' ∉ op.symbol.toList := by
  cases op with
  | add | mul | bitOr | bitXor | bitAnd => decide
  | _ => simp [BinOp.isCommutative] at h

/-- The sign of an operand does not depend on how many placeholders are in use. -/
theorem operandSign_expr (params : List String) (scopes : Scopes) (e : Expr) (j k : Nat) :
    operandSign params (Normal.expr scopes e j).1 =
      operandSign params (Normal.expr scopes e k).1 := by
  cases e with
  | comp kind e v cs => cases cs <;> rfl
  | _ => rfl

end Idiom

namespace Explain

/-- A signature with two equal signs is its own reverse. -/
theorem reversed?_same {op sign : String} (hop : ':' ∉ op.toList) (hsign : ',' ∉ sign.toList) :
    reversed? (op ++ ":" ++ sign ++ "," ++ sign) = some (op ++ ":" ++ sign ++ "," ++ sign) := by
  have htext : (op ++ ":" ++ sign ++ "," ++ sign).toList =
      op.toList ++ ':' :: (sign.toList ++ ',' :: sign.toList) := by
    simp [String.toList_append]
  -- The rest after the operator is split and joined again, so further colons in it do no harm.
  obtain ⟨first, rest, hrest⟩ := List.exists_cons_of_ne_nil
    (Text.splitAt_ne_nil ':' (sign.toList ++ ',' :: sign.toList))
  obtain ⟨left, right, hright⟩ := List.exists_cons_of_ne_nil
    (Text.splitAt_ne_nil ',' sign.toList)
  have hjoin := Text.intercalate_splitAt ':' (sign.toList ++ ',' :: sign.toList)
  have hjoin' := Text.intercalate_splitAt ',' sign.toList
  rw [hrest] at hjoin
  rw [hright] at hjoin'
  unfold reversed?
  rw [htext, Text.splitAt_append hop, hrest]
  simp only [hjoin, Text.splitAt_append hsign, hright, hjoin']
  rw [← htext, String.ofList_toList]

/-- A commutative operation with two equal operands has a signature that is its own reverse. -/
theorem reversed?_signature {params : List String} {scopes : Scopes} {op : BinOp} {e : Expr}
    {k : Nat} {sig : String}
    (h : Idiom.signature? params (Normal.expr scopes (.bin op e e) k).1 = some sig) :
    reversed? sig = some sig := by
  have hform : (Normal.expr scopes (.bin op e e) k).1 = .bin op (Normal.expr scopes e k).1
      (Normal.expr scopes e (Normal.expr scopes e k).2).1 := rfl
  rw [hform, Idiom.signature?] at h
  split at h
  · next hop =>
    rw [Idiom.operandSign_expr params scopes e (Normal.expr scopes e k).2 k] at h
    rw [← Option.some.inj h]
    exact reversed?_same (Idiom.colon_notMem_symbol hop) (Idiom.comma_notMem_operandSign _ _)
  · simp at h

/-! ## Signatures and sites -/

/-- The operation that a site leads to, and the signature of its normal form. -/
def Signed (m : Module) (site : Site) (sig : String) : Prop :=
  ∃ f ∈ m.functions, site.function = f.name ∧
    ∃ e, (Block.find Idiom.isCommutative f.body)[site.occurrence]? = some e ∧
      ∃ params scopes k, Idiom.signature? params (Normal.expr scopes e k).1 = some sig

/-- An operation has a signature exactly if its operator is commutative, also in the normal form. -/
theorem isSome_signature? (params : List String) (scopes : Scopes) (e : Expr) (k : Nat) :
    (Idiom.signature? params (Normal.expr scopes e k).1).isSome = Idiom.isCommutative e := by
  cases e with
  | bin op l r =>
    have hform : (Normal.expr scopes (.bin op l r) k).1 = .bin op (Normal.expr scopes l k).1
      (Normal.expr scopes r (Normal.expr scopes l k).2).1 := rfl
    rw [hform, Idiom.signature?, Idiom.isCommutative]
    split <;> simp_all
  | comp kind e v cs => cases cs <;> rfl
  | _ => rfl

/-- The commutative operations of a list and the signatures of their normal forms, one by one. -/
theorem forall₂_signatures (params : List String) {es es' : List Expr}
    (h : List.Forall₂ Normal.IsFormOf es es') :
    List.Forall₂ (fun e sig => ∃ scopes k,
        Idiom.signature? params (Normal.expr scopes e k).1 = some sig)
      (es.filter Idiom.isCommutative) (es'.filterMap (Idiom.signature? params)) := by
  induction h with
  | nil => exact .nil
  | @cons e e' es es' he _ ih =>
    obtain ⟨scopes, k, rfl⟩ := he
    have hsome := isSome_signature? params scopes e k
    cases hsig : Idiom.signature? params (Normal.expr scopes e k).1 with
    | none =>
      rw [hsig] at hsome
      rw [List.filter_cons_of_neg (by simp [← hsome]), List.filterMap_cons_none hsig]
      exact ih
    | some sig =>
      rw [hsig] at hsome
      rw [List.filter_cons_of_pos (by simp [← hsome]), List.filterMap_cons_some hsig]
      exact .cons ⟨scopes, k, hsig⟩ ih

/-- Numbers in the place of the elements of a list. -/
theorem forall₂_range {α β : Type} {R : α → β → Prop} {xs : List α} {ys : List β}
    (h : List.Forall₂ R xs ys) :
    List.Forall₂ (fun k y => ∃ x, xs[k]? = some x ∧ R x y) (List.range xs.length) ys := by
  induction h with
  | nil => exact .nil
  | @cons x y xs ys hxy _ ih =>
    rw [List.length_cons, List.range_succ_eq_map]
    refine .cons ⟨x, rfl, hxy⟩ ?_
    rw [List.forall₂_map_left_iff]
    exact ih

/-- The listed signatures belong, one by one, to the sites of commutative operations. -/
theorem forall₂_signed (m : Module) :
    List.Forall₂ (Signed m) (Idiom.exprSites Idiom.isCommutative m)
      m.normalize.algebraic.commutativeOrders := by
  have hfunctions : ∀ fs : List Function, fs ⊆ m.functions →
      List.Forall₂ (Signed m)
        (fs.flatMap fun f => (List.range (Block.count Idiom.isCommutative f.body)).map
          (Site.mk f.name))
        ((fs.map Normal.function).flatMap fun f =>
          (Block.exprs f.body).filterMap (Idiom.signature? f.paramNames)) := by
    intro fs
    induction fs with
    | nil => exact fun _ => .nil
    | cons f fs ih =>
      intro hsub
      have hf : f ∈ m.functions := hsub List.mem_cons_self
      rw [List.flatMap_cons, List.map_cons, List.flatMap_cons]
      refine List.rel_append ?_ (ih fun g hg => hsub (List.mem_cons_of_mem f hg))
      rw [List.forall₂_map_left_iff]
      have hsigs := forall₂_range
        (forall₂_signatures (Normal.function f).paramNames (Normal.exprs_function f))
      refine hsigs.imp ?_
      rintro k sig ⟨e, he, scopes, j, hsig⟩
      exact ⟨f, hf, rfl, e, he, _, scopes, j, hsig⟩
  have h := hfunctions m.functions (List.Subset.refl _)
  rw [← Module.functions_normalize] at h
  exact h

/-- Where the operands of an operation stand the other way in the canon, they are different. -/
theorem operands_ne {m : Module} {theirs : List String} {i : Nat} {site : Site}
    (hswapped : swapped? m.normalize.algebraic.commutativeOrders theirs = some i)
    (hsite : (Idiom.exprSites Idiom.isCommutative m)[i]? = some site) :
    ∃ f ∈ m.functions, site.function = f.name ∧
      ∃ op l r, (Block.find Idiom.isCommutative f.body)[site.occurrence]? = some (.bin op l r) ∧
        op.isCommutative = true ∧ l ≠ r := by
  obtain ⟨hlt, hrev, -⟩ := List.findIdx?_eq_some_iff_getElem.mp hswapped
  rw [List.getElem_zip, Bool.and_eq_true, bne_iff_ne, beq_iff_eq] at hrev
  obtain ⟨hne, hrev⟩ := hrev
  obtain ⟨hi, rfl⟩ := List.getElem?_eq_some_iff.mp hsite
  have hsigned := (forall₂_signed m).get hi (by simp at hlt; omega)
  obtain ⟨f, hf, hname, e, he, params, scopes, k, hsig⟩ := hsigned
  have hcomm : Idiom.isCommutative e = true :=
    (List.mem_filter.mp (List.mem_of_getElem? he)).2
  cases e with
  | bin op l r =>
    refine ⟨f, hf, hname, op, l, r, he, hcomm, ?_⟩
    rintro rfl
    exact hne (Option.some.inj ((reversed?_signature hsig).symm.trans hrev))
  | _ => simp [Idiom.isCommutative] at hcomm

end Explain

end Concord
