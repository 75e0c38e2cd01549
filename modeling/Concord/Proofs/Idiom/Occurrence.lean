import Concord.Proofs.Idiom.Position

/-!
# Occurrences in normal forms

A loop over indices is recognized by counting: the index occurs as often as the element does, and neither
the index nor the sequence is bound in the loop. A value is never read if no later statement mentions its
name. A normal form binds and mentions a name where the tree does, if no scope inside binds it anew.

Main statements: `Idiom.isIndexIteration_stmtList` and `Idiom.deadStores_function`.
-/

namespace Concord

open Normal Scopes

/-! ## Names that a block binds -/

/-- The names that a statement kept as written binds. -/
def Node.kept : Node → List String
  | .stmt (.verbatim _ _ binds) => binds
  | _ => []

namespace Stmt

/-- The names of a list are those of a shorter one and names that statements kept as written bind. -/
def KeptUp (xs : List Node) (narrow wide : List String) : Prop :=
  ∀ n ∈ wide, n ∈ narrow ∨ ∃ x ∈ xs, n ∈ x.kept

theorem KeptUp.refl (xs : List Node) (ns : List String) : KeptUp xs ns ns := fun _ hn => .inl hn

theorem KeptUp.append {xs ys : List Node} {narrow narrow' wide wide' : List String}
    (h : KeptUp xs narrow wide) (h' : KeptUp ys narrow' wide') :
    KeptUp (xs ++ ys) (narrow ++ narrow') (wide ++ wide') := by
  intro n hn
  rcases List.mem_append.mp hn with hn | hn
  · exact (h n hn).imp (List.mem_append_left _) fun ⟨x, hx, hk⟩ => ⟨x, List.mem_append_left _ hx, hk⟩
  · exact (h' n hn).imp (List.mem_append_right _) fun ⟨x, hx, hk⟩ => ⟨x, List.mem_append_right _ hx, hk⟩

theorem KeptUp.cons {xs : List Node} {narrow wide : List String} (x : Node) (h : KeptUp xs narrow wide) :
    KeptUp (x :: xs) narrow wide :=
  fun n hn => (h n hn).imp_right fun ⟨y, hy, hk⟩ => ⟨y, List.mem_cons_of_mem x hy, hk⟩

mutual

/-- A name is bound by a statement that is renamed or by one that is kept as written. -/
theorem keptUp_bound : (s : Stmt) → KeptUp s.nodes (bound false s) (bound true s)
  | .forLoop t i body orelse =>
    .cons _ ((KeptUp.refl (exprNodes (i.subterms ++ t.subterms)) t.targetNames).append
      ((keptUp_boundList body).append (keptUp_boundList orelse)))
  | .cond t body orelse | .whileLoop t body orelse =>
    .cons _ ((KeptUp.refl (exprNodes t.subterms) []).append
      ((keptUp_boundList body).append (keptUp_boundList orelse)))
  | .tryBlock body hs orelse final =>
    .cons _ ((keptUp_boundList body).append ((keptUp_boundHandlers hs).append
      ((keptUp_boundList orelse).append (keptUp_boundList final))))
  | .verbatim _ _ _ => fun _ hn => .inr ⟨_, List.mem_cons_self, hn⟩
  | .define _ | .ret _ | .assign _ _ _ | .augAssign _ _ _ | .expr _ | .raise _ _ | .assert _ _
  | .importNames _ | .importFrom _ _ | .globals _ | .nonlocals _ | .pass | .break | .continue => .refl _ _

theorem keptUp_boundList : (b : List Stmt) → KeptUp (nodesList b) (boundList false b) (boundList true b)
  | [] => .refl _ _
  | s :: ss => (keptUp_bound s).append (keptUp_boundList ss)

theorem keptUp_boundHandlers : (hs : List (HandlerOf Stmt)) →
    KeptUp (nodesHandlers hs) (boundHandlers false hs) (boundHandlers true hs)
  | [] => .refl _ _
  | ⟨type, name, body⟩ :: hs =>
    (KeptUp.refl (exprNodes (Expr.subtermsOption type)) name.toList).append
      ((keptUp_boundList body).append (keptUp_boundHandlers hs))

end

end Stmt

namespace Node

variable {x : Node} {n : String}

theorem kept_subset_opened (x : Node) : x.kept ⊆ x.opened := by
  intro n hn
  cases x with
  | expr e => cases hn
  | stmt s =>
    cases s with
    | verbatim kind text binds => exact hn
    | _ => cases hn

theorem Lucid.unreserved_mentioned (h : x.Lucid) (hn : n ∈ x.mentioned) : isReserved n = false :=
  h.plain n (List.mem_append_left _ (List.mem_append_left _ hn))

theorem Lucid.unreserved_spelled (h : x.Lucid) (hn : n ∈ x.spelled) : isReserved n = false := by
  refine h.plain n (List.mem_append_left _ (List.mem_append.mpr ?_))
  exact mem_mentioned_or_imported hn

theorem Lucid.unreserved_kept (h : x.Lucid) (hn : n ∈ x.kept) : isReserved n = false :=
  h.plain n (List.mem_append_right _ (kept_subset_opened x hn))

end Node

namespace Normal

variable {S : Scopes} {k : Nat} {n : String} {spared : List String}

theorem SeenNode.kept_eq {x x' : Node} (h : SeenNode S spared x x') : x'.kept = x.kept := by
  cases h with
  | expr h => rfl
  | stmt s hR => cases s <;> rfl

theorem exists_of_forall₂ {α β : Type} {r : α → β → Prop} {xs : List α} {ys : List β}
    (h : List.Forall₂ r xs ys) {y : β} (hy : y ∈ ys) : ∃ x ∈ xs, r x y := by
  induction h with
  | nil => cases hy
  | cons hxy _ ih =>
    rcases List.mem_cons.mp hy with rfl | hy
    · exact ⟨_, List.mem_cons_self, hxy⟩
    · obtain ⟨x, hx, h⟩ := ih hy
      exact ⟨x, List.mem_cons_of_mem _ hx, h⟩

/-- The normal form of a block binds the names that the block binds. -/
theorem mem_boundList_stmtList {b : Block} (hS : Placeholders.Between 0 k S.flatten)
    (hn : isReserved n = false) (hlucid : ∀ x ∈ Stmt.nodesList b, x.Lucid)
    (hopened : ∀ x ∈ Stmt.nodesList b, n ∉ x.opened) :
    S.rename n ∈ Stmt.boundList true (stmtList S b k).1 ↔ n ∈ Stmt.boundList true b := by
  constructor
  · intro h
    rcases Stmt.keptUp_boundList _ _ h with h | ⟨x', hx', hkept⟩
    · rw [boundList_stmt] at h
      obtain ⟨m, hm, he⟩ := List.mem_map.mp h
      obtain ⟨x, hx, hspelled⟩ := Stmt.mem_spelled_of_mem_boundList b hm
      have hmn := (rename_inj hS ((hlucid x hx).unreserved_spelled hspelled) hn).mp he
      exact (Stmt.boundList_sublist b).subset (hmn ▸ hm)
    · obtain ⟨x, hx, hseen⟩ := exists_of_forall₂
        (nodesList_seen b (fun _ _ _ _ => List.not_mem_nil) (Within.refl hS [])) hx'
      rw [hseen.kept_eq] at hkept
      -- A name that is kept as written is no placeholder.
      rcases rename_cases hS n with ⟨-, hreserved⟩ | hstays
      · rw [(hlucid x hx).unreserved_kept hkept] at hreserved
        cases hreserved
      · rw [hstays] at hkept
        exact absurd (Node.kept_subset_opened x hkept) (hopened x hx)
  · intro h
    rcases Stmt.keptUp_boundList b n h with h | ⟨x, hx, hkept⟩
    · refine (Stmt.boundList_sublist _).subset ?_
      rw [boundList_stmt]
      exact List.mem_map_of_mem h
    · exact absurd (Node.kept_subset_opened x hkept) (hopened x hx)

end Normal

namespace Idiom

variable {S R : Scopes} {k j : Nat} {n index sequence : String} {spared : List String} {b : Block}

/-! ## Parts of a normal form -/

/-- The expressions of a normal form, for names that are not bound anew. -/
theorem exprs_seen (hS : Placeholders.Between 0 k S.flatten)
    (hplain : ∀ x ∈ Stmt.nodesList b, ∀ m ∈ x.mentioned, isReserved m = false)
    (hspared : SparesNodes spared (Stmt.nodesList b)) :
    List.Forall₂ (fun e e' => Unreserved e ∧ Seen S spared e e') (Block.exprs b)
      (Block.exprs (stmtList S b k).1) := by
  have hnodes := (List.forall₂_and_left (Stmt.nodesList b) _).mpr
    ⟨fun x hx y hy => hplain y (Stmt.closed_nodesList b x hx hy),
      nodesList_seen b hspared (Within.refl hS spared)⟩
  refine List.rel_filterMap ?_ hnodes
  rintro x x' ⟨hx, h⟩
  cases h with
  | expr h => exact .some ⟨fun y hy => hx (.expr y) (List.mem_map_of_mem hy), h⟩
  | stmt s hR => exact .none

/-- A normal form of a statement in scopes inside of `S`, for names that are not bound anew. -/
def SeenStmt (S : Scopes) (spared : List String) (s s' : Stmt) : Prop :=
  (∀ x ∈ s.nodes, (∀ m ∈ x.mentioned, isReserved m = false) ∧ ∀ m ∈ x.opened, m ∉ spared) ∧
    ∃ R j, Within S spared R j ∧ s' = (stmt R s j).1

/-- The statements of a normal form. -/
theorem stmts_seen (hS : Placeholders.Between 0 k S.flatten)
    (hplain : ∀ x ∈ Stmt.nodesList b, ∀ m ∈ x.mentioned, isReserved m = false)
    (hspared : SparesNodes spared (Stmt.nodesList b)) :
    List.Forall₂ (SeenStmt S spared) (Block.stmts b) (Block.stmts (stmtList S b k).1) := by
  have hnodes := (List.forall₂_and_left (Stmt.nodesList b) _).mpr
    ⟨fun x hx => Stmt.closed_nodesList b x hx, nodesList_seen b hspared (Within.refl hS spared)⟩
  refine List.rel_filterMap ?_ hnodes
  rintro x x' ⟨hx, h⟩
  cases h with
  | expr h => exact .none
  | stmt s hR => exact .some ⟨fun y hy => ⟨hplain y (hx hy), hspared y (hx hy)⟩, _, _, hR, rfl⟩

/-! ## Loops over indices -/

theorem isElement_seen {e e' : Expr} (hsequence : sequence ∈ spared ∧ isReserved sequence = false)
    (hindex : index ∈ spared ∧ isReserved index = false) (he : Unreserved e) (h : Seen S spared e e') :
    isElement (S.rename sequence) (S.rename index) e' = isElement sequence index e := by
  obtain ⟨R, k, hR, rfl⟩ := h
  cases e with
  | subscript v i =>
    have hv := he v (List.mem_cons_of_mem _ (List.mem_append_left _ v.mem_subterms_self))
    have hi := he i (List.mem_cons_of_mem _ (List.mem_append_right _ i.mem_subterms_self))
    show ((expr R v k).1.isName (S.rename sequence) &&
      (expr R i (expr R v k).2).1.isName (S.rename index)) = _
    rw [isName_seen hsequence.1 hsequence.2 hv ⟨R, k, hR, rfl⟩,
      isName_seen hindex.1 hindex.2 hi ⟨R, _, hR.expr v, rfl⟩]
    rfl
  | comp kind e v cs => cases cs <;> rfl
  | _ => rfl

/-- Whether an element occurs in an expression. -/
theorem occurs_expr {e : Expr} (hsequence : sequence ∈ spared ∧ isReserved sequence = false)
    (hindex : index ∈ spared ∧ isReserved index = false) (hR : Within S spared R j)
    (he : ∀ x ∈ Stmt.exprNodes e.subterms,
      (∀ m ∈ x.mentioned, isReserved m = false) ∧ ∀ m ∈ x.opened, m ∉ spared) :
    (expr R e j).1.subterms.any (isElement (S.rename sequence) (S.rename index)) =
      e.subterms.any (isElement sequence index) := by
  have hsub := List.forall_mem_map.mp he
  have hseen := (List.forall₂_and_left e.subterms _).mpr
    ⟨fun x hx y hy => (hsub y (Expr.closed_subterms e x hx hy)).1,
      subterms_seen e (fun x hx => (hsub x hx).2) hR⟩
  exact any_eq_of_forall₂ hseen fun x x' hx => isElement_seen hsequence hindex hx.1 hx.2

theorem occurs_exprList {es : List Expr} (hsequence : sequence ∈ spared ∧ isReserved sequence = false)
    (hindex : index ∈ spared ∧ isReserved index = false) (hR : Within S spared R j)
    (he : ∀ x ∈ Stmt.exprNodes (Expr.subtermsList es),
      (∀ m ∈ x.mentioned, isReserved m = false) ∧ ∀ m ∈ x.opened, m ∉ spared) :
    ((exprList R es j).1.any fun e => e.subterms.any (isElement (S.rename sequence) (S.rename index))) =
      es.any fun e => e.subterms.any (isElement sequence index) := by
  induction es generalizing j with
  | nil => rfl
  | cons e es ih =>
    rw [Expr.subtermsList, Stmt.exprNodes, List.map_append, List.forall_mem_append] at he
    show List.any ((expr R e j).1 :: (exprList R es (expr R e j).2).1) _ = _
    rw [List.any_cons, List.any_cons, occurs_expr hsequence hindex hR he.1, ih (hR.expr e) he.2]

theorem writesElement_stmtList (hS : Placeholders.Between 0 k S.flatten)
    (hlucid : ∀ x ∈ Stmt.nodesList b, x.Lucid) (hspared : SparesNodes spared (Stmt.nodesList b))
    (hsequence : sequence ∈ spared ∧ isReserved sequence = false)
    (hindex : index ∈ spared ∧ isReserved index = false) :
    writesElement (S.rename sequence) (S.rename index) (stmtList S b k).1 =
      writesElement sequence index b := by
  unfold writesElement
  refine any_eq_of_forall₂ (stmts_seen hS (fun x hx _ => (hlucid x hx).unreserved_mentioned) hspared) ?_
  rintro s _ ⟨hs, R, j, hR, rfl⟩
  cases s with
  | assign ts v a =>
    refine occurs_exprList hsequence hindex (hR.expr v) fun x hx => hs x (List.mem_cons_of_mem _ ?_)
    rw [Stmt.exprNodes, List.map_append]
    exact List.mem_append_right _ hx
  | augAssign t op v =>
    refine occurs_expr hsequence hindex hR fun x hx => hs x (List.mem_cons_of_mem _ ?_)
    rw [Stmt.exprNodes, List.map_append]
    exact List.mem_append_left _ hx
  | _ => rfl

theorem rangeOfLength?_eq_some {e : Expr} :
    rangeOfLength? e = some n ↔
      ∃ a, e.asSimpleCall? = some ("range", [a]) ∧ a.asSimpleCall? = some ("len", [.name n]) := by
  unfold rangeOfLength?
  split
  · next a he =>
    split
    · next m ha =>
      rw [he]
      constructor
      · rintro ⟨⟩
        exact ⟨a, rfl, ha⟩
      · rintro ⟨_, ⟨⟩, ha'⟩
        rw [ha] at ha'
        cases ha'
        rfl
    · next hnot =>
      rw [he]
      constructor
      · rintro ⟨⟩
      · rintro ⟨_, ⟨⟩, ha⟩
        exact absurd ha (hnot n)
  · next hnot =>
    constructor
    · rintro ⟨⟩
    · rintro ⟨a, he, -⟩
      exact absurd he (hnot a)

/-- A call of a function that idioms ask for, in a normal form. -/
theorem asSimpleCall?_callee (hS : Within [] callees S k) {d : String} (hd : d ∈ callees) {e x : Expr} :
    (expr S e j).1.asSimpleCall? = some (d, [x]) ↔
      ∃ a, e.asSimpleCall? = some (d, [a]) ∧ x = (expr S a j).1 := by
  rw [asSimpleCall?_expr]
  constructor
  · intro h
    obtain ⟨⟨f, es⟩, hcall, heq⟩ := Option.map_eq_some_iff.mp h
    obtain ⟨hf, hes⟩ := Prod.mk.inj heq
    rw [rename_callee hS hd] at hf
    subst hf
    match es with
    | [a] =>
      cases hes
      exact ⟨a, hcall, rfl⟩
    | [] | _ :: _ :: _ => cases hes
  · rintro ⟨a, hcall, rfl⟩
    rw [hcall]
    show some (S.rename d, [(expr S a j).1]) = _
    rw [hS.spares d hd]
    rfl

theorem rangeOfLength?_expr (hS : Within [] callees S k) (e : Expr) :
    rangeOfLength? (expr S e j).1 = (rangeOfLength? e).map S.rename := by
  ext n
  rw [rangeOfLength?_eq_some, Option.map_eq_some_iff]
  constructor
  · rintro ⟨_, houter, hinner⟩
    obtain ⟨a, he, rfl⟩ := (asSimpleCall?_callee hS (by decide)).mp houter
    obtain ⟨x, ha, hx⟩ := (asSimpleCall?_callee hS (by decide)).mp hinner
    cases x with
    | name m =>
      cases hx
      exact ⟨m, rangeOfLength?_eq_some.mpr ⟨a, he, ha⟩, rfl⟩
    | comp kind e v cs => cases cs <;> cases hx
    | _ => cases hx
  · rintro ⟨m, hm, rfl⟩
    obtain ⟨a, he, ha⟩ := rangeOfLength?_eq_some.mp hm
    refine ⟨(expr S a j).1, (asSimpleCall?_callee hS (by decide)).mpr ⟨a, he, rfl⟩, ?_⟩
    exact (asSimpleCall?_callee hS (by decide)).mpr ⟨.name m, ha, rfl⟩

theorem mem_of_positional? {args : List Arg} {es : List Expr} (h : Expr.positional? args = some es) {a : Expr}
    (ha : a ∈ es) : a ∈ Expr.subtermsArgs args := by
  induction args generalizing es with
  | nil =>
    cases h
    cases ha
  | cons arg args ih =>
    cases arg with
    | positional e =>
      obtain ⟨rest, hrest, rfl⟩ := Option.map_eq_some_iff.mp h
      rcases List.mem_cons.mp ha with rfl | ha
      · exact List.mem_append_left _ a.mem_subterms_self
      · exact List.mem_append_right _ (ih hrest ha)
    | _ => cases h

theorem mem_of_asSimpleCall? {e a : Expr} {f : String} {es : List Expr} (h : e.asSimpleCall? = some (f, es))
    (ha : a ∈ es) : a ∈ e.subterms := by
  cases e with
  | call g args =>
    cases g with
    | name m =>
      obtain ⟨es', hes, heq⟩ := Option.map_eq_some_iff.mp h
      cases heq
      exact List.mem_cons_of_mem _ (List.mem_append_right _ (mem_of_positional? hes ha))
    | _ => cases h
  | _ => cases h

theorem mem_of_rangeOfLength? {e : Expr} (h : rangeOfLength? e = some n) : .name n ∈ e.subterms := by
  obtain ⟨a, he, ha⟩ := rangeOfLength?_eq_some.mp h
  have hmem := mem_of_asSimpleCall? he List.mem_cons_self
  exact Expr.closed_subterms e a hmem (mem_of_asSimpleCall? ha List.mem_cons_self)

/-- How many expressions of a normal form satisfy a test that related expressions agree on. -/
theorem count_eq_of_forall₂ {r : Expr → Expr → Prop} {p q : Expr → Bool} {b b' : Block}
    (h : List.Forall₂ r (Block.exprs b) (Block.exprs b')) (hr : ∀ e e', r e e' → q e' = p e) :
    Block.count q b' = Block.count p b :=
  length_filter_eq_of_forall₂ h hr

section Body

variable (hS : Placeholders.Between 0 k S.flatten) (hlucid : ∀ x ∈ Stmt.nodesList b, x.Lucid)

include hS hlucid

theorem count_isElement_stmtList (hspared : SparesNodes spared (Stmt.nodesList b))
    (hsequence : sequence ∈ spared ∧ isReserved sequence = false)
    (hindex : index ∈ spared ∧ isReserved index = false) :
    Block.count (isElement (S.rename sequence) (S.rename index)) (stmtList S b k).1 =
      Block.count (isElement sequence index) b :=
  count_eq_of_forall₂ (exprs_seen hS (fun x hx _ => (hlucid x hx).unreserved_mentioned) hspared)
    fun _ _ he => isElement_seen hsequence hindex he.1 he.2

theorem count_isName_stmtList (hspared : SparesNodes spared (Stmt.nodesList b))
    (hn : n ∈ spared ∧ isReserved n = false) :
    Block.count (·.isName (S.rename n)) (stmtList S b k).1 = Block.count (·.isName n) b :=
  count_eq_of_forall₂ (exprs_seen hS (fun x hx _ => (hlucid x hx).unreserved_mentioned) hspared)
    fun e _ he => isName_seen hn.1 hn.2 (he.1 e e.mem_subterms_self) he.2

theorem contains_boundNames (hn : isReserved n = false) (hopened : ∀ x ∈ Stmt.nodesList b, n ∉ x.opened) :
    (Block.boundNames true (stmtList S b k).1).contains (S.rename n) =
      (Block.boundNames true b).contains n := by
  have hmem := mem_boundList_stmtList hS hn hlucid hopened
  unfold Block.boundNames
  rw [Bool.eq_iff_iff, List.contains_iff_mem, List.contains_iff_mem, Names.mem_append, Names.mem_append, hmem]
  simp

end Body

theorem isIndexIteration_stmtList : SeesBlock isIndexIteration := by
  intro S k hS b h i
  obtain ⟨j, hj, hi⟩ := getElem?_stmtList S b i k
  unfold isIndexIteration indexIteration?
  rw [hi]
  cases hs : b[i]? with
  | none => rfl
  | some s =>
    cases s with
    | forLoop target iter body orelse =>
      cases target with
      | name index =>
        cases orelse with
        | cons _ _ => rfl
        | nil =>
          show (rangeOfLength? (expr S iter j).1 >>= _).isSome = (rangeOfLength? iter >>= _).isSome
          rw [rangeOfLength?_expr hS]
          cases hsequence : rangeOfLength? iter with
          | none => rfl
          | some sequence =>
            have hmem := List.mem_of_getElem? hs
            have hnodes := mem_nodesList hmem
            have hSbody := (hS.mono hj).expr iter
            have hinside : Stmt.nodesList body ⊆ Stmt.nodesList b := by
              refine List.Subset.trans ?_ hnodes
              exact List.subset_cons_of_subset _
                (List.subset_append_of_subset_right _ (List.subset_append_left _ _))
            have hlucid : ∀ x ∈ Stmt.nodesList body, x.Lucid := fun x hx => h.lucid x (hinside hx)
            -- The index is a local of the block, and the sequence is one of its constants.
            have hbound : index ∈ Stmt.boundList false b := mem_boundList hmem List.mem_cons_self
            have hindex := (h.apart hbound).mono hinside
            have hconstant := (h.lucid _ (hnodes List.mem_cons_self)).constants (sequence, body) (by
              show (sequence, body) ∈ (rangeOfLength? iter).toList.map (·, body)
              rw [hsequence]
              exact List.mem_cons_self)
            have hheader : Stmt.exprNodes (iter.subterms ++ [.name index]) ⊆ Stmt.nodesList b := by
              refine List.Subset.trans ?_ hnodes
              exact List.subset_cons_of_subset _ (List.subset_append_left _ _)
            have hunreserved (m : String) (hm : .name m ∈ iter.subterms ++ [.name index]) :
                isReserved m = false :=
              (h.lucid _ (hheader (List.mem_map_of_mem hm))).unreserved_spelled List.mem_cons_self
            have hi := hunreserved index (List.mem_append_right _ List.mem_cons_self)
            have hq := hunreserved sequence (List.mem_append_left _ (mem_of_rangeOfLength? hsequence))
            have hspared : SparesNodes [sequence, index] (Stmt.nodesList body) := by
              intro x hx m hm hmem
              rcases List.mem_pair.mp hmem with rfl | rfl
              · exact hconstant x hx hm
              · exact (hindex x hx).2 hm
            have helements := count_isElement_stmtList hSbody.sound hlucid hspared ⟨by simp, hq⟩ ⟨by simp, hi⟩
            have huses := count_isName_stmtList hSbody.sound hlucid hspared ⟨by simp, hi⟩
            have hwrites := writesElement_stmtList hSbody.sound hlucid hspared ⟨by simp, hq⟩ ⟨by simp, hi⟩
            have hbinds := contains_boundNames hSbody.sound hlucid hi fun x hx => (hindex x hx).2
            have hbinds' := contains_boundNames hSbody.sound hlucid hq hconstant
            simp only [Option.map_some, Option.bind_eq_bind, Option.bind_some, helements, huses, hwrites,
              hbinds, hbinds']
            split <;> rfl
      | comp kind e v cs => cases cs <;> rfl
      | _ => rfl
    | _ => rfl

end Idiom

end Concord
