import Concord.Proofs.Tree.InStep

/-!
# Normal forms keep the shape

Normalization changes names only. The parts of a normal form are, one by one and in the same order,
the normal forms of the parts, each in the scopes around it; so what is found at some number in the
normal form is found at that number in the tree it came from.

The scopes around a part tell names apart: a placeholder belongs to one name of one scope, and it is
spelled like no other name. And a name that no part opens a scope for is read everywhere as it is read
outside (`Scopes.Within`).

Main statements:

* `Normal.subterms_seen`, `Normal.nodes_seen`: the parts of a normal form mirror the parts of the tree.
* `Normal.exprs_function`: the expressions in the normal form of a function.
-/

namespace Concord

/-- The names that a part of a tree binds for itself, whatever they are outside: the parameters of a
lambda, the names of a comprehension, and the parameters and locals of a nested function. The names that a
statement kept as written binds count as well: they are not renamed. -/
def Node.opened : Node → List String
  | .expr (.lambda ps _) => Param.boundNames ps
  | .expr (.comp _ _ _ clauses) => clauses.flatMap (·.target.targetNames)
  | .stmt (.define f) => Param.boundNames f.params ++ Stmt.boundList false f.body
  | .stmt (.verbatim _ _ binds) => binds
  | _ => []

/-! ## Scopes inside of others -/

namespace Scopes

variable {S R : Scopes} {spared : List String} {k j : Nat} {m n : String} {s : Placeholders}

theorem mem_of_resolve? {v : String} (h : R.resolve? n = some v) : (n, v) ∈ R.flatten := by
  obtain ⟨s, hs, hv⟩ := List.exists_of_findSome?_eq_some h
  exact List.mem_flatten.mpr ⟨s, hs, Placeholders.mem_of_lookup hv⟩

/-- A name becomes a placeholder or stays. -/
theorem rename_cases (hR : Placeholders.Between 0 k R.flatten) (n : String) :
    ((n, R.rename n) ∈ R.flatten ∧ isReserved (R.rename n) = true) ∨ R.rename n = n := by
  unfold rename
  cases hn : R.resolve? n with
  | none => exact .inr rfl
  | some v =>
    have hmem := mem_of_resolve? hn
    obtain ⟨i, -, -, hv⟩ := hR.number v (List.mem_map_of_mem hmem)
    exact .inl ⟨hmem, hv ▸ isReserved_placeholder i⟩

/-- Scopes tell names apart that are not spelled like placeholders. -/
theorem rename_inj (hR : Placeholders.Between 0 k R.flatten) (hm : isReserved m = false)
    (hn : isReserved n = false) : R.rename m = R.rename n ↔ m = n := by
  constructor
  · intro h
    rcases rename_cases hR m with ⟨hmem, hreserved⟩ | hstays <;>
      rcases rename_cases hR n with ⟨hmem', hreserved'⟩ | hstays'
    · rw [h] at hmem
      exact congrArg Prod.fst (List.inj_on_of_nodup_map hR.nodup hmem hmem' rfl)
    · rw [h, hstays', hn] at hreserved
      cases hreserved
    · rw [← h, hstays, hm] at hreserved'
      cases hreserved'
    · rw [← hstays, h, hstays']
  · rintro rfl
    rfl

/-- The scopes `R` lie inside of the scopes `S`: their placeholders differ and are numbered below `k`, and
the spared names are read as in `S`. -/
structure Within (S : Scopes) (spared : List String) (R : Scopes) (k : Nat) : Prop where
  sound : Placeholders.Between 0 k R.flatten
  spares : ∀ n ∈ spared, R.rename n = S.rename n

namespace Within

theorem refl (hS : Placeholders.Between 0 k S.flatten) (spared : List String) : Within S spared S k :=
  ⟨hS, fun _ _ => rfl⟩

theorem mono (h : Within S spared R k) (hk : k ≤ j) : Within S spared R j where
  sound := ⟨h.sound.nodup, fun v hv => by
    obtain ⟨i, hi, hik, he⟩ := h.sound.number v hv
    exact ⟨i, hi, Nat.lt_of_lt_of_le hik hk, he⟩⟩
  spares := h.spares

/-- A new scope that binds no spared name. -/
theorem push (h : Within S spared R k) (hk : k ≤ j) (hs : s.Between k j)
    (hfree : ∀ n ∈ s.map Prod.fst, n ∉ spared) : Within S spared (s :: R) j where
  sound := by
    refine ⟨?_, ?_⟩
    · rw [List.flatten_cons, List.map_append, List.nodup_append]
      refine ⟨hs.nodup, h.sound.nodup, ?_⟩
      -- Old placeholders are numbered below `k`, and new ones from `k` on.
      intro v hv w hw he
      obtain ⟨i, hki, -, hvi⟩ := hs.number v hv
      obtain ⟨i', -, hki', hwi⟩ := h.sound.number w hw
      have := placeholder_inj (hvi.symm.trans (he.trans hwi))
      omega
    · rw [List.flatten_cons, List.map_append]
      intro v hv
      rcases List.mem_append.mp hv with hv | hv
      · obtain ⟨i, -, hij, he⟩ := hs.number v hv
        exact ⟨i, Nat.zero_le i, hij, he⟩
      · exact (h.mono hk).sound.number v hv
  spares n hn := by
    have hunbound : s.lookup n = none := by
      refine Option.eq_none_iff_forall_ne_some.mpr fun v hv => ?_
      exact hfree n (List.mem_map_of_mem (Placeholders.mem_of_lookup hv)) hn
    rw [rename_of_unbound hunbound, h.spares n hn]

theorem push_nil (h : Within S spared R k) : Within S spared ([] :: R) k :=
  h.push (Nat.le_refl k) (Placeholders.between_nil k k) (by simp)

/-- Spared names are told apart from all others. -/
theorem rename_eq_iff (h : Within S spared R k) (hn : n ∈ spared) (hreserved : isReserved n = false)
    (hm : isReserved m = false) : R.rename m = S.rename n ↔ m = n := by
  rw [← h.spares n hn]
  exact rename_inj h.sound hm hreserved

end Within

end Scopes

namespace Normal

open Scopes

variable {S R : Scopes} {spared : List String} {k : Nat}

/-! ## Placeholders in use -/

end Normal

namespace Scopes.Within

open Normal

variable {S R : Scopes} {spared : List String} {k : Nat}

theorem expr (h : Within S spared R k) (e : Expr) : Within S spared R (Normal.expr R e k).2 :=
  h.mono (le_expr e R k)

theorem option (h : Within S spared R k) (o : Option Expr) : Within S spared R (exprOption R o k).2 :=
  h.mono (le_exprOption o R k)

theorem list (h : Within S spared R k) (es : List Expr) : Within S spared R (exprList R es k).2 :=
  h.mono (le_exprList es R k)

theorem clauses (h : Within S spared R k) (cs : List Clause) :
    Within S spared R (exprClauses R cs k).2 :=
  h.mono (le_exprClauses cs R k)

theorem params (h : Within S spared R k) (ps : List Param) : Within S spared R (exprParams R ps k).2 :=
  h.mono (le_exprParams ps R k)

theorem stmt (h : Within S spared R k) (s : Stmt) : Within S spared R (Normal.stmt R s k).2 :=
  h.mono (le_stmt s R k)

theorem block (h : Within S spared R k) (b : Block) : Within S spared R (stmtList R b k).2 :=
  h.mono (le_stmtList b R k)

theorem handlers (h : Within S spared R k) (hs : List Handler) :
    Within S spared R (stmtHandlers R hs k).2 :=
  h.mono (le_stmtHandlers hs R k)

end Scopes.Within

namespace Normal

open Scopes

variable {S R : Scopes} {spared : List String} {k : Nat}

/-! ## New scopes -/

theorem within_lambda (hR : Within S spared R k) {ps : List Param}
    (h : ∀ n ∈ Param.boundNames ps, n ∉ spared) :
    Within S spared ((assignParams ps [] k).2.1 :: R) (assignParams ps [] k).2.2 := by
  obtain ⟨hbetween, hle⟩ := assignParams_between ps (Placeholders.between_nil k k) (Nat.le_refl k)
  refine hR.push hle hbetween fun n hn => h n ?_
  rw [map_fst_assignParams] at hn
  simpa using hn

theorem mem_fst_assignLocals {outer ns : List String} {s : Placeholders} {n : String}
    (h : n ∈ (assignLocals outer ns s k).1.map Prod.fst) : n ∈ ns ∨ n ∈ s.map Prod.fst := by
  induction ns generalizing s k with
  | nil => exact .inr h
  | cons m ns ih =>
    rw [assignLocals] at h
    split at h
    · exact (ih h).imp_left (List.mem_cons_of_mem m)
    · rcases ih h with h | h
      · exact .inl (List.mem_cons_of_mem m h)
      · rw [List.map_cons, List.mem_cons] at h
        rcases h with rfl | h
        · exact .inl List.mem_cons_self
        · exact .inr h

theorem within_comp (hR : Within S spared R k) (ns : List String) (h : ∀ n ∈ ns, n ∉ spared) :
    Within S spared ((assign (Names.append [] ns) k).1 :: R) (assign (Names.append [] ns) k).2 := by
  rw [assign_names, show assign [] k = ([], k) from rfl]
  obtain ⟨hbetween, hle⟩ := assignLocals_between [] ns (Placeholders.between_nil k k) (Nat.le_refl k)
  refine hR.push hle hbetween fun n hn => h n ?_
  simpa using mem_fst_assignLocals hn

theorem within_function (hR : Within S spared R k) (ps : List Param) (body : Block)
    (h : ∀ n ∈ Param.boundNames ps ++ Stmt.boundList false body, n ∉ spared) :
    Within S spared ((functionScope ps body k).2.1 :: R) (functionScope ps body k).2.2 := by
  obtain ⟨hparams, hle⟩ := assignParams_between ps (Placeholders.between_nil k k) (Nat.le_refl k)
  obtain ⟨hbetween, hle'⟩ :=
    assignLocals_between body.declaredOuter (body.boundNames false) hparams hle
  refine hR.push hle' hbetween fun n hn => h n ?_
  rcases mem_fst_assignLocals hn with hn | hn
  · exact List.mem_append_right _ ((Names.mem_append.mp hn).resolve_left (by simp))
  · rw [map_fst_assignParams] at hn
    exact List.mem_append_left _ (by simpa using hn)

/-! ## Expressions -/

/-- A normal form of an expression in scopes inside of `S`. -/
def Seen (S : Scopes) (spared : List String) (e e' : Expr) : Prop :=
  ∃ R k, Within S spared R k ∧ e' = (expr R e k).1

/-- No expression of a list opens a scope for a spared name. -/
def Spares (spared : List String) (es : List Expr) : Prop :=
  ∀ e ∈ es, ∀ n ∈ (Node.expr e).opened, n ∉ spared

theorem spares_cons {e : Expr} {es : List Expr} :
    Spares spared (e :: es) ↔ (∀ n ∈ (Node.expr e).opened, n ∉ spared) ∧ Spares spared es :=
  List.forall_mem_cons

theorem spares_append {es es' : List Expr} :
    Spares spared (es ++ es') ↔ Spares spared es ∧ Spares spared es' :=
  List.forall_mem_append

mutual

/-- The parts of the normal form of an expression. -/
theorem subterms_seen : (e : Expr) → Spares spared e.subterms → ∀ {R : Scopes} {k : Nat},
    Within S spared R k → List.Forall₂ (Seen S spared) e.subterms (expr R e k).1.subterms
  | .bin _ l r, h, _, _, hR | .logic _ l r, h, _, _, hR => by
    rw [Expr.subterms, spares_cons, spares_append] at h
    obtain ⟨-, hl, hr⟩ := h
    exact .cons ⟨_, _, hR, rfl⟩
      (List.rel_append (subterms_seen l hl hR) (subterms_seen r hr (hR.expr l)))
  | .unary _ a, h, _, _, hR | .attribute a _, h, _, _, hR | .starred a, h, _, _, hR => by
    rw [Expr.subterms, spares_cons] at h
    exact .cons ⟨_, _, hR, rfl⟩ (subterms_seen a h.2 hR)
  | .compare l links, h, _, _, hR => by
    rw [Expr.subterms, spares_cons, spares_append] at h
    obtain ⟨-, hl, hlinks⟩ := h
    exact .cons ⟨_, _, hR, rfl⟩
      (List.rel_append (subterms_seen l hl hR)
        (subtermsLinks_seen links hlinks (hR.expr l)))
  | .call f args, h, _, _, hR => by
    rw [Expr.subterms, spares_cons, spares_append] at h
    obtain ⟨-, hf, hargs⟩ := h
    exact .cons ⟨_, _, hR, rfl⟩
      (List.rel_append (subterms_seen f hf hR)
        (subtermsArgs_seen args hargs (hR.expr f)))
  | .subscript a i, h, _, _, hR => by
    rw [Expr.subterms, spares_cons, spares_append] at h
    obtain ⟨-, ha, hi⟩ := h
    exact .cons ⟨_, _, hR, rfl⟩
      (List.rel_append (subterms_seen a ha hR) (subterms_seen i hi (hR.expr a)))
  | .slice a b c, h, _, _, hR => by
    rw [Expr.subterms, spares_cons, spares_append, spares_append] at h
    obtain ⟨-, ha, hb, hc⟩ := h
    have hRb := hR.option a
    exact .cons ⟨_, _, hR, rfl⟩
      (List.rel_append (subtermsOption_seen a ha hR)
        (List.rel_append (subtermsOption_seen b hb hRb)
          (subtermsOption_seen c hc (hRb.option b))))
  | .list items, h, _, _, hR | .tuple items, h, _, _, hR | .set items, h, _, _, hR => by
    rw [Expr.subterms, spares_cons] at h
    exact .cons ⟨_, _, hR, rfl⟩ (subtermsList_seen items h.2 hR)
  | .dict entries, h, _, _, hR => by
    rw [Expr.subterms, spares_cons] at h
    exact .cons ⟨_, _, hR, rfl⟩ (subtermsEntries_seen entries h.2 hR)
  | .ifExp t a b, h, _, _, hR => by
    rw [Expr.subterms, spares_cons, spares_append, spares_append] at h
    obtain ⟨-, ht, ha, hb⟩ := h
    have hRa := hR.expr t
    exact .cons ⟨_, _, hR, rfl⟩
      (List.rel_append (subterms_seen t ht hR)
        (List.rel_append (subterms_seen a ha hRa) (subterms_seen b hb (hRa.expr a))))
  | .lambda ps b, h, R, k, hR => by
    rw [Expr.subterms, spares_cons, spares_append] at h
    obtain ⟨hopened, hps, hb⟩ := h
    have hRps := hR.params ps
    have hparams := subtermsParams_seen ps hps hR
    rw [← subtermsParams_assignParams (exprParams R ps k).1 [] (exprParams R ps k).2] at hparams
    refine .cons ⟨_, _, hR, rfl⟩ (List.rel_append hparams (subterms_seen b hb (within_lambda hRps ?_)))
    rwa [boundNames_exprParams]
  | .comp _ e v [], h, _, _, hR => by
    rw [Expr.subterms, spares_cons, spares_append, spares_append] at h
    obtain ⟨-, he, hv, -⟩ := h
    exact .cons ⟨_, _, hR, rfl⟩
      (List.rel_append (subterms_seen e he hR.push_nil)
        (List.rel_append (subtermsOption_seen v hv (hR.push_nil.expr e)) .nil))
  -- The first iterable is read outside: it stays in the scopes around the comprehension.
  | .comp _ e v (⟨t, i, ifs⟩ :: cs), h, _, _, hR => by
    rw [Expr.subterms, spares_cons, spares_append, spares_append] at h
    obtain ⟨hopened, he, hv, hclauses⟩ := h
    rw [Expr.subtermsClauses, spares_append, spares_append, spares_append] at hclauses
    obtain ⟨hi, ht, hifs, hcs⟩ := hclauses
    have hRt := within_comp (hR.expr i) (t.targetNames ++ cs.flatMap (·.target.targetNames)) hopened
    have hRifs := hRt.expr t
    have hRcs := hRifs.list ifs
    have hRe := hRcs.clauses cs
    exact .cons ⟨_, _, hR, rfl⟩
      (List.rel_append (subterms_seen e he hRe)
        (List.rel_append (subtermsOption_seen v hv (hRe.expr e))
          (List.rel_append (subterms_seen i hi hR)
            (List.rel_append (subterms_seen t ht hRt)
              (List.rel_append (subtermsList_seen ifs hifs hRifs)
                (subtermsClauses_seen cs hcs hRcs))))))
  | .name _, _, _, _, hR | .int _, _, _, _, hR | .float _, _, _, _, hR | .str _, _, _, _, hR
  | .bool _, _, _, _, hR | .none, _, _, _, hR | .verbatim _, _, _, _, hR => .cons ⟨_, _, hR, rfl⟩ .nil

theorem subtermsOption_seen : (o : Option Expr) → Spares spared (Expr.subtermsOption o) →
    ∀ {R : Scopes} {k : Nat}, Within S spared R k →
    List.Forall₂ (Seen S spared) (Expr.subtermsOption o) (Expr.subtermsOption (exprOption R o k).1)
  | none, _, _, _, _ => .nil
  | some e, h, _, _, hR => subterms_seen e h hR

theorem subtermsList_seen : (es : List Expr) → Spares spared (Expr.subtermsList es) →
    ∀ {R : Scopes} {k : Nat}, Within S spared R k →
    List.Forall₂ (Seen S spared) (Expr.subtermsList es) (Expr.subtermsList (exprList R es k).1)
  | [], _, _, _, _ => .nil
  | e :: es, h, _, _, hR => by
    rw [Expr.subtermsList, spares_append] at h
    exact List.rel_append (subterms_seen e h.1 hR) (subtermsList_seen es h.2 (hR.expr e))

theorem subtermsLinks_seen : (ls : List (CmpOp × Expr)) → Spares spared (Expr.subtermsLinks ls) →
    ∀ {R : Scopes} {k : Nat}, Within S spared R k →
    List.Forall₂ (Seen S spared) (Expr.subtermsLinks ls) (Expr.subtermsLinks (exprLinks R ls k).1)
  | [], _, _, _, _ => .nil
  | (_, e) :: ls, h, _, _, hR => by
    rw [Expr.subtermsLinks, spares_append] at h
    exact List.rel_append (subterms_seen e h.1 hR) (subtermsLinks_seen ls h.2 (hR.expr e))

theorem subtermsArgs_seen : (as : List Arg) → Spares spared (Expr.subtermsArgs as) →
    ∀ {R : Scopes} {k : Nat}, Within S spared R k →
    List.Forall₂ (Seen S spared) (Expr.subtermsArgs as) (Expr.subtermsArgs (exprArgs R as k).1)
  | [], _, _, _, _ => .nil
  | .positional e :: as, h, _, _, hR | .keyword _ e :: as, h, _, _, hR | .star e :: as, h, _, _, hR
  | .doubleStar e :: as, h, _, _, hR => by
    rw [Expr.subtermsArgs, spares_append] at h
    exact List.rel_append (subterms_seen e h.1 hR) (subtermsArgs_seen as h.2 (hR.expr e))

theorem subtermsEntries_seen : (es : List (Expr × Expr)) → Spares spared (Expr.subtermsEntries es) →
    ∀ {R : Scopes} {k : Nat}, Within S spared R k →
    List.Forall₂ (Seen S spared) (Expr.subtermsEntries es) (Expr.subtermsEntries (exprEntries R es k).1)
  | [], _, _, _, _ => .nil
  | (x, v) :: es, h, _, _, hR => by
    rw [Expr.subtermsEntries, spares_append, spares_append] at h
    have hRv := hR.expr x
    exact List.rel_append (subterms_seen x h.1 hR)
      (List.rel_append (subterms_seen v h.2.1 hRv)
        (subtermsEntries_seen es h.2.2 (hRv.expr v)))

theorem subtermsClauses_seen : (cs : List Clause) → Spares spared (Expr.subtermsClauses cs) →
    ∀ {R : Scopes} {k : Nat}, Within S spared R k →
    List.Forall₂ (Seen S spared) (Expr.subtermsClauses cs) (Expr.subtermsClauses (exprClauses R cs k).1)
  | [], _, _, _, _ => .nil
  | ⟨t, i, ifs⟩ :: cs, h, _, _, hR => by
    rw [Expr.subtermsClauses, spares_append, spares_append, spares_append] at h
    obtain ⟨hi, ht, hifs, hcs⟩ := h
    have hRt := hR.expr i
    have hRifs := hRt.expr t
    exact List.rel_append (subterms_seen i hi hR)
      (List.rel_append (subterms_seen t ht hRt)
        (List.rel_append (subtermsList_seen ifs hifs hRifs)
          (subtermsClauses_seen cs hcs (hRifs.list ifs))))

theorem subtermsParams_seen : (ps : List Param) → Spares spared (Expr.subtermsParams ps) →
    ∀ {R : Scopes} {k : Nat}, Within S spared R k →
    List.Forall₂ (Seen S spared) (Expr.subtermsParams ps) (Expr.subtermsParams (exprParams R ps k).1)
  | [], _, _, _, _ => .nil
  | ⟨_, _, default, _⟩ :: ps, h, _, _, hR => by
    rw [Expr.subtermsParams, spares_append] at h
    exact List.rel_append (subtermsOption_seen default h.1 hR)
      (subtermsParams_seen ps h.2 (hR.option default))

end

/-! ## Statements -/

/-- A normal form of a part of a tree in scopes inside of `S`. -/
inductive SeenNode (S : Scopes) (spared : List String) : Node → Node → Prop
  | expr {e e' : Expr} (h : Seen S spared e e') : SeenNode S spared (.expr e) (.expr e')
  | stmt {R : Scopes} {k : Nat} (s : Stmt) (hR : Within S spared R k) :
    SeenNode S spared (.stmt s) (.stmt (Normal.stmt R s k).1)

/-- No part in a list opens a scope for a spared name. -/
def SparesNodes (spared : List String) (xs : List Node) : Prop := ∀ x ∈ xs, ∀ n ∈ x.opened, n ∉ spared

theorem sparesNodes_cons {x : Node} {xs : List Node} :
    SparesNodes spared (x :: xs) ↔ (∀ n ∈ x.opened, n ∉ spared) ∧ SparesNodes spared xs :=
  List.forall_mem_cons

theorem sparesNodes_append {xs ys : List Node} :
    SparesNodes spared (xs ++ ys) ↔ SparesNodes spared xs ∧ SparesNodes spared ys :=
  List.forall_mem_append

theorem sparesNodes_exprNodes {es : List Expr} :
    SparesNodes spared (Stmt.exprNodes es) ↔ Spares spared es :=
  List.forall_mem_map

/-- Expressions as nodes. -/
theorem exprNodes_seen {es es' : List Expr} (h : List.Forall₂ (Seen S spared) es es') :
    List.Forall₂ (SeenNode S spared) (Stmt.exprNodes es) (Stmt.exprNodes es') := by
  rw [Stmt.exprNodes, Stmt.exprNodes, List.forall₂_map_left_iff, List.forall₂_map_right_iff]
  exact h.imp fun _ _ => .expr

mutual

/-- The parts of the normal form of a statement. -/
theorem nodes_seen : (s : Stmt) → SparesNodes spared s.nodes → ∀ {R : Scopes} {k : Nat},
    Within S spared R k → List.Forall₂ (SeenNode S spared) s.nodes (stmt R s k).1.nodes
  | .define ⟨name, params, body, decorators, returns, isAsync⟩, h, R, k, hR => by
    rw [Stmt.nodes, sparesNodes_cons, sparesNodes_append, sparesNodes_append, sparesNodes_exprNodes,
      sparesNodes_exprNodes] at h
    obtain ⟨hopened, hdecorators, hparams, hbody⟩ := h
    let p := exprParams R params (exprList R decorators k).2
    have hRp := (hR.list decorators).params params
    have hps := subtermsParams_seen params hparams (hR.list decorators)
    rw [← subtermsParams_assignParams p.1 [] p.2] at hps
    have hRbody := within_function hRp p.1 body (by rwa [boundNames_exprParams])
    exact .cons (.stmt _ hR)
      (List.rel_append (exprNodes_seen (subtermsList_seen decorators hdecorators hR))
        (List.rel_append (exprNodes_seen hps) (nodesList_seen body hbody hRbody)))
  | .ret v, h, _, _, hR => by
    rw [Stmt.nodes, sparesNodes_cons, sparesNodes_exprNodes] at h
    exact .cons (.stmt _ hR) (exprNodes_seen (subtermsOption_seen v h.2 hR))
  | .assign ts v _, h, _, _, hR => by
    rw [Stmt.nodes, sparesNodes_cons, sparesNodes_exprNodes, spares_append] at h
    exact .cons (.stmt _ hR) (exprNodes_seen
      (List.rel_append (subterms_seen v h.2.1 hR) (subtermsList_seen ts h.2.2 (hR.expr v))))
  | .augAssign t _ v, h, _, _, hR => by
    rw [Stmt.nodes, sparesNodes_cons, sparesNodes_exprNodes, spares_append] at h
    exact .cons (.stmt _ hR) (exprNodes_seen
      (List.rel_append (subterms_seen t h.2.1 hR) (subterms_seen v h.2.2 (hR.expr t))))
  | .expr e, h, _, _, hR => by
    rw [Stmt.nodes, sparesNodes_cons, sparesNodes_exprNodes] at h
    exact .cons (.stmt _ hR) (exprNodes_seen (subterms_seen e h.2 hR))
  | .cond t body orelse, h, _, _, hR | .whileLoop t body orelse, h, _, _, hR => by
    rw [Stmt.nodes, sparesNodes_cons, sparesNodes_append, sparesNodes_append,
      sparesNodes_exprNodes] at h
    obtain ⟨-, ht, hbody, horelse⟩ := h
    have hRbody := hR.expr t
    exact .cons (.stmt _ hR)
      (List.rel_append (exprNodes_seen (subterms_seen t ht hR))
        (List.rel_append (nodesList_seen body hbody hRbody)
          (nodesList_seen orelse horelse (hRbody.block body))))
  | .forLoop t i body orelse, h, _, _, hR => by
    rw [Stmt.nodes, sparesNodes_cons, sparesNodes_append, sparesNodes_append, sparesNodes_exprNodes,
      spares_append] at h
    obtain ⟨-, ⟨hi, ht⟩, hbody, horelse⟩ := h
    have hRt := hR.expr i
    have hRbody := hRt.expr t
    exact .cons (.stmt _ hR)
      (List.rel_append
        (exprNodes_seen (List.rel_append (subterms_seen i hi hR) (subterms_seen t ht hRt)))
        (List.rel_append (nodesList_seen body hbody hRbody)
          (nodesList_seen orelse horelse (hRbody.block body))))
  | .tryBlock body hs orelse final, h, _, _, hR => by
    rw [Stmt.nodes, sparesNodes_cons, sparesNodes_append, sparesNodes_append, sparesNodes_append] at h
    obtain ⟨-, hbody, hhandlers, horelse, hfinal⟩ := h
    have hRhs := hR.block body
    have hRorelse := hRhs.handlers hs
    exact .cons (.stmt _ hR)
      (List.rel_append (nodesList_seen body hbody hR)
        (List.rel_append (nodesHandlers_seen hs hhandlers hRhs)
          (List.rel_append (nodesList_seen orelse horelse hRorelse)
            (nodesList_seen final hfinal (hRorelse.block orelse)))))
  | .raise e c, h, _, _, hR => by
    rw [Stmt.nodes, sparesNodes_cons, sparesNodes_exprNodes, spares_append] at h
    exact .cons (.stmt _ hR) (exprNodes_seen
      (List.rel_append (subtermsOption_seen e h.2.1 hR) (subtermsOption_seen c h.2.2 (hR.option e))))
  | .assert t m, h, _, _, hR => by
    rw [Stmt.nodes, sparesNodes_cons, sparesNodes_exprNodes, spares_append] at h
    exact .cons (.stmt _ hR) (exprNodes_seen
      (List.rel_append (subterms_seen t h.2.1 hR) (subtermsOption_seen m h.2.2 (hR.expr t))))
  | .importNames _, _, _, _, hR | .importFrom _ _, _, _, _, hR | .globals _, _, _, _, hR
  | .nonlocals _, _, _, _, hR | .pass, _, _, _, hR | .break, _, _, _, hR | .continue, _, _, _, hR
  | .verbatim _ _ _, _, _, _, hR => .cons (.stmt _ hR) .nil

theorem nodesList_seen : (b : List Stmt) → SparesNodes spared (Stmt.nodesList b) →
    ∀ {R : Scopes} {k : Nat}, Within S spared R k →
    List.Forall₂ (SeenNode S spared) (Stmt.nodesList b) (Stmt.nodesList (stmtList R b k).1)
  | [], _, _, _, _ => .nil
  | s :: ss, h, _, _, hR => by
    rw [Stmt.nodesList, sparesNodes_append] at h
    exact List.rel_append (nodes_seen s h.1 hR) (nodesList_seen ss h.2 (hR.stmt s))

theorem nodesHandlers_seen : (hs : List (HandlerOf Stmt)) →
    SparesNodes spared (Stmt.nodesHandlers hs) → ∀ {R : Scopes} {k : Nat}, Within S spared R k →
    List.Forall₂ (SeenNode S spared) (Stmt.nodesHandlers hs)
      (Stmt.nodesHandlers (stmtHandlers R hs k).1)
  | [], _, _, _, _ => .nil
  | ⟨type, _, body⟩ :: hs, h, _, _, hR => by
    rw [Stmt.nodesHandlers, sparesNodes_append, sparesNodes_append, sparesNodes_exprNodes] at h
    have hRbody := hR.option type
    exact List.rel_append (exprNodes_seen (subtermsOption_seen type h.1 hR))
      (List.rel_append (nodesList_seen body h.2.1 hRbody)
        (nodesHandlers_seen hs h.2.2 (hRbody.block body)))

end

/-! ## Functions -/

/-- The scope of a top-level function, and the number of placeholders in use after it. -/
def topScope (f : Function) : Placeholders × Nat :=
  let p := exprParams [] f.params (exprList [] f.decorators 0).2
  (functionScope p.1 f.body p.2).2

theorem body_function (f : Function) :
    (function f).body = (stmtList [(topScope f).1] f.body (topScope f).2).1 := rfl

/-- A top-level function reads the names that it does not bind as the module does. -/
theorem within_topScope {f : Function} (h : ∀ n ∈ (Node.stmt (.define f)).opened, n ∉ spared) :
    Within [] spared [(topScope f).1] (topScope f).2 := by
  have hmodule : Within [] spared [] 0 := Within.refl (Placeholders.between_nil 0 0) spared
  refine within_function ((hmodule.list f.decorators).params f.params) _ _ ?_
  rwa [boundNames_exprParams]

/-- The parts of the normal form of a function. -/
theorem nodes_function {f : Function} (hf : ∀ n ∈ (Node.stmt (.define f)).opened, n ∉ spared)
    (h : SparesNodes spared (Block.nodes f.body)) :
    List.Forall₂ (SeenNode [] spared) (Block.nodes f.body) (Block.nodes (function f).body) :=
  nodesList_seen f.body h (within_topScope hf)

/-- The expressions in the normal form of a function, each in the scopes around it. -/
theorem exprs_function_seen {f : Function} (hf : ∀ n ∈ (Node.stmt (.define f)).opened, n ∉ spared)
    (h : SparesNodes spared (Block.nodes f.body)) :
    List.Forall₂ (Seen [] spared) (Block.exprs f.body) (Block.exprs (function f).body) := by
  refine List.rel_filterMap ?_ (nodes_function hf h)
  intro x x' hx
  cases hx with
  | expr h => exact .some h
  | stmt s hR => exact .none

/-- A normal form of an expression in some scopes. -/
def IsFormOf (e e' : Expr) : Prop := ∃ scopes k, e' = (expr scopes e k).1

/-- The expressions in the normal form of a function. -/
theorem exprs_function (f : Function) :
    List.Forall₂ IsFormOf (Block.exprs f.body) (Block.exprs (function f).body) := by
  have hexprs : List.Forall₂ (Seen [] []) (Block.exprs f.body) (Block.exprs (function f).body) :=
    exprs_function_seen (by simp) fun _ _ => by simp
  exact hexprs.imp fun _ _ ⟨R, k, _, he⟩ => ⟨R, k, he⟩

end Normal

end Concord
