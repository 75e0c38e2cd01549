import Concord.Idiom.Site
import Concord.Proofs.Idiom.Occurrence
import Concord.Source.Statement

/-!
# Idioms of a function's body on normal forms

A dead store is found by what the later statements of the body mention, and a redundant conversion by where
it stands in the body. Both are found in the normal form of a function at the same place, if names do not
mislead in the function (`Function.Lucid`).

Main statements: `Idiom.deadStores_function` and `Idiom.redundantMaterializations_function`.
-/

namespace Concord

open Normal Scopes

/-- Names do not mislead in a function: they do not at any part of it, and no parameter is declared to
belong to an outer scope. -/
structure Function.Lucid (f : Function) : Prop where
  top : (Node.stmt (.define f)).Lucid
  body : ∀ x ∈ Block.nodes f.body, x.Lucid
  declared : ∀ n ∈ Block.declaredOuter f.body, n ∉ Param.boundNames f.params

instance (f : Function) : Decidable f.Lucid :=
  decidable_of_iff
    ((Node.stmt (.define f)).Lucid ∧ (∀ x ∈ Block.nodes f.body, x.Lucid) ∧
      ∀ n ∈ Block.declaredOuter f.body, n ∉ Param.boundNames f.params)
    ⟨fun ⟨h₁, h₂, h₃⟩ => ⟨h₁, h₂, h₃⟩, fun h => ⟨h.top, h.body, h.declared⟩⟩

namespace Function.Lucid

variable {f : Function} {n : String}

/-- A function's scope binds none of the functions that idioms ask for. -/
theorem within (h : f.Lucid) : Within [] Idiom.callees [(topScope f).1] (topScope f).2 :=
  within_topScope h.top.callees

theorem clear (h : f.Lucid) : Idiom.Clear f.body where
  lucid := h.body
  locals n hn := h.top.constants (n, f.body) (List.mem_map_of_mem hn)

/-- A name that is declared to belong to an outer scope stays as it is. -/
theorem rename_declared (h : f.Lucid) (hn : n ∈ Block.declaredOuter f.body) :
    Scopes.rename [(topScope f).1] n = n := by
  let p := exprParams [] f.params (exprList [] f.decorators 0).2
  have hparams : (assignParams p.1 [] p.2).2.1.lookup n = none := by
    refine Option.eq_none_iff_forall_ne_some.mpr fun v hv => h.declared n hn ?_
    have hmem : n ∈ (assignParams p.1 [] p.2).2.1.map Prod.fst :=
      List.mem_map_of_mem (Placeholders.mem_of_lookup hv)
    rw [map_fst_assignParams, boundNames_exprParams] at hmem
    simpa using hmem
  refine rename_of_unbound ?_
  show (assignLocals (Block.declaredOuter f.body) _ (assignParams p.1 [] p.2).2.1 _).1.lookup n = none
  rw [lookup_assignLocals _ _ _ (.inl hn), hparams]

/-- The normal form declares the names that the function declares to belong to outer scopes. -/
theorem declaredList_function (h : f.Lucid) :
    Stmt.declaredList (Normal.function f).body = Stmt.declaredList f.body := by
  rw [body_function, Stmt.declaredList_eq, Stmt.declaredList_eq, declarationsList_stmt, List.map_map]
  refine List.map_congr_left fun d hd => ?_
  cases d with
  | global m => rfl
  | nonlocal m => exact h.rename_declared (mem_declaredOuter.mpr ⟨_, hd, rfl⟩)

/-- A name is declared where its placeholder is. -/
theorem mem_declaredOuter_iff (h : f.Lucid) (hn : isReserved n = false) :
    Scopes.rename [(topScope f).1] n ∈ Block.declaredOuter f.body ↔ n ∈ Block.declaredOuter f.body := by
  constructor
  · intro hmem
    obtain ⟨x, hx, hspelled⟩ := Stmt.mem_spelled_of_mem_declaredList f.body (Names.mem_ofList.mp hmem)
    have hplain := (h.body x hx).unreserved_spelled hspelled
    -- What is declared stays, and so the name stayed.
    have hsame := (rename_inj h.within.sound hplain hn).mp (h.rename_declared hmem)
    rwa [hsame] at hmem
  · intro hmem
    rwa [h.rename_declared hmem]

end Function.Lucid

namespace Idiom

variable {S : Scopes} {k : Nat} {n : String} {f : Function}

/-! ## Values that are never read -/

/-- A statement in which names do not mislead and that binds `n` nowhere anew, and a normal form of it. -/
def IsLucidForm (S : Scopes) (n : String) (s s' : Stmt) : Prop :=
  (∀ x ∈ s.nodes, x.Lucid ∧ n ∉ x.opened) ∧ IsStmtForm S s s'

theorem nodesList_singleton (s : Stmt) : Stmt.nodesList [s] = s.nodes := List.append_nil _

/-- Whether a statement mentions or binds a name. -/
theorem mentions_form {s s' : Stmt} (hn : isReserved n = false) (h : IsLucidForm S n s s') :
    ((Block.nameOccurrences [s']).contains (S.rename n) || (Stmt.bound true s').contains (S.rename n)) =
      ((Block.nameOccurrences [s]).contains n || (Stmt.bound true s).contains n) := by
  obtain ⟨hs, k, hS, rfl⟩ := h
  rw [← nodesList_singleton] at hs
  have hspared : SparesNodes [n] (Stmt.nodesList [s]) := by
    intro x hx m hm hmem
    rw [List.mem_singleton] at hmem
    exact (hs x hx).2 (hmem ▸ hm)
  have hexprs := exprs_seen hS (fun x hx m hm => (hs x hx).1.unreserved_mentioned hm) hspared
  congr 1
  · unfold Block.nameOccurrences
    rw [contains_eq_any, contains_eq_any]
    exact any_eq_of_forall₂ hexprs fun e e' he =>
      isName_seen List.mem_cons_self hn (he.1 e e.mem_subterms_self) he.2
  · have hbound := mem_boundList_stmtList hS hn (fun x hx => (hs x hx).1) fun x hx => (hs x hx).2
    have happend (t : Stmt) : Stmt.boundList true [t] = Stmt.bound true t := List.append_nil _
    change S.rename n ∈ Stmt.boundList true [(stmt S s k).1] ↔ _ at hbound
    rw [happend, happend] at hbound
    rw [Bool.eq_iff_iff, List.contains_iff_mem, List.contains_iff_mem, hbound]

theorem isUnread_forms {b b' : Block} (hn : isReserved n = false) (h : List.Forall₂ (IsLucidForm S n) b b') :
    isUnread (S.rename n) b' = isUnread n b := by
  induction h with
  | nil => rfl
  | @cons s s' _ _ hlater _ ih =>
    unfold isUnread
    rw [mentions_form hn hlater, ih]
    obtain ⟨hs, k, hS, rfl⟩ := hlater
    rw [asNameAssign?_stmt]
    cases hassign : s.asNameAssign? with
    | none => rfl
    | some assigned =>
      obtain ⟨m, v⟩ := assigned
      obtain ⟨-, hm, hv⟩ := mem_of_asNameAssign? hassign
      have hreserved := (hs _ hm).1.unreserved_mentioned List.mem_cons_self
      have hsame : (S.rename m == S.rename n) = (m == n) := by
        rw [Bool.eq_iff_iff, beq_iff_eq, beq_iff_eq]
        exact rename_inj hS hreserved hn
      have hapart : Apart n (Stmt.exprNodes v.subterms) := fun x hx =>
        ⟨fun m hm => (hs x (hv hx)).1.unreserved_mentioned hm, (hs x (hv hx)).2⟩
      simp only [Option.map_some, hsame, contains_expr hS hn hapart]

/-- Dead stores stand at the same places in the normal form of a function. -/
theorem deadStores_function (h : f.Lucid) : deadStores (Normal.function f) = deadStores f := by
  have hS := h.within
  have hclear := h.clear
  have hforms := forall₂_stmtList hS.sound f.body
  unfold deadStores
  rw [Block.declaredOuter, h.declaredList_function, body_function, ← hforms.length_eq]
  refine List.filter_congr fun i _ => ?_
  obtain ⟨j, hj, hi⟩ := getElem?_stmtList [(topScope f).1] f.body i (topScope f).2
  rw [hi]
  cases hs : f.body[i]? with
  | none => rfl
  | some s =>
    simp only [Option.map_some, Option.bind_some, asNameAssign?_stmt]
    cases hassign : s.asNameAssign? with
    | none => rfl
    | some assigned =>
      obtain ⟨n, v⟩ := assigned
      obtain ⟨hbound, hname, -⟩ := mem_of_asNameAssign? hassign
      have hmem := List.mem_of_getElem? hs
      have hn := (h.body _ (mem_nodesList hmem hname)).unreserved_mentioned List.mem_cons_self
      have hdeclared : (Names.ofList (Stmt.declaredList f.body)).contains (Scopes.rename [(topScope f).1] n) =
          (Names.ofList (Stmt.declaredList f.body)).contains n := by
        rw [Bool.eq_iff_iff, List.contains_iff_mem, List.contains_iff_mem]
        exact h.mem_declaredOuter_iff hn
      have hrest : List.Forall₂ (IsLucidForm [(topScope f).1] n) (f.body.drop (i + 1))
          ((stmtList [(topScope f).1] f.body (topScope f).2).1.drop (i + 1)) := by
        refine List.forall₂_drop (i + 1) ((List.forall₂_and_left f.body _).mpr ⟨fun s hs x hx => ?_, hforms⟩)
        have hx := mem_nodesList hs hx
        exact ⟨h.body x hx, hclear.locals n (mem_boundList hmem hbound) x hx⟩
      simp only [Option.map_some, hdeclared, isPure_expr (hS.mono hj).sound, isUnread_forms hn hrest]
      rfl

/-! ## Conversions that are only iterated -/

theorem size_expr (hS : Placeholders.Between 0 k S.flatten) (e : Expr) : size (expr S e k).1 = size e :=
  (subterms_plain hS e).length_eq.symm

theorem sizes_exprList (hS : Placeholders.Between 0 k S.flatten) (es : List Expr) :
    (exprList S es k).1.map size = es.map size := by
  induction es generalizing k with
  | nil => rfl
  | cons e es ih =>
    show size (expr S e k).1 :: (exprList S es (expr S e k).2).1.map size = _
    rw [size_expr hS, ih ((Within.refl hS []).expr e).sound, List.map_cons]

theorem size_exprOption (hS : Placeholders.Between 0 k S.flatten) (o : Option Expr) :
    ((exprOption S o k).1.map size).getD 0 = (o.map size).getD 0 := by
  cases o with
  | none => rfl
  | some e => exact size_expr hS e

theorem clauseOffsets_exprClauses (hS : Placeholders.Between 0 k S.flatten) (cs : List Clause) (i : Nat) :
    clauseOffsets i (exprClauses S cs k).1 = clauseOffsets i cs := by
  induction cs generalizing k i with
  | nil => rfl
  | cons c cs ih =>
    obtain ⟨t, it, ifs⟩ := c
    have hSt := (Within.refl hS []).expr it
    have hSifs := hSt.expr t
    show i :: clauseOffsets (i + size (expr S it k).1 + size (expr S t _).1 +
      ((exprList S ifs _).1.map size).sum) (exprClauses S cs _).1 = _
    rw [size_expr hS, size_expr hSt.sound, sizes_exprList hSifs.sound, ih (hSifs.list ifs).sound]
    rfl

theorem argOffsets_exprArgs (hS : Placeholders.Between 0 k S.flatten) (args : List Arg) (i : Nat) :
    argOffsets i (exprArgs S args k).1 = argOffsets i args := by
  induction args generalizing k i with
  | nil => rfl
  | cons a args ih =>
    have hrest (e : Expr) := ((Within.refl hS []).expr e).sound
    cases a with
    | positional e =>
      show i :: argOffsets (i + size (expr S e k).1) (exprArgs S args _).1 = _
      rw [size_expr hS, ih (hrest e), argOffsets]
    | keyword m e | star e | doubleStar e =>
      show argOffsets (i + size (expr S e k).1) (exprArgs S args _).1 = _
      rw [size_expr hS, ih (hrest e)]
      rfl

/-- The normal form of a comprehension: the first iterable is read outside, and the rest in a new scope. -/
theorem expr_comp (hS : Placeholders.Between 0 k S.flatten) (kind : CompKind) (e : Expr) (v : Option Expr)
    (t it : Expr) (ifs : List Expr) (cs : List Clause) :
    ∃ T i j₁ j₂ j₃ j₄, Placeholders.Between 0 i (T : Scopes).flatten ∧
      Placeholders.Between 0 j₁ T.flatten ∧ Placeholders.Between 0 j₂ T.flatten ∧
      Placeholders.Between 0 j₃ T.flatten ∧ Placeholders.Between 0 j₄ T.flatten ∧
      (expr S (.comp kind e v (⟨t, it, ifs⟩ :: cs)) k).1 =
        .comp kind (expr T e j₃).1 (exprOption T v j₄).1
          (⟨(expr T t i).1, (expr S it k).1, (exprList T ifs j₁).1⟩ :: (exprClauses T cs j₂).1) := by
  have hit : Within S [] S (expr S it k).2 := (Within.refl hS []).expr it
  have ht := within_comp hit (t.targetNames ++ cs.flatMap (·.target.targetNames)) (by simp)
  have hifs := ht.expr t
  have hcs := hifs.list ifs
  have he := hcs.clauses cs
  exact ⟨_, _, _, _, _, _, ht.sound, hifs.sound, hcs.sound, he.sound, (he.expr e).sound, rfl⟩

/-- A node of a normal form iterates what stands at the same places. -/
theorem iteratedOffsets_seen {x x' : Node} (h : SeenNode [] callees x x') :
    iteratedOffsets x' = iteratedOffsets x := by
  cases h with
  | stmt s hR => cases s <;> rfl
  | expr h =>
    rename_i e e'
    obtain ⟨R, k, hR, rfl⟩ := h
    cases e with
    | call f args =>
      cases f with
      | name m =>
        show (if consumers.contains (R.rename m) then argOffsets 2 (exprArgs R args k).1 else []) =
          if consumers.contains m then argOffsets 2 args else []
        have hname : R.rename m ∈ consumers ↔ m ∈ consumers := by
          have hcallee {d : String} (hd : d ∈ consumers) : R.rename m = d ↔ m = d :=
            rename_callee hR (List.mem_append_right _ hd) m
          constructor
          · intro hm
            rwa [(hcallee hm).mp rfl]
          · intro hm
            rwa [(hcallee hm).mpr rfl]
        simp only [List.contains_iff_mem, hname, argOffsets_exprArgs hR.sound]
      | comp kind e v cs => cases cs <;> rfl
      | _ => rfl
    | comp kind e v cs =>
      cases cs with
      | nil => rfl
      | cons c cs =>
        obtain ⟨t, it, ifs⟩ := c
        obtain ⟨T, i, j₁, j₂, j₃, j₄, hi, h₁, h₂, h₃, h₄, hform⟩ := expr_comp hR.sound kind e v t it ifs cs
        rw [hform]
        show _ :: clauseOffsets (1 + size (expr T e j₃).1 + ((exprOption T v j₄).1.map size).getD 0 +
          size (expr R it k).1 + size (expr T t i).1 + ((exprList T ifs j₁).1.map size).sum)
            (exprClauses T cs j₂).1 = _
        rw [size_expr hR.sound, size_expr hi, sizes_exprList h₁, clauseOffsets_exprClauses h₂, size_expr h₃,
          size_exprOption h₄]
        rfl
    | _ => rfl

/-- Lists in step give the same, where related elements at one number do. -/
theorem map_zipIdx_eq {α γ : Type} {r : α → α → Prop} (g : α × Nat → γ) {xs ys : List α}
    (h : List.Forall₂ r xs ys) (hr : ∀ x y i, r x y → g (y, i) = g (x, i)) (i : Nat) :
    (ys.zipIdx i).map g = (xs.zipIdx i).map g := by
  induction h generalizing i with
  | nil => rfl
  | cons hxy _ ih => rw [List.zipIdx_cons, List.zipIdx_cons, List.map_cons, List.map_cons, hr _ _ _ hxy, ih]

theorem materializes_seen {x x' : Node} (h : SeenNode [] callees x x') (i : Nat) :
    ((x'.expr?.filter isMaterializing).map fun _ => i) = (x.expr?.filter isMaterializing).map fun _ => i := by
  cases h with
  | stmt s hR => rfl
  | expr h =>
    rename_i e e'
    obtain ⟨R, k, hR, rfl⟩ := h
    simp only [Node.expr?, Option.filter, isMaterializing_expr hR]
    split <;> rfl

/-- Redundant conversions have the same numbers in the normal form of a function. -/
theorem redundantMaterializations_function (h : f.Lucid) :
    redundantMaterializations (Normal.function f).body = redundantMaterializations f.body := by
  have hspared : SparesNodes callees (Block.nodes f.body) := fun x hx => (h.body x hx).callees
  have hnodes := nodes_function h.top.callees hspared
  have hiterated := map_zipIdx_eq (fun p => (iteratedOffsets p.1).map (p.2 + ·)) hnodes
    (fun x y i hxy => congrArg (List.map (i + ·)) (iteratedOffsets_seen hxy)) 0
  have hcalls := congrArg (List.filterMap id)
    (map_zipIdx_eq (fun p => (p.1.expr?.filter isMaterializing).map fun _ => p.2) hnodes
      (fun x y i hxy => materializes_seen hxy i) 0)
  rw [List.filterMap_map, List.filterMap_map, Function.id_comp] at hcalls
  unfold redundantMaterializations
  simp only [List.flatMap_def, hiterated, hcalls]

end Idiom

end Concord

/-!
## Sites of normal forms

Idioms are counted in the normal form of a module, and a rewrite addresses the module itself by the number
of a match. The numbers mean the same for the idioms that see the shape of a tree. For those that ask for
names they mean the same where names do not mislead: no scope binds a function that idioms ask for by name,
no name is spelled like a placeholder, and no scope inside of another binds its names anew
(`Function.Lucid`).

Main statement: `Idiom.sites_normalize`.
-/

namespace Concord

open Normal Scopes

namespace Idiom

variable {S : Scopes} {k : Nat} {p : Block → Nat → Bool} {P : Prop}

/-! ### Positions -/

/-- A predicate holds at the positions of a normal form where it holds in the tree; `P` says whether the names
in the tree are required not to mislead. -/
def SeesUnder (P : Prop) (p : Block → Nat → Bool) : Prop :=
  ∀ {S : Scopes} {k : Nat} (b : Block), (P → Within [] callees S k ∧ Clear b) →
    ∀ i, p (stmtList S b k).1 i = p b i

mutual

theorem sites_stmt (hp : SeesUnder P p) : (s : Stmt) → ∀ {S : Scopes} {k : Nat},
    (P → Within [] callees S k ∧ ClearIn s.nodes (Stmt.bound false s)) →
    ((stmt S s k).1.sites p).length = (s.sites p).length
  | .define ⟨name, params, body, decorators, returns, isAsync⟩, S, k, h => by
    let ps := (exprParams S params (exprList S decorators k).2).1
    let j := (exprParams S params (exprList S decorators k).2).2
    -- The names of the function are not bound anew in it, and it binds no function that idioms ask for.
    have hbody (hP : P) : Within [] callees ((functionScope ps body j).2.1 :: S)
        (functionScope ps body j).2.2 ∧ Clear body := by
      obtain ⟨hS, hclear⟩ := h hP
      have htop := hclear.lucid _ List.mem_cons_self
      have hparams := (hS.list decorators).params params
      refine ⟨within_function hparams ps body ?_, ⟨fun x hx => ?_, fun n hn => ?_⟩⟩
      · rw [boundNames_exprParams]
        exact htop.callees
      · refine hclear.lucid x (List.mem_cons_of_mem _ ?_)
        exact List.mem_append_right _ (List.mem_append_right _ hx)
      · exact htop.constants (n, body) (List.mem_map_of_mem hn)
    exact sitesFrom_stmtList hp body hbody (hp body hbody) 0
  | .cond t body orelse, S, k, h | .whileLoop t body orelse, S, k, h => by
    have hbody (hP : P) : Within [] callees S (expr S t k).2 ∧ Clear body := by
      obtain ⟨hS, hclear⟩ := h hP
      refine ⟨hS.expr t, hclear.mono ?_ (List.subset_append_left _ _)⟩
      exact List.subset_cons_of_subset _ (List.subset_append_of_subset_right _ (List.subset_append_left _ _))
    have horelse (hP : P) : Within [] callees S (stmtList S body (expr S t k).2).2 ∧ Clear orelse := by
      obtain ⟨hS, hclear⟩ := h hP
      refine ⟨(hS.expr t).block body, hclear.mono ?_ (List.subset_append_right _ _)⟩
      exact List.subset_cons_of_subset _ (List.subset_append_of_subset_right _ (List.subset_append_right _ _))
    simp only [stmt, bind_apply, pure_apply, Stmt.sites, List.length_append,
      sitesFrom_stmtList hp body hbody (hp body hbody),
      sitesFrom_stmtList hp orelse horelse (hp orelse horelse)]
  | .forLoop t i body orelse, S, k, h => by
    have hbody (hP : P) : Within [] callees S (expr S t (expr S i k).2).2 ∧ Clear body := by
      obtain ⟨hS, hclear⟩ := h hP
      refine ⟨(hS.expr i).expr t, hclear.mono ?_ ?_⟩
      · exact List.subset_cons_of_subset _
          (List.subset_append_of_subset_right _ (List.subset_append_left _ _))
      · exact List.subset_append_of_subset_right _ (List.subset_append_left _ _)
    have horelse (hP : P) : Within [] callees S (stmtList S body (expr S t (expr S i k).2).2).2 ∧
        Clear orelse := by
      obtain ⟨hS, hclear⟩ := h hP
      refine ⟨((hS.expr i).expr t).block body, hclear.mono ?_ ?_⟩
      · exact List.subset_cons_of_subset _
          (List.subset_append_of_subset_right _ (List.subset_append_right _ _))
      · exact List.subset_append_of_subset_right _ (List.subset_append_right _ _)
    simp only [stmt, bind_apply, pure_apply, Stmt.sites, List.length_append,
      sitesFrom_stmtList hp body hbody (hp body hbody),
      sitesFrom_stmtList hp orelse horelse (hp orelse horelse)]
  | .tryBlock body hs orelse final, S, k, h => by
    have hbody (hP : P) : Within [] callees S k ∧ Clear body := by
      obtain ⟨hS, hclear⟩ := h hP
      refine ⟨hS, hclear.mono ?_ (List.subset_append_left _ _)⟩
      exact List.subset_cons_of_subset _ (List.subset_append_left _ _)
    have hhs (hP : P) : Within [] callees S (stmtList S body k).2 ∧
        ClearIn (Stmt.nodesHandlers hs) (Stmt.boundHandlers false hs) := by
      obtain ⟨hS, hclear⟩ := h hP
      refine ⟨hS.block body, hclear.mono ?_ ?_⟩
      · exact List.subset_cons_of_subset _
          (List.subset_append_of_subset_right _ (List.subset_append_left _ _))
      · exact List.subset_append_of_subset_right _ (List.subset_append_left _ _)
    -- The branches behind the handlers.
    have hlater (hP : P) : ClearIn (Stmt.nodesList orelse ++ Stmt.nodesList final)
        (Stmt.boundList false orelse ++ Stmt.boundList false final) := by
      refine (h hP).2.mono ?_ ?_
      · exact List.subset_cons_of_subset _
          (List.subset_append_of_subset_right _ (List.subset_append_right _ _))
      · exact List.subset_append_of_subset_right _ (List.subset_append_right _ _)
    have horelse (hP : P) : Within [] callees S (stmtHandlers S hs (stmtList S body k).2).2 ∧ Clear orelse :=
      ⟨((h hP).1.block body).handlers hs,
        (hlater hP).mono (List.subset_append_left _ _) (List.subset_append_left _ _)⟩
    have hfinal (hP : P) : Within [] callees S
        (stmtList S orelse (stmtHandlers S hs (stmtList S body k).2).2).2 ∧ Clear final :=
      ⟨(horelse hP).1.block orelse,
        (hlater hP).mono (List.subset_append_right _ _) (List.subset_append_right _ _)⟩
    simp only [stmt, bind_apply, pure_apply, Stmt.sites, List.length_append,
      sitesFrom_stmtList hp body hbody (hp body hbody), sitesHandlers_stmtHandlers hp hs hhs,
      sitesFrom_stmtList hp orelse horelse (hp orelse horelse),
      sitesFrom_stmtList hp final hfinal (hp final hfinal)]
  | .ret _, _, _, _ | .assign _ _ _, _, _, _ | .augAssign _ _ _, _, _, _ | .expr _, _, _, _
  | .raise _ _, _, _, _ | .assert _ _, _, _, _ | .importNames _, _, _, _ | .importFrom _ _, _, _, _
  | .globals _, _, _, _ | .nonlocals _, _, _, _ | .pass, _, _, _ | .break, _, _, _ | .continue, _, _, _
  | .verbatim _ _ _, _, _, _ => rfl

theorem sitesFrom_stmtList (hp : SeesUnder P p) : (ss : List Stmt) → ∀ {S : Scopes} {k : Nat},
    (P → Within [] callees S k ∧ Clear ss) → ∀ {block block' : Block}, (∀ i, p block' i = p block i) →
    ∀ i, (Stmt.sitesFrom p block' (stmtList S ss k).1 i).length = (Stmt.sitesFrom p block ss i).length
  | [], _, _, _, _, _, _, _ => rfl
  | s :: ss, S, k, h, block, block', hblock, i => by
    have hs (hP : P) : Within [] callees S k ∧ ClearIn s.nodes (Stmt.bound false s) := by
      obtain ⟨hS, hclear⟩ := h hP
      exact ⟨hS, hclear.mono (List.subset_append_left _ _) (List.subset_append_left _ _)⟩
    have hss (hP : P) : Within [] callees S (stmt S s k).2 ∧ Clear ss := by
      obtain ⟨hS, hclear⟩ := h hP
      exact ⟨hS.stmt s, hclear.mono (List.subset_append_right _ _) (List.subset_append_right _ _)⟩
    simp only [stmtList, bind_apply, pure_apply, Stmt.sitesFrom, List.length_append, sites_stmt hp s hs,
      sitesFrom_stmtList hp ss hss hblock, hblock]
    split <;> rfl

theorem sitesHandlers_stmtHandlers (hp : SeesUnder P p) : (hs : List (HandlerOf Stmt)) →
    ∀ {S : Scopes} {k : Nat},
    (P → Within [] callees S k ∧ ClearIn (Stmt.nodesHandlers hs) (Stmt.boundHandlers false hs)) →
    (Stmt.sitesHandlers p (stmtHandlers S hs k).1).length = (Stmt.sitesHandlers p hs).length
  | [], _, _, _ => rfl
  | ⟨type, name, body⟩ :: hs, S, k, h => by
    have hbody (hP : P) : Within [] callees S (exprOption S type k).2 ∧ Clear body := by
      obtain ⟨hS, hclear⟩ := h hP
      refine ⟨hS.option type, hclear.mono ?_ ?_⟩
      · exact List.subset_append_of_subset_right _ (List.subset_append_left _ _)
      · exact List.subset_append_of_subset_right _ (List.subset_append_left _ _)
    have hhs (hP : P) : Within [] callees S (stmtList S body (exprOption S type k).2).2 ∧
        ClearIn (Stmt.nodesHandlers hs) (Stmt.boundHandlers false hs) := by
      obtain ⟨hS, hclear⟩ := h hP
      refine ⟨(hS.option type).block body, hclear.mono ?_ ?_⟩
      · exact List.subset_append_of_subset_right _ (List.subset_append_right _ _)
      · exact List.subset_append_of_subset_right _ (List.subset_append_right _ _)
    simp only [stmtHandlers, bind_apply, pure_apply, Stmt.sitesHandlers, List.length_append,
      sitesFrom_stmtList hp body hbody (hp body hbody), sitesHandlers_stmtHandlers hp hs hhs]

end

/-- The normal form of a function has as many positions that satisfy `p`. -/
theorem sites_function (hp : SeesUnder P p) {f : Function} (h : P → f.Lucid) :
    (Block.sites p (Normal.function f).body).length = (Block.sites p f.body).length := by
  have hbody (hP : P) := And.intro (h hP).within (h hP).clear
  rw [body_function]
  exact sitesFrom_stmtList hp f.body hbody (hp f.body hbody) 0

/-- The idioms of statements that compare names. -/
def comparisons : List (Block → Nat → Bool) :=
  [isPrint, isReturnChain, isAccumulatorLoop, isConcatLoop, isIndexIteration]

theorem seesBlock_of_mem (h : p ∈ comparisons) : SeesBlock p := by
  simp only [comparisons, List.mem_cons, List.not_mem_nil, or_false] at h
  rcases h with rfl | rfl | rfl | rfl | rfl
  · exact isPrint_stmtList
  · exact isReturnChain_stmtList
  · exact isAccumulatorLoop_stmtList
  · exact isConcatLoop_stmtList
  · exact isIndexIteration_stmtList

/-! ### Expressions -/

/-- The normal form of a function has as many expressions that satisfy `p`, if normal forms of its expressions
satisfy `p` where they do. -/
theorem count_function {p : Expr → Bool} {spared : List String} {f : Function}
    (hf : ∀ n ∈ (Node.stmt (.define f)).opened, n ∉ spared) (h : SparesNodes spared (Block.nodes f.body))
    (hp : ∀ e ∈ Block.exprs f.body, ∀ {R : Scopes} {k : Nat}, Within [] spared R k → p (expr R e k).1 = p e) :
    Block.count p (Normal.function f).body = Block.count p f.body := by
  have hexprs := (List.forall₂_and_left (Block.exprs f.body) _).mpr ⟨hp, exprs_function_seen hf h⟩
  refine count_eq_of_forall₂ hexprs ?_
  rintro e _ ⟨he, R, k, hR, rfl⟩
  exact he hR

theorem count_shape {p : Expr → Bool} (hp : SeesShape p) (f : Function) :
    Block.count p (Normal.function f).body = Block.count p f.body := by
  have hnone (x : Node) : ∀ n ∈ x.opened, n ∉ ([] : List String) := fun _ _ => List.not_mem_nil
  exact count_function (hnone _) (fun x _ => hnone x) fun e _ _ _ hR => hp hR.sound e

theorem count_call {p : Expr → Bool} (hp : SeesCallee p) {f : Function} (h : f.Lucid) :
    Block.count p (Normal.function f).body = Block.count p f.body :=
  count_function h.top.callees (fun x hx => (h.body x hx).callees) fun e _ _ _ hR => hp hR e

theorem count_selfProduct {f : Function} (h : f.Lucid) :
    Block.count isSelfProduct (Normal.function f).body = Block.count isSelfProduct f.body := by
  refine count_function h.top.callees (fun x hx => (h.body x hx).callees) fun e he R k hR => ?_
  obtain ⟨x, hx, hxe⟩ := List.mem_filterMap.mp he
  cases x with
  | stmt s => cases hxe
  | expr x =>
    cases hxe
    refine isSelfProduct_expr hR.sound (fun y hy m hm => ?_) ?_
    · have hinside := Stmt.closed_nodesList f.body _ hx (List.mem_map_of_mem hy)
      exact (h.body _ hinside).unreserved_mentioned hm
    · rintro l r rfl hpure
      exact (h.body _ hx).factors l List.mem_cons_self hpure

/-! ### Sites -/

/-- Functions in step give the same sites. -/
theorem sitesBy_normalize {occurrences : Function → List Nat} {m : Module}
    (h : ∀ f ∈ m.functions, occurrences (Normal.function f) = occurrences f) :
    sitesBy occurrences m.normalize = sitesBy occurrences m := by
  unfold sitesBy
  rw [Module.functions_normalize, List.flatMap_map]
  refine List.flatMap_congr fun f hf => ?_
  rw [h f hf]
  rfl

/-- Sites on a normal form are sites on the module. -/
theorem sites_normalize (m : Module) :
    (∀ p ∈ shapes, exprSites p m.normalize = exprSites p m) ∧
    (∀ p ∈ blockShapes, stmtSites p m.normalize = stmtSites p m) ∧
    ((∀ f ∈ m.functions, f.Lucid) →
      (∀ p ∈ isSelfProduct :: calls, exprSites p m.normalize = exprSites p m) ∧
      (∀ p ∈ comparisons, stmtSites p m.normalize = stmtSites p m) ∧
      materializationSites m.normalize = materializationSites m ∧
      deadStoreSites m.normalize = deadStoreSites m) := by
  refine ⟨fun p hp => ?_, fun p hp => ?_, fun h => ⟨fun p hp => ?_, fun p hp => ?_, ?_, ?_⟩⟩
  · exact sitesBy_normalize fun f _ => congrArg List.range (count_shape (seesShape_of_mem hp) f)
  · have hshape : SeesUnder False p := fun b _ i => seesBlockShape_of_mem hp _ b _ i
    exact sitesBy_normalize fun f _ => congrArg List.range (sites_function hshape False.elim)
  · refine sitesBy_normalize fun f hf => congrArg List.range ?_
    rcases List.mem_cons.mp hp with rfl | hp
    · exact count_selfProduct (h f hf)
    · exact count_call (seesCallee_of_mem hp) (h f hf)
  · have hblock : SeesUnder True p := fun b hb i => seesBlock_of_mem hp (hb trivial).1 b (hb trivial).2 i
    exact sitesBy_normalize fun f hf => congrArg List.range (sites_function hblock fun _ => h f hf)
  · exact sitesBy_normalize fun f hf => redundantMaterializations_function (h f hf)
  · exact sitesBy_normalize fun f hf => deadStores_function (h f hf)

/-- A loop over the indices of a parameter and a value that is never read, next to a comprehension and a
lambda with names of their own. -/
theorem sites_normalize_indices :
    let x : Expr := .name "x"
    let i : Expr := .name "i"
    let length : Expr := .call (.name "len") [.positional x]
    let m : Module := ⟨[.define
      { name := "f", params := [{ name := "x" }]
        body := [
          .assign [.name "t"] (.lambda [{ name := "y" }] (.name "y")) none,
          .cond (.compare length [(.eq, .int 0)]) [.ret (some (.list []))] [],
          .forLoop i (.call (.name "range") [.positional length])
            [.expr (.call (.name "print") [.positional (.subscript x i)])] [],
          .ret (some (.comp .list (.name "z") none [⟨.name "z", x, []⟩]))] }]⟩
    stmtSites isIndexIteration m.normalize = [⟨"f", 0⟩] ∧
      exprSites isEmptyCheck m.normalize = [⟨"f", 0⟩] ∧ deadStoreSites m.normalize = [⟨"f", 0⟩] := by
  intro x i length m
  have hlucid : ∀ f ∈ m.functions, f.Lucid := by decide +kernel
  obtain ⟨-, -, h⟩ := sites_normalize m
  obtain ⟨hexprs, hstmts, -, hstores⟩ := h hlucid
  rw [hstmts isIndexIteration (by simp [comparisons]), hexprs isEmptyCheck (by simp [calls]), hstores]
  decide +kernel

/-- A local variable that is called `len` loses the name, and with it the comparison of a length. -/
theorem exprSites_shadowed :
    let x : Expr := .name "x"
    let m : Module := ⟨[.define
      { name := "f", params := [{ name := "x" }]
        body := [.assign [.name "len"] (.attribute x "size") none,
          .ret (some (.compare (.call (.name "len") [.positional x]) [(.eq, .int 0)]))] }]⟩
    Module.parse? "def f(x):\n    len = x.size\n    return len(x) == 0\n" = some m ∧
      exprSites isEmptyCheck m = [⟨"f", 0⟩] ∧ exprSites isEmptyCheck m.normalize = [] := by
  decide +kernel

end Idiom

end Concord
