import Concord.Proofs.Tree.Renaming
import Mathlib.Data.List.Induction

/-!
# Normal forms of functions

Normalization changes the top-level functions of a module one by one.

Main statements:

* `Module.functions_normalize`: the functions of a normal form.
* `Normal.docstring?_function`: a normal form has the same docstring.
-/

namespace Concord

namespace Normal

/-- New names of parameters leave their defaults alone. -/
theorem subtermsParams_assignParams (ps : List Param) (scope : Placeholders) (k : Nat) :
    Expr.subtermsParams (assignParams ps scope k).1 = Expr.subtermsParams ps := by
  induction ps generalizing scope k with
  | nil => rfl
  | cons p ps ih =>
    obtain ⟨n, kind, default, note⟩ := p
    rw [assignParams]
    split
    · exact congrArg (Expr.subtermsOption default ++ ·) (ih _ _)
    · exact congrArg (Expr.subtermsOption default ++ ·) (ih _ _)

/-- The normal form of a top-level function. -/
def function (f : Function) : Function :=
  let d := exprList [] f.decorators 0
  let p := exprParams [] f.params d.2
  let s := functionScope p.1 f.body p.2
  ⟨f.name, s.1, (stmtList [s.2.1] f.body s.2.2).1, d.1, f.returns, f.isAsync⟩

theorem topLevel_define (f : Function) : topLevel (.define f) = .define (function f) := by
  rw [topLevel, stmt_define]
  rfl

/-- A normal form has the same docstring. -/
theorem docstring?_function (f : Function) : (function f).docstring? = f.docstring? := by
  obtain ⟨name, params, body, decorators, returns, isAsync⟩ := f
  cases body with
  | nil => rfl
  | cons s rest =>
    cases s with
    | expr e =>
      cases e with
      | comp kind e v cs => cases cs <;> rfl
      | _ => rfl
    | _ => rfl

end Normal

/-- The functions of a normal form are the normal forms of the functions. -/
theorem Module.functions_normalize (m : Module) :
    m.normalize.functions = m.functions.map Normal.function := by
  obtain ⟨body⟩ := m
  induction body with
  | nil => rfl
  | cons s rest ih =>
    cases s with
    | define f =>
      rw [normalize, List.map_cons, Normal.topLevel_define]
      exact congrArg (Normal.function f :: ·) ih
    | _ => exact ih

end Concord

/-!
# Normalizing a normal form

The second pass over a normal form reads its scopes off placeholders. Where the first pass had a
scope `σ`, the second one has `σ.settle`, in which every placeholder of `σ` stands for itself; so it
renames nothing, and it hands out the same placeholders in the same order.

This needs the `global` and `nonlocal` declarations to be sound (`Stmt.wellDeclared`). A `global`
declaration keeps its names, but the uses of a name that an enclosing function binds get the
placeholder of that function: in the normal form such a name is no longer declared where it is
bound, and the second pass takes it for a local one.

Main statements:

* `Normal.expr_settle`, `Normal.stmt_settle`: the second pass over an expression and a statement.
* `Module.normalize_normalize`: normalization is idempotent on modules with sound declarations.
* `Module.normalize_normalize_shadowed`: it is not on a module without them.
-/

namespace Concord

/-! ## Placeholders -/

/-- A name of the form of a placeholder: `_v` and digits. -/
def isReserved (n : String) : Bool :=
  match n.toList with
  | '_' :: 'v' :: digits => !digits.isEmpty && digits.all Char.isDigit
  | _ => false

theorem toList_placeholder (k : Nat) :
    (placeholder k).toList = '_' :: 'v' :: Nat.toDigits 10 k := by
  simp [placeholder, ToString.toString, Nat.repr]

theorem isReserved_placeholder (k : Nat) : isReserved (placeholder k) = true := by
  have hdigits : ∀ c ∈ Nat.toDigits 10 k, c.isDigit = true := by
    intro c hc
    exact Nat.isDigit_of_mem_toDigits (by decide) (by decide) hc
  simp only [isReserved, toList_placeholder, List.all_eq_true.mpr hdigits, Bool.and_true,
    Bool.not_eq_true', List.isEmpty_eq_false_iff]
  exact Nat.toDigits_ne_nil

/-- Different numbers have different digits. -/
theorem toDigits_inj {i j : Nat} (h : Nat.toDigits 10 i = Nat.toDigits 10 j) : i = j :=
  calc i = Nat.ofDigitChars 10 (Nat.toDigits 10 i) 0 := Nat.ofDigitChars_ten_toDigits.symm
    _ = Nat.ofDigitChars 10 (Nat.toDigits 10 j) 0 := by rw [h]
    _ = j := Nat.ofDigitChars_ten_toDigits

theorem placeholder_inj {i j : Nat} (h : placeholder i = placeholder j) : i = j := by
  have hlist := congrArg String.toList h
  rw [toList_placeholder, toList_placeholder] at hlist
  exact toDigits_inj (by simpa using hlist)

namespace Placeholders

/-- The scope of the second pass: every placeholder stands for itself. -/
def settle (scope : Placeholders) : Placeholders := scope.map fun p => (p.2, p.2)

/-- All placeholders of a scope are numbered below `k`. -/
def Below (k : Nat) (scope : Placeholders) : Prop := ∀ p ∈ scope, ∃ i < k, p.2 = placeholder i

theorem Below.mono {k j : Nat} {scope : Placeholders} (h : scope.Below k) (hk : k ≤ j) :
    scope.Below j := by
  intro p hp
  obtain ⟨i, hi, he⟩ := h p hp
  exact ⟨i, Nat.lt_of_lt_of_le hi hk, he⟩

theorem Below.cons {k : Nat} {scope : Placeholders} (h : scope.Below k) (n : String) :
    Placeholders.Below (k + 1) ((n, placeholder k) :: scope) := by
  intro p hp
  rcases List.mem_cons.mp hp with rfl | hp
  · exact ⟨k, Nat.lt_succ_self k, rfl⟩
  · exact h.mono (Nat.le_succ k) p hp

theorem mem_of_lookup {scope : Placeholders} {n v : String} (h : scope.lookup n = some v) :
    (n, v) ∈ scope := by
  obtain ⟨before, after, rfl, -⟩ := List.lookup_eq_some_iff.mp h
  simp

theorem lookup_settle_of_mem {scope : Placeholders} {p : String × String} (h : p ∈ scope) :
    (scope.settle.lookup p.2).isSome = true :=
  List.lookup_isSome_iff.mpr ⟨(p.2, p.2), List.mem_map.mpr ⟨p, h, rfl⟩, BEq.rfl⟩

/-- What a settled scope binds is one of its placeholders. -/
theorem mem_of_lookup_settle {scope : Placeholders} {n v : String}
    (h : scope.settle.lookup n = some v) : v = n ∧ ∃ p ∈ scope, p.2 = n := by
  obtain ⟨p, hp, he⟩ := List.mem_map.mp (mem_of_lookup h)
  cases he
  exact ⟨rfl, p, hp, rfl⟩

theorem lookup_settle_of_le {scope : Placeholders} {k : Nat} (h : scope.Below k) :
    scope.settle.lookup (placeholder k) = none := by
  refine Option.eq_none_iff_forall_ne_some.mpr ?_
  intro v hv
  obtain ⟨-, p, hp, he⟩ := mem_of_lookup_settle hv
  obtain ⟨i, hi, hpi⟩ := h p hp
  exact Nat.ne_of_lt hi (placeholder_inj (hpi.symm.trans he))

end Placeholders

namespace Scopes

/-- The scopes of the second pass. -/
def settle (scopes : Scopes) : Scopes := scopes.map Placeholders.settle

theorem settle_cons (scope : Placeholders) (scopes : Scopes) :
    settle (scope :: scopes) = scope.settle :: scopes.settle := rfl

variable {scope : Placeholders} {scopes : Scopes} {n v : String}

theorem resolve?_of_bound (h : scope.lookup n = some v) :
    resolve? (scope :: scopes) n = some v := by
  rw [resolve?, List.findSome?_cons, h]

theorem resolve?_of_unbound (h : scope.lookup n = none) :
    resolve? (scope :: scopes) n = scopes.resolve? n := by
  rw [resolve?, List.findSome?_cons, h]
  rfl

theorem rename_of_bound (h : scope.lookup n = some v) : rename (scope :: scopes) n = v := by
  rw [rename, resolve?_of_bound h]
  rfl

theorem rename_of_unbound (h : scope.lookup n = none) :
    rename (scope :: scopes) n = scopes.rename n := by
  rw [rename, resolve?_of_unbound h]
  rfl

/-- What settled scopes resolve stands for itself and is a placeholder. -/
theorem resolve?_settle (h : scopes.settle.resolve? n = some v) :
    v = n ∧ ∃ scope ∈ scopes, ∃ p ∈ scope, p.2 = n := by
  obtain ⟨scope', hmem, hv⟩ := List.exists_of_findSome?_eq_some h
  obtain ⟨scope, hscope, rfl⟩ := List.mem_map.mp hmem
  obtain ⟨hvn, hp⟩ := Placeholders.mem_of_lookup_settle hv
  exact ⟨hvn, scope, hscope, hp⟩

@[simp] theorem rename_settle (scopes : Scopes) (n : String) : scopes.settle.rename n = n := by
  unfold rename
  cases h : scopes.settle.resolve? n with
  | none => rfl
  | some v => exact (resolve?_settle h).1

end Scopes

namespace Normal

/-! ## Handing out placeholders a second time -/

theorem assignParams_settle (ps : List Param) (scope : Placeholders) (k : Nat) :
    assignParams (assignParams ps scope k).1 scope.settle k =
      ((assignParams ps scope k).1, (assignParams ps scope k).2.1.settle,
        (assignParams ps scope k).2.2) := by
  induction ps generalizing scope k with
  | nil => rfl
  | cons p ps ih =>
    rw [assignParams]
    split
    · rename_i hsep
      simp only [assignParams, hsep, if_true, ih]
    · rename_i hsep
      have hnext := ih ((p.name, placeholder k) :: scope) (k + 1)
      rw [Placeholders.settle, List.map_cons] at hnext
      simp only [assignParams, hsep, Placeholders.settle, hnext]
      rfl

theorem assignParams_below (ps : List Param) {scope : Placeholders} {k : Nat}
    (h : scope.Below k) :
    k ≤ (assignParams ps scope k).2.2 ∧
      (assignParams ps scope k).2.1.Below (assignParams ps scope k).2.2 := by
  induction ps generalizing scope k with
  | nil => exact ⟨Nat.le_refl k, h⟩
  | cons p ps ih =>
    rw [assignParams]
    split
    · exact ih h
    · obtain ⟨hle, hbelow⟩ := ih (h.cons p.name)
      exact ⟨Nat.le_of_succ_le hle, hbelow⟩

theorem assignLocals_below (outer ns : List String) {scope : Placeholders} {k : Nat}
    (h : scope.Below k) :
    k ≤ (assignLocals outer ns scope k).2 ∧
      (assignLocals outer ns scope k).1.Below (assignLocals outer ns scope k).2 := by
  induction ns generalizing scope k with
  | nil => exact ⟨Nat.le_refl k, h⟩
  | cons n ns ih =>
    rw [assignLocals]
    split
    · exact ih h
    · obtain ⟨hle, hbelow⟩ := ih (h.cons n)
      exact ⟨Nat.le_of_succ_le hle, hbelow⟩

/-- What is bound or left out keeps what it stands for. -/
theorem lookup_assignLocals (outer ns : List String) {n : String}
    {scope : Placeholders} (k : Nat) (h : n ∈ outer ∨ (scope.lookup n).isSome = true) :
    (assignLocals outer ns scope k).1.lookup n = scope.lookup n := by
  induction ns generalizing scope k with
  | nil => rfl
  | cons m ns ih =>
    rw [assignLocals]
    split
    · exact ih k h
    · rename_i hfresh
      rw [Bool.or_eq_true, List.contains_iff_mem] at hfresh
      have hne : n ≠ m := fun he => hfresh (he ▸ h)
      have hlookup : List.lookup n ((m, placeholder k) :: scope) = scope.lookup n := by
        rw [List.lookup_cons, beq_eq_false_iff_ne.mpr hne]
      rw [ih (k + 1) (hlookup ▸ h), hlookup]

theorem assignLocals_append (outer ms ns : List String) (scope : Placeholders) (k : Nat) :
    assignLocals outer (ms ++ ns) scope k =
      assignLocals outer ns (assignLocals outer ms scope k).1 (assignLocals outer ms scope k).2 := by
  induction ms generalizing scope k with
  | nil => rfl
  | cons m ms ih =>
    rw [List.cons_append, assignLocals, assignLocals]
    split
    · exact ih scope k
    · exact ih _ _

/-- Only the first occurrence of a name counts. -/
theorem assignLocals_names (outer seen ns : List String) (scope : Placeholders) (k : Nat) :
    assignLocals outer (Names.append seen ns) scope k =
      assignLocals outer ns (assignLocals outer seen scope k).1
        (assignLocals outer seen scope k).2 := by
  induction ns generalizing seen with
  | nil => rfl
  | cons n ns ih =>
    rw [Names.append, List.foldl_cons, ← Names.append, ih, assignLocals]
    by_cases hn : n ∈ seen
    · have hskip : (outer.contains n ||
          ((assignLocals outer seen scope k).1.lookup n).isSome) = true := by
        by_cases hout : n ∈ outer
        · simp [hout]
        · simp [assignLocals_binds k (.inr ⟨hn, hout⟩)]
      rw [if_pos (List.contains_iff_mem.mpr hn), if_pos hskip]
    · rw [if_neg (fun h => hn (List.contains_iff_mem.mp h)), assignLocals_append, assignLocals]
      split <;> rfl

theorem assignLocals_boundNames (outer : List String) (b : Block) (scope : Placeholders) (k : Nat) :
    assignLocals outer (b.boundNames false) scope k =
      assignLocals outer (Stmt.boundList false b) scope k :=
  assignLocals_names outer [] _ scope k

/-- The second pass over the locals of a function. `f` is the renaming of the first pass: a name that
the scope binds becomes its placeholder, one that is left out is left out again, and the placeholders
still to come are not left out. -/
theorem assignLocals_settle {outer outer' ns : List String} {scope : Placeholders} {k : Nat}
    {f : String → String} (hbelow : scope.Below k)
    (hbound : ∀ n ∈ ns, ∀ v, (assignLocals outer ns scope k).1.lookup n = some v → f n = v)
    (hleft : ∀ n ∈ ns, n ∈ outer → scope.lookup n = none → f n ∈ outer')
    (hfresh : ∀ j, k ≤ j → placeholder j ∉ outer') :
    assignLocals outer' (ns.map f) scope.settle k =
      ((assignLocals outer ns scope k).1.settle, (assignLocals outer ns scope k).2) := by
  induction ns generalizing scope k with
  | nil => rfl
  | cons n ns ih =>
    have hhead := hbound n List.mem_cons_self
    rw [assignLocals] at hhead hbound ⊢
    rw [List.map_cons, assignLocals]
    by_cases hskip : (outer.contains n || (scope.lookup n).isSome) = true
    · simp only [if_pos hskip] at hhead hbound ⊢
      have hskip' : (outer'.contains (f n) || (scope.settle.lookup (f n)).isSome) = true := by
        rw [Bool.or_eq_true, List.contains_iff_mem] at hskip ⊢
        cases hn : scope.lookup n with
        | none => exact .inl (hleft n List.mem_cons_self (hskip.resolve_right (by simp [hn])) hn)
        | some v =>
          have hkeep := lookup_assignLocals outer ns k hskip
          rw [hhead v (hkeep.trans hn)]
          exact .inr (Placeholders.lookup_settle_of_mem (Placeholders.mem_of_lookup hn))
      rw [if_pos hskip']
      exact ih hbelow (fun m hm => hbound m (List.mem_cons_of_mem _ hm))
        (fun m hm => hleft m (List.mem_cons_of_mem _ hm)) hfresh
    · simp only [if_neg hskip] at hhead hbound ⊢
      have hnew : List.lookup n ((n, placeholder k) :: scope) = some (placeholder k) := by simp
      have hkeep := lookup_assignLocals outer ns (k + 1) (.inr (Option.isSome_of_eq_some hnew))
      have hfn : f n = placeholder k := hhead _ (hkeep.trans hnew)
      have hskip' : ¬ (outer'.contains (f n) || (scope.settle.lookup (f n)).isSome) = true := by
        rw [hfn, Placeholders.lookup_settle_of_le hbelow]
        simpa using hfresh k (Nat.le_refl k)
      rw [if_neg hskip', hfn]
      refine ih (hbelow.cons n) (fun m hm => hbound m (List.mem_cons_of_mem _ hm)) ?_
        (fun j hj => hfresh j (Nat.le_of_succ_le hj))
      intro m hm hout hnone
      refine hleft m (List.mem_cons_of_mem _ hm) hout ?_
      rw [List.lookup_cons] at hnone
      split at hnone
      · cases hnone
      · exact hnone

/-! ## Comprehensions

Their names are handed out without a look at the scope: `assign` gets every name once. -/

theorem lookup_assign (ns : List String) (n : String) (k : Nat) :
    ((assign ns k).1.lookup n).isSome = true ↔ n ∈ ns := by
  induction ns using List.reverseRecOn with
  | nil => simp [assign]
  | append_singleton ns m ih =>
    rw [assign, List.foldl_append, ← assign, List.foldl_cons, List.foldl_nil, List.lookup_cons,
      List.mem_append, List.mem_singleton, ← ih]
    split
    · rename_i he
      simp [beq_iff_eq.mp he]
    · rename_i he
      simp [beq_eq_false_iff_ne.mp he]

theorem assign_names (seen ns : List String) (k : Nat) :
    assign (Names.append seen ns) k =
      assignLocals [] ns (assign seen k).1 (assign seen k).2 := by
  induction ns generalizing seen with
  | nil => rfl
  | cons n ns ih =>
    rw [Names.append, List.foldl_cons, ← Names.append, ih, assignLocals]
    by_cases hn : n ∈ seen
    · simp [hn, (lookup_assign seen n k).mpr hn]
    · have hnone : ¬ ((assign seen k).1.lookup n).isSome = true :=
        fun h => hn ((lookup_assign seen n k).mp h)
      rw [if_neg (fun h => hn (List.contains_iff_mem.mp h)),
        show assign (seen ++ [n]) k =
          ((n, placeholder (assign seen k).2) :: (assign seen k).1, (assign seen k).2 + 1) by
          rw [assign, List.foldl_append]; rfl]
      simp [hnone]

/-- The second pass over the names of a comprehension. -/
theorem assign_settle {ns : List String} {k : Nat} {a : Placeholders × Nat}
    (ha : assign (Names.append [] ns) k = a) (scopes : Scopes) :
    assign (Names.append [] (ns.map (Scopes.rename (a.1 :: scopes)))) k = (a.1.settle, a.2) := by
  rw [assign_names, show assign [] k = ([], k) from rfl] at ha ⊢
  subst ha
  show assignLocals [] _ (Placeholders.settle []) k = _
  refine assignLocals_settle ?_ ?_ ?_ ?_
  · simp [Placeholders.Below]
  · intro n _ v hv
    exact Scopes.rename_of_bound hv
  · simp
  · simp

/-! ## Expressions -/

theorem bind_apply {α β : Type} (x : StateM Nat α) (f : α → StateM Nat β) (k : Nat) :
    (x >>= f) k = f (x k).1 (x k).2 := rfl

theorem pure_apply {α : Type} (a : α) (k : Nat) : (pure a : StateM Nat α) k = (a, k) := rfl

mutual

/-- The names that the normal form of a target binds. -/
theorem targetNames_expr : (e : Expr) → (scopes : Scopes) → (k : Nat) →
    (expr scopes e k).1.targetNames = e.targetNames.map scopes.rename
  | .name _, _, _ => rfl
  | .tuple items, scopes, k => targetNamesList_expr items scopes k
  | .list items, scopes, k => targetNamesList_expr items scopes k
  | .starred a, scopes, k => targetNames_expr a scopes k
  | .int _, _, _ | .float _, _, _ | .str _, _, _ | .bool _, _, _ | .none, _, _
  | .verbatim _, _, _ | .bin _ _ _, _, _ | .unary _ _, _, _ | .logic _ _ _, _, _
  | .compare _ _, _, _ | .call _ _, _, _ | .attribute _ _, _, _ | .subscript _ _, _, _
  | .slice _ _ _, _, _ | .set _, _, _ | .dict _, _, _ | .ifExp _ _ _, _, _ | .lambda _ _, _, _
  | .comp _ _ _ [], _, _ | .comp _ _ _ (_ :: _), _, _ => rfl

theorem targetNamesList_expr : (es : List Expr) → (scopes : Scopes) → (k : Nat) →
    Expr.targetNamesList (exprList scopes es k).1 =
      (Expr.targetNamesList es).map scopes.rename
  | [], _, _ => rfl
  | e :: es, scopes, k => by
    show (expr scopes e k).1.targetNames ++ Expr.targetNamesList (exprList scopes es _).1 = _
    rw [targetNames_expr, targetNamesList_expr, Expr.targetNamesList, List.map_append]

end

theorem targetNamesClauses_expr (cs : List Clause) (scopes : Scopes) (k : Nat) :
    (exprClauses scopes cs k).1.flatMap (·.target.targetNames) =
      (cs.flatMap (·.target.targetNames)).map scopes.rename := by
  induction cs generalizing k with
  | nil => rfl
  | cons c cs ih =>
    obtain ⟨t, i, ifs⟩ := c
    show (expr scopes t _).1.targetNames ++ (exprClauses scopes cs _).1.flatMap _ = _
    rw [targetNames_expr, ih, List.flatMap_cons, List.map_append]

/-- Normalization of defaults goes together with giving placeholders to the parameters. -/
theorem exprParams_assignParams (scopes : Scopes) (ps : List Param) (scope : Placeholders)
    (j k : Nat) :
    exprParams scopes (assignParams ps scope j).1 k =
      ((assignParams (exprParams scopes ps k).1 scope j).1, (exprParams scopes ps k).2) := by
  induction ps generalizing scope j k with
  | nil => rfl
  | cons p ps ih =>
    obtain ⟨n, kind, default, note⟩ := p
    simp only [assignParams, exprParams, bind_apply, pure_apply]
    split
    · simp only [exprParams, bind_apply, pure_apply, ih]
    · simp only [exprParams, bind_apply, pure_apply, ih]

mutual

/-- The second pass over an expression: nothing changes, and the placeholders are handed out in the
same order. -/
theorem expr_settle : (e : Expr) → (scopes : Scopes) → (k : Nat) →
    expr scopes.settle (expr scopes e k).1 k = expr scopes e k
  | .name n, scopes, k => by simp only [expr, pure_apply, Scopes.rename_settle]
  | .int _, _, _ | .float _, _, _ | .str _, _, _ | .bool _, _, _ | .none, _, _
  | .verbatim _, _, _ => rfl
  | .bin _ l r, scopes, k => by
    simp only [expr, bind_apply, pure_apply, expr_settle l, expr_settle r]
  | .unary _ a, scopes, k => by simp only [expr, bind_apply, pure_apply, expr_settle a]
  | .logic _ l r, scopes, k => by
    simp only [expr, bind_apply, pure_apply, expr_settle l, expr_settle r]
  | .compare l links, scopes, k => by
    simp only [expr, bind_apply, pure_apply, expr_settle l, exprLinks_settle links]
  | .call f args, scopes, k => by
    simp only [expr, bind_apply, pure_apply, expr_settle f, exprArgs_settle args]
  | .attribute a _, scopes, k => by simp only [expr, bind_apply, pure_apply, expr_settle a]
  | .subscript a i, scopes, k => by
    simp only [expr, bind_apply, pure_apply, expr_settle a, expr_settle i]
  | .slice a b c, scopes, k => by
    simp only [expr, bind_apply, pure_apply, exprOption_settle a, exprOption_settle b,
      exprOption_settle c]
  | .list items, scopes, k => by simp only [expr, bind_apply, pure_apply, exprList_settle items]
  | .tuple items, scopes, k => by simp only [expr, bind_apply, pure_apply, exprList_settle items]
  | .set items, scopes, k => by simp only [expr, bind_apply, pure_apply, exprList_settle items]
  | .dict entries, scopes, k => by
    simp only [expr, bind_apply, pure_apply, exprEntries_settle entries]
  | .ifExp t a b, scopes, k => by
    simp only [expr, bind_apply, pure_apply, expr_settle t, expr_settle a, expr_settle b]
  | .starred a, scopes, k => by simp only [expr, bind_apply, pure_apply, expr_settle a]
  | .lambda ps b, scopes, k => by
    have hparams := exprParams_settle ps scopes k
    rw [expr_lambda]
    generalize exprParams scopes ps k = p at hparams
    have hbody := expr_settle b ((assignParams p.1 [] p.2).2.1 :: scopes) (assignParams p.1 [] p.2).2.2
    rw [Scopes.settle_cons] at hbody
    have hagain := assignParams_settle p.1 [] p.2
    rw [expr_lambda]
    simp only [exprParams_assignParams, hparams]
    simp only [show Placeholders.settle [] = [] from rfl] at hagain
    simp only [hagain, hbody]
  | .comp kind e v [], scopes, k => by
    have he := expr_settle e ([] :: scopes)
    have hv := exprOption_settle v ([] :: scopes)
    rw [Scopes.settle_cons] at he hv
    simp only [expr, bind_apply, pure_apply]
    simp only [show Placeholders.settle [] = [] from rfl] at he hv
    simp only [he, hv]
  | .comp kind e v (⟨t, i, ifs⟩ :: cs), scopes, k => by
    have hiter := expr_settle i scopes k
    rw [expr_comp]
    generalize expr scopes i k = i' at hiter
    generalize ha : assign
      (Names.append [] (t.targetNames ++ cs.flatMap (·.target.targetNames))) i'.2 = a
    have hnames := assign_settle ha scopes
    have ht := expr_settle t (a.1 :: scopes)
    have hifs := exprList_settle ifs (a.1 :: scopes)
    have hcs := exprClauses_settle cs (a.1 :: scopes)
    have he := expr_settle e (a.1 :: scopes)
    have hv := exprOption_settle v (a.1 :: scopes)
    rw [Scopes.settle_cons] at ht hifs hcs he hv
    rw [List.map_append] at hnames
    rw [expr_comp]
    simp only [hiter, targetNames_expr, targetNamesClauses_expr, ha, hnames, ht, hifs, hcs, he, hv]

theorem exprOption_settle : (o : Option Expr) → (scopes : Scopes) → (k : Nat) →
    exprOption scopes.settle (exprOption scopes o k).1 k = exprOption scopes o k
  | none, _, _ => rfl
  | some e, scopes, k => by simp only [exprOption, bind_apply, pure_apply, expr_settle e]

theorem exprList_settle : (es : List Expr) → (scopes : Scopes) → (k : Nat) →
    exprList scopes.settle (exprList scopes es k).1 k = exprList scopes es k
  | [], _, _ => rfl
  | e :: es, scopes, k => by
    simp only [exprList, bind_apply, pure_apply, expr_settle e, exprList_settle es]

theorem exprLinks_settle : (ls : List (CmpOp × Expr)) → (scopes : Scopes) → (k : Nat) →
    exprLinks scopes.settle (exprLinks scopes ls k).1 k = exprLinks scopes ls k
  | [], _, _ => rfl
  | (_, e) :: ls, scopes, k => by
    simp only [exprLinks, bind_apply, pure_apply, expr_settle e, exprLinks_settle ls]

theorem exprArgs_settle : (as : List Arg) → (scopes : Scopes) → (k : Nat) →
    exprArgs scopes.settle (exprArgs scopes as k).1 k = exprArgs scopes as k
  | [], _, _ => rfl
  | .positional e :: as, scopes, k | .keyword _ e :: as, scopes, k | .star e :: as, scopes, k
  | .doubleStar e :: as, scopes, k => by
    simp only [exprArgs, bind_apply, pure_apply, expr_settle e, exprArgs_settle as]

theorem exprEntries_settle : (es : List (Expr × Expr)) → (scopes : Scopes) → (k : Nat) →
    exprEntries scopes.settle (exprEntries scopes es k).1 k = exprEntries scopes es k
  | [], _, _ => rfl
  | (x, v) :: es, scopes, k => by
    simp only [exprEntries, bind_apply, pure_apply, expr_settle x, expr_settle v,
      exprEntries_settle es]

theorem exprClauses_settle : (cs : List Clause) → (scopes : Scopes) → (k : Nat) →
    exprClauses scopes.settle (exprClauses scopes cs k).1 k = exprClauses scopes cs k
  | [], _, _ => rfl
  | ⟨t, i, ifs⟩ :: cs, scopes, k => by
    simp only [exprClauses, bind_apply, pure_apply, expr_settle i, expr_settle t,
      exprList_settle ifs, exprClauses_settle cs]

theorem exprParams_settle : (ps : List Param) → (scopes : Scopes) → (k : Nat) →
    exprParams scopes.settle (exprParams scopes ps k).1 k = exprParams scopes ps k
  | [], _, _ => rfl
  | ⟨_, _, default, _⟩ :: ps, scopes, k => by
    simp only [exprParams, bind_apply, pure_apply, exprOption_settle default, exprParams_settle ps]

end

/-! ## The number of placeholders in use only grows -/

theorem le_assign (ns : List String) (k : Nat) : k ≤ (assign ns k).2 := by
  induction ns using List.reverseRecOn with
  | nil => exact Nat.le_refl k
  | append_singleton ns m ih =>
    rw [assign, List.foldl_append, ← assign]
    exact Nat.le_succ_of_le ih

theorem le_assignParams (ps : List Param) (k : Nat) : k ≤ (assignParams ps [] k).2.2 :=
  (assignParams_below ps (by simp [Placeholders.Below])).1

mutual

theorem le_expr : (e : Expr) → (scopes : Scopes) → (k : Nat) → k ≤ (expr scopes e k).2
  | .bin _ l r, scopes, k => Nat.le_trans (le_expr l scopes k) (le_expr r scopes _)
  | .unary _ a, scopes, k => le_expr a scopes k
  | .logic _ l r, scopes, k => Nat.le_trans (le_expr l scopes k) (le_expr r scopes _)
  | .compare l links, scopes, k => Nat.le_trans (le_expr l scopes k) (le_exprLinks links scopes _)
  | .call f args, scopes, k => Nat.le_trans (le_expr f scopes k) (le_exprArgs args scopes _)
  | .attribute a _, scopes, k => le_expr a scopes k
  | .subscript a i, scopes, k => Nat.le_trans (le_expr a scopes k) (le_expr i scopes _)
  | .slice a b c, scopes, k =>
    Nat.le_trans (le_exprOption a scopes k)
      (Nat.le_trans (le_exprOption b scopes _) (le_exprOption c scopes _))
  | .list items, scopes, k => le_exprList items scopes k
  | .tuple items, scopes, k => le_exprList items scopes k
  | .set items, scopes, k => le_exprList items scopes k
  | .dict entries, scopes, k => le_exprEntries entries scopes k
  | .ifExp t a b, scopes, k =>
    Nat.le_trans (le_expr t scopes k) (Nat.le_trans (le_expr a scopes _) (le_expr b scopes _))
  | .starred a, scopes, k => le_expr a scopes k
  | .lambda ps b, scopes, k =>
    Nat.le_trans (le_exprParams ps scopes k)
      (Nat.le_trans (le_assignParams _ _) (le_expr b _ _))
  | .comp _ e v [], _, k => Nat.le_trans (le_expr e _ k) (le_exprOption v _ _)
  | .comp _ e v (⟨t, i, ifs⟩ :: cs), scopes, k =>
    Nat.le_trans (le_expr i scopes k) <| Nat.le_trans (le_assign _ _) <|
      Nat.le_trans (le_expr t _ _) <| Nat.le_trans (le_exprList ifs _ _) <|
        Nat.le_trans (le_exprClauses cs _ _) <| Nat.le_trans (le_expr e _ _) (le_exprOption v _ _)
  | .name _, _, k | .int _, _, k | .float _, _, k | .str _, _, k | .bool _, _, k | .none, _, k
  | .verbatim _, _, k => Nat.le_refl k

theorem le_exprOption : (o : Option Expr) → (scopes : Scopes) → (k : Nat) →
    k ≤ (exprOption scopes o k).2
  | none, _, k => Nat.le_refl k
  | some e, scopes, k => le_expr e scopes k

theorem le_exprList : (es : List Expr) → (scopes : Scopes) → (k : Nat) →
    k ≤ (exprList scopes es k).2
  | [], _, k => Nat.le_refl k
  | e :: es, scopes, k => Nat.le_trans (le_expr e scopes k) (le_exprList es scopes _)

theorem le_exprLinks : (ls : List (CmpOp × Expr)) → (scopes : Scopes) → (k : Nat) →
    k ≤ (exprLinks scopes ls k).2
  | [], _, k => Nat.le_refl k
  | (_, e) :: ls, scopes, k => Nat.le_trans (le_expr e scopes k) (le_exprLinks ls scopes _)

theorem le_exprArgs : (as : List Arg) → (scopes : Scopes) → (k : Nat) →
    k ≤ (exprArgs scopes as k).2
  | [], _, k => Nat.le_refl k
  | .positional e :: as, scopes, k | .keyword _ e :: as, scopes, k | .star e :: as, scopes, k
  | .doubleStar e :: as, scopes, k => Nat.le_trans (le_expr e scopes k) (le_exprArgs as scopes _)

theorem le_exprEntries : (es : List (Expr × Expr)) → (scopes : Scopes) → (k : Nat) →
    k ≤ (exprEntries scopes es k).2
  | [], _, k => Nat.le_refl k
  | (x, v) :: es, scopes, k =>
    Nat.le_trans (le_expr x scopes k)
      (Nat.le_trans (le_expr v scopes _) (le_exprEntries es scopes _))

theorem le_exprClauses : (cs : List Clause) → (scopes : Scopes) → (k : Nat) →
    k ≤ (exprClauses scopes cs k).2
  | [], _, k => Nat.le_refl k
  | ⟨t, i, ifs⟩ :: cs, scopes, k =>
    Nat.le_trans (le_expr i scopes k) <| Nat.le_trans (le_expr t scopes _) <|
      Nat.le_trans (le_exprList ifs scopes _) (le_exprClauses cs scopes _)

theorem le_exprParams : (ps : List Param) → (scopes : Scopes) → (k : Nat) →
    k ≤ (exprParams scopes ps k).2
  | [], _, k => Nat.le_refl k
  | ⟨_, _, default, _⟩ :: ps, scopes, k =>
    Nat.le_trans (le_exprOption default scopes k) (le_exprParams ps scopes _)

end

theorem functionScope_below (ps : List Param) (body : Block) (k : Nat) :
    k ≤ (functionScope ps body k).2.2 ∧
      (functionScope ps body k).2.1.Below (functionScope ps body k).2.2 := by
  have hempty : Placeholders.Below k [] := by simp [Placeholders.Below]
  obtain ⟨hle, hparams⟩ := assignParams_below ps hempty
  obtain ⟨hle', hlocals⟩ :=
    assignLocals_below body.declaredOuter (body.boundNames false) hparams
  exact ⟨Nat.le_trans hle hle', hlocals⟩

mutual

theorem le_stmt : (s : Stmt) → (scopes : Scopes) → (k : Nat) → k ≤ (stmt scopes s k).2
  | .define ⟨_, params, body, decorators, _, _⟩, scopes, k =>
    Nat.le_trans (le_exprList decorators scopes k) <|
      Nat.le_trans (le_exprParams params scopes _) <|
        Nat.le_trans (functionScope_below _ body _).1 (le_stmtList body _ _)
  | .ret v, scopes, k => le_exprOption v scopes k
  | .assign ts v _, scopes, k => Nat.le_trans (le_expr v scopes k) (le_exprList ts scopes _)
  | .augAssign t _ v, scopes, k => Nat.le_trans (le_expr t scopes k) (le_expr v scopes _)
  | .expr e, scopes, k => le_expr e scopes k
  | .cond t body orelse, scopes, k | .whileLoop t body orelse, scopes, k =>
    Nat.le_trans (le_expr t scopes k)
      (Nat.le_trans (le_stmtList body scopes _) (le_stmtList orelse scopes _))
  | .forLoop t i body orelse, scopes, k =>
    Nat.le_trans (le_expr i scopes k) <| Nat.le_trans (le_expr t scopes _) <|
      Nat.le_trans (le_stmtList body scopes _) (le_stmtList orelse scopes _)
  | .tryBlock body hs orelse final, scopes, k =>
    Nat.le_trans (le_stmtList body scopes k) <| Nat.le_trans (le_stmtHandlers hs scopes _) <|
      Nat.le_trans (le_stmtList orelse scopes _) (le_stmtList final scopes _)
  | .raise e c, scopes, k => Nat.le_trans (le_exprOption e scopes k) (le_exprOption c scopes _)
  | .assert t m, scopes, k => Nat.le_trans (le_expr t scopes k) (le_exprOption m scopes _)
  | .importNames _, _, k | .importFrom _ _, _, k | .globals _, _, k | .nonlocals _, _, k
  | .pass, _, k | .break, _, k | .continue, _, k | .verbatim _ _ _, _, k => Nat.le_refl k

theorem le_stmtList : (b : List Stmt) → (scopes : Scopes) → (k : Nat) →
    k ≤ (stmtList scopes b k).2
  | [], _, k => Nat.le_refl k
  | s :: ss, scopes, k => Nat.le_trans (le_stmt s scopes k) (le_stmtList ss scopes _)

theorem le_stmtHandlers : (hs : List (HandlerOf Stmt)) → (scopes : Scopes) → (k : Nat) →
    k ≤ (stmtHandlers scopes hs k).2
  | [], _, k => Nat.le_refl k
  | ⟨type, _, body⟩ :: hs, scopes, k =>
    Nat.le_trans (le_exprOption type scopes k)
      (Nat.le_trans (le_stmtList body scopes _) (le_stmtHandlers hs scopes _))

end

end Normal

/-! ## Declarations -/

/-- The local names of a function. -/
def Function.localNames (f : Function) : List String :=
  f.paramNames ++ (Block.boundNames false f.body).filter (!(Block.declaredOuter f.body).contains ·)

theorem Function.mem_localNames {f : Function} {n : String} : n ∈ f.localNames ↔ f.IsLocal n := by
  simp [localNames, IsLocal]

/-- A name that is declared to belong to an outer scope. -/
inductive Declaration where
  | global (name : String)
  | nonlocal (name : String)
deriving DecidableEq

namespace Declaration

def name : Declaration → String
  | .global n | .nonlocal n => n

/-- A declaration as it is written in the normal form: a `global` one keeps its name. -/
def rename (scopes : Scopes) : Declaration → Declaration
  | .global n => .global n
  | .nonlocal n => .nonlocal (scopes.rename n)

/-- Whether a declaration means the same to normalization as to the language, in a function that binds
the names `bound` and stands inside functions with the local names `around`. A `global` name is spelled
unlike a placeholder, and if it is bound here, no function around has it; a `nonlocal` name is one of a
function around. -/
def isSound (around bound : List String) : Declaration → Bool
  | .global n => !isReserved n && !(around.contains n && bound.contains n)
  | .nonlocal n => around.contains n

end Declaration

namespace Stmt

mutual

/-- The declarations of a statement; nested functions are not entered. -/
def declarations : Stmt → List Declaration
  | .globals ns => ns.map .global
  | .nonlocals ns => ns.map .nonlocal
  | .cond _ body orelse => declarationsList body ++ declarationsList orelse
  | .forLoop _ _ body orelse => declarationsList body ++ declarationsList orelse
  | .whileLoop _ body orelse => declarationsList body ++ declarationsList orelse
  | .tryBlock body hs orelse final =>
    declarationsList body ++
      (declarationsHandlers hs ++ (declarationsList orelse ++ declarationsList final))
  | _ => []

/-- `declarations` along a block. -/
def declarationsList : List Stmt → List Declaration
  | [] => []
  | s :: ss => declarations s ++ declarationsList ss

/-- `declarations` in exception handlers. -/
def declarationsHandlers : List (HandlerOf Stmt) → List Declaration
  | [] => []
  | ⟨_, _, body⟩ :: hs => declarationsList body ++ declarationsHandlers hs

end

mutual

/-- Whether all declarations in the functions of a statement are sound; `around` are the local names
of the functions around. -/
def wellDeclared (around : List String) : Stmt → Bool
  | .define ⟨name, params, body, decorators, returns, isAsync⟩ =>
    let f : Function := ⟨name, params, body, decorators, returns, isAsync⟩
    (declarationsList body).all (·.isSound around (boundList false body)) &&
      wellDeclaredList (f.localNames ++ around) body
  | .cond _ body orelse => wellDeclaredList around body && wellDeclaredList around orelse
  | .forLoop _ _ body orelse => wellDeclaredList around body && wellDeclaredList around orelse
  | .whileLoop _ body orelse => wellDeclaredList around body && wellDeclaredList around orelse
  | .tryBlock body hs orelse final =>
    wellDeclaredList around body &&
      (wellDeclaredHandlers around hs &&
        (wellDeclaredList around orelse && wellDeclaredList around final))
  | _ => true

/-- `wellDeclared` along a block. -/
def wellDeclaredList (around : List String) : List Stmt → Bool
  | [] => true
  | s :: ss => wellDeclared around s && wellDeclaredList around ss

/-- `wellDeclared` in exception handlers. -/
def wellDeclaredHandlers (around : List String) : List (HandlerOf Stmt) → Bool
  | [] => true
  | ⟨_, _, body⟩ :: hs => wellDeclaredList around body && wellDeclaredHandlers around hs

end

mutual

theorem declared_eq : (s : Stmt) → declared s = (declarations s).map Declaration.name
  | .globals ns | .nonlocals ns => by
    simp [declared, declarations, Function.comp_def, Declaration.name]
  | .cond _ body orelse | .forLoop _ _ body orelse | .whileLoop _ body orelse => by
    rw [declared, declarations, declaredList_eq body, declaredList_eq orelse, List.map_append]
  | .tryBlock body hs orelse final => by
    rw [declared, declarations, declaredList_eq body, declaredHandlers_eq hs,
      declaredList_eq orelse, declaredList_eq final]
    simp only [List.map_append]
  | .define _ | .ret _ | .assign _ _ _ | .augAssign _ _ _ | .expr _ | .raise _ _ | .assert _ _
  | .importNames _ | .importFrom _ _ | .pass | .break | .continue | .verbatim _ _ _ => rfl

theorem declaredList_eq : (b : List Stmt) →
    declaredList b = (declarationsList b).map Declaration.name
  | [] => rfl
  | s :: ss => by
    rw [declaredList, declarationsList, declared_eq s, declaredList_eq ss, List.map_append]

theorem declaredHandlers_eq : (hs : List (HandlerOf Stmt)) →
    declaredHandlers hs = (declarationsHandlers hs).map Declaration.name
  | [] => rfl
  | ⟨_, _, body⟩ :: hs => by
    rw [declaredHandlers, declarationsHandlers, declaredList_eq body, declaredHandlers_eq hs,
      List.map_append]

end

end Stmt

/-- Whether all declarations of a module are sound. -/
def Module.wellDeclared (m : Module) : Bool := Stmt.wellDeclaredList [] m.body

namespace Normal

theorem boundName_renameAlias (scopes : Scopes) (a : Alias) :
    (scopes.renameAlias a).boundName = scopes.rename a.boundName := by
  rw [Scopes.renameAlias, Scopes.rename]
  cases h : scopes.resolve? a.boundName with
  | none => rfl
  | some fresh => rfl

theorem map_boundName_renameAlias (scopes : Scopes) (ns : List Alias) :
    (ns.map scopes.renameAlias).map Alias.boundName =
      (ns.map Alias.boundName).map scopes.rename := by
  simp only [List.map_map, List.map_inj_left, Function.comp_apply]
  intro a _
  exact boundName_renameAlias scopes a

mutual

/-- The names that the normal form of a statement binds. -/
theorem bound_stmt : (s : Stmt) → (scopes : Scopes) → (k : Nat) →
    Stmt.bound false (stmt scopes s k).1 = (Stmt.bound false s).map scopes.rename
  | .define ⟨_, _, _, _, _, _⟩, _, _ => rfl
  | .assign ts _ _, scopes, _ => targetNamesList_expr ts scopes _
  | .augAssign t _ _, scopes, _ => targetNames_expr t scopes _
  | .forLoop t i body orelse, scopes, k => by
    simp only [stmt, bind_apply, pure_apply, Stmt.bound, targetNames_expr, boundList_stmt,
      List.map_append]
  | .cond t body orelse, scopes, k | .whileLoop t body orelse, scopes, k => by
    simp only [stmt, bind_apply, pure_apply, Stmt.bound, boundList_stmt, List.map_append]
  | .tryBlock body hs orelse final, scopes, k => by
    simp only [stmt, bind_apply, pure_apply, Stmt.bound, boundList_stmt, boundHandlers_stmt,
      List.map_append]
  | .importNames ns, scopes, _ | .importFrom _ ns, scopes, _ => map_boundName_renameAlias scopes ns
  | .ret _, _, _ | .expr _, _, _ | .raise _ _, _, _ | .assert _ _, _, _ | .globals _, _, _
  | .nonlocals _, _, _ | .pass, _, _ | .break, _, _ | .continue, _, _ | .verbatim _ _ _, _, _ => rfl

theorem boundList_stmt : (b : List Stmt) → (scopes : Scopes) → (k : Nat) →
    Stmt.boundList false (stmtList scopes b k).1 = (Stmt.boundList false b).map scopes.rename
  | [], _, _ => rfl
  | s :: ss, scopes, k => by
    simp only [stmtList, bind_apply, pure_apply, Stmt.boundList, bound_stmt s, boundList_stmt ss,
      List.map_append]

theorem boundHandlers_stmt : (hs : List (HandlerOf Stmt)) → (scopes : Scopes) → (k : Nat) →
    Stmt.boundHandlers false (stmtHandlers scopes hs k).1 =
      (Stmt.boundHandlers false hs).map scopes.rename
  | [], _, _ => rfl
  | ⟨type, name, body⟩ :: hs, scopes, k => by
    have hname : (name.map scopes.rename).toList = name.toList.map scopes.rename := by
      cases name <;> rfl
    simp only [stmtHandlers, bind_apply, pure_apply, Stmt.boundHandlers, hname, boundList_stmt body,
      boundHandlers_stmt hs, List.map_append]

end

mutual

/-- The declarations of the normal form of a statement. -/
theorem declarations_stmt : (s : Stmt) → (scopes : Scopes) → (k : Nat) →
    (stmt scopes s k).1.declarations = s.declarations.map (Declaration.rename scopes)
  | .globals ns, scopes, k => by
    simp [stmt, pure_apply, Stmt.declarations, Declaration.rename]
  | .nonlocals ns, scopes, k => by
    simp [stmt, pure_apply, Stmt.declarations, Declaration.rename]
  | .forLoop _ _ body orelse, scopes, k | .cond _ body orelse, scopes, k
  | .whileLoop _ body orelse, scopes, k => by
    simp only [stmt, bind_apply, pure_apply, Stmt.declarations, declarationsList_stmt,
      List.map_append]
  | .tryBlock body hs orelse final, scopes, k => by
    simp only [stmt, bind_apply, pure_apply, Stmt.declarations, declarationsList_stmt,
      declarationsHandlers_stmt, List.map_append]
  | .define ⟨_, _, _, _, _, _⟩, _, _ | .ret _, _, _ | .assign _ _ _, _, _
  | .augAssign _ _ _, _, _ | .expr _, _, _ | .raise _ _, _, _ | .assert _ _, _, _
  | .importNames _, _, _ | .importFrom _ _, _, _ | .pass, _, _ | .break, _, _ | .continue, _, _
  | .verbatim _ _ _, _, _ => rfl

theorem declarationsList_stmt : (b : List Stmt) → (scopes : Scopes) → (k : Nat) →
    Stmt.declarationsList (stmtList scopes b k).1 =
      (Stmt.declarationsList b).map (Declaration.rename scopes)
  | [], _, _ => rfl
  | s :: ss, scopes, k => by
    simp only [stmtList, bind_apply, pure_apply, Stmt.declarationsList, declarations_stmt s,
      declarationsList_stmt ss, List.map_append]

theorem declarationsHandlers_stmt : (hs : List (HandlerOf Stmt)) → (scopes : Scopes) → (k : Nat) →
    Stmt.declarationsHandlers (stmtHandlers scopes hs k).1 =
      (Stmt.declarationsHandlers hs).map (Declaration.rename scopes)
  | [], _, _ => rfl
  | ⟨_, _, body⟩ :: hs, scopes, k => by
    simp only [stmtHandlers, bind_apply, pure_apply, Stmt.declarationsHandlers,
      declarationsList_stmt body, declarationsHandlers_stmt hs, List.map_append]

end

/-! ## Functions and statements -/

end Normal

/-- Scopes that bind the names `around`, with placeholders below `k`. -/
structure Scopes.Hold (scopes : Scopes) (around : List String) (k : Nat) : Prop where
  binds : ∀ n, (scopes.resolve? n).isSome = true ↔ n ∈ around
  below : ∀ scope ∈ scopes, Placeholders.Below k scope

namespace Scopes.Hold

variable {scopes : Scopes} {around : List String} {k j : Nat}

theorem mono (h : scopes.Hold around k) (hk : k ≤ j) : scopes.Hold around j :=
  ⟨h.binds, fun scope hs => (h.below scope hs).mono hk⟩

theorem rename_of_notMem (h : scopes.Hold around k) {n : String} (hn : n ∉ around) :
    scopes.rename n = n := by
  have hnone : scopes.resolve? n = none :=
    Option.not_isSome_iff_eq_none.mp fun hsome => hn ((h.binds n).mp hsome)
  rw [rename, hnone]
  rfl

/-- A name of the normal form is the name itself or a placeholder that is in use. -/
theorem rename_cases (h : scopes.Hold around k) (n : String) :
    n ∉ around ∧ scopes.rename n = n ∨ ∃ i < k, scopes.rename n = placeholder i := by
  by_cases hn : n ∈ around
  · right
    obtain ⟨v, hv⟩ := Option.isSome_iff_exists.mp ((h.binds n).mpr hn)
    obtain ⟨scope, hscope, hlookup⟩ := List.exists_of_findSome?_eq_some hv
    obtain ⟨i, hi, he⟩ := h.below scope hscope _ (Placeholders.mem_of_lookup hlookup)
    refine ⟨i, hi, ?_⟩
    rw [rename, hv]
    exact he
  · exact .inl ⟨hn, h.rename_of_notMem hn⟩

/-- Inside a function its local names are bound as well. -/
theorem push (h : scopes.Hold around k) {scope : Placeholders} {own : List String}
    (hbinds : ∀ n, (scope.lookup n).isSome = true ↔ n ∈ own) (hbelow : scope.Below j) (hk : k ≤ j) :
    Scopes.Hold (scope :: scopes) (own ++ around) j := by
  refine ⟨?_, ?_⟩
  · intro n
    rw [List.mem_append, ← hbinds, ← h.binds]
    cases hn : scope.lookup n with
    | none => simp [resolve?_of_unbound hn]
    | some v => simp [resolve?_of_bound hn]
  · intro scope' hmem
    rcases List.mem_cons.mp hmem with rfl | hmem
    · exact hbelow
    · exact (h.mono hk).below scope' hmem

end Scopes.Hold

namespace Normal

variable {scopes : Scopes} {around : List String} {k : Nat}

/-- What is bound after the parameters is a parameter or was bound before. -/
theorem of_assignParams {ps : List Param} {n : String} {scope : Placeholders} {k : Nat}
    (h : ((assignParams ps scope k).2.1.lookup n).isSome = true) :
    (scope.lookup n).isSome = true ∨ ∃ p ∈ ps, p.kind.isSeparator = false ∧ p.name = n := by
  induction ps generalizing scope k with
  | nil => exact .inl h
  | cons p ps ih =>
    rw [assignParams] at h
    split at h
    · rcases ih h with h | ⟨q, hq, hn⟩
      · exact .inl h
      · exact .inr ⟨q, List.mem_cons_of_mem _ hq, hn⟩
    · rename_i hsep
      rcases ih h with h | ⟨q, hq, hn⟩
      · rw [List.lookup_cons] at h
        split at h
        · rename_i he
          exact .inr ⟨p, List.mem_cons_self, Bool.not_eq_true _ ▸ hsep, (beq_iff_eq.mp he).symm⟩
        · exact .inl h
      · exact .inr ⟨q, List.mem_cons_of_mem _ hq, hn⟩

/-- What is bound after the locals is one of them or was bound before. -/
theorem of_assignLocals {outer ns : List String} {n : String} {scope : Placeholders} {k : Nat}
    (h : ((assignLocals outer ns scope k).1.lookup n).isSome = true) :
    (scope.lookup n).isSome = true ∨ n ∈ ns ∧ n ∉ outer := by
  induction ns generalizing scope k with
  | nil => exact .inl h
  | cons m ns ih =>
    rw [assignLocals] at h
    split at h
    · rcases ih h with h | ⟨hn, hout⟩
      · exact .inl h
      · exact .inr ⟨List.mem_cons_of_mem _ hn, hout⟩
    · rename_i hfresh
      rw [Bool.or_eq_true, List.contains_iff_mem] at hfresh
      rcases ih h with h | ⟨hn, hout⟩
      · rw [List.lookup_cons] at h
        split at h
        · rename_i he
          rw [beq_iff_eq.mp he]
          exact .inr ⟨List.mem_cons_self, fun hout => hfresh (.inl hout)⟩
        · exact .inl h
      · exact .inr ⟨List.mem_cons_of_mem _ hn, hout⟩

/-- The scope of a function binds its local names. -/
theorem functionScope_isSome (f : Function) (scopes : Scopes) (j k : Nat) (n : String) :
    ((functionScope (exprParams scopes f.params j).1 f.body k).2.1.lookup n).isSome = true ↔
      n ∈ f.localNames := by
  have hparam : (∃ p ∈ (exprParams scopes f.params j).1, p.kind.isSeparator = false ∧ p.name = n) ↔
      n ∈ f.paramNames := by
    have hshape : ∀ ps : List Param, (∃ p ∈ ps, p.kind.isSeparator = false ∧ p.name = n) ↔
        ∃ x ∈ ps.map (fun p => (p.name, p.kind)), x.2.isSeparator = false ∧ x.1 = n := by
      intro ps
      simp
    rw [hshape, exprParams_shape, ← hshape]
    simp [FunctionOf.paramNames, and_assoc]
  rw [Function.mem_localNames, Function.IsLocal, ← hparam]
  constructor
  · intro h
    refine (of_assignLocals h).imp_left fun h => ?_
    exact (of_assignParams h).resolve_left (by simp)
  · intro h
    exact assignLocals_binds _ (h.imp_left fun h => assignParams_binds k (.inr h))

theorem mem_declaredOuter {b : Block} {n : String} :
    n ∈ b.declaredOuter ↔ ∃ d ∈ Stmt.declarationsList b, d.name = n := by
  rw [Block.declaredOuter, Names.mem_ofList, Stmt.declaredList_eq, List.mem_map]

/-- The second pass over the locals of a function, after its parameters. -/
theorem boundNames_settle {body : Block} {scope : Placeholders} {j : Nat}
    {r : Placeholders × Nat} (hscopes : scopes.Hold around j)
    (hsound : ∀ d ∈ Stmt.declarationsList body,
      d.isSound around (Stmt.boundList false body) = true)
    (hbelow : scope.Below j)
    (hr : assignLocals body.declaredOuter (body.boundNames false) scope j = r)
    {b : Block} (hb : (stmtList (r.1 :: scopes) body r.2).1 = b) :
    assignLocals b.declaredOuter (b.boundNames false) scope.settle j = (r.1.settle, r.2) := by
  have hskip : ∀ n ∈ body.declaredOuter, r.1.lookup n = scope.lookup n := by
    intro n hn
    rw [← hr]
    exact lookup_assignLocals _ _ _ (.inl hn)
  have hagain : ∀ n, n ∈ b.declaredOuter ↔
      ∃ d ∈ Stmt.declarationsList body, (d.rename (r.1 :: scopes)).name = n := by
    intro n
    rw [mem_declaredOuter, ← hb, declarationsList_stmt]
    simp
  have hbound : Stmt.boundList false b =
      (Stmt.boundList false body).map (Scopes.rename (r.1 :: scopes)) := by
    rw [← hb, boundList_stmt]
  rw [assignLocals_boundNames] at hr ⊢
  rw [hbound]
  refine (assignLocals_settle hbelow ?_ ?_ ?_).trans (by rw [hr])
  · intro n _ v hv
    rw [hr] at hv
    exact Scopes.rename_of_bound hv
  · -- A name that is left out is declared, and its declaration is renamed as the name is.
    intro n hn hout hnone
    obtain ⟨d, hd, rfl⟩ := mem_declaredOuter.mp hout
    refine (hagain _).mpr ⟨d, hd, ?_⟩
    cases d with
    | nonlocal n => rfl
    | global n =>
      have hd := hsound _ hd
      have hfree : n ∉ around := by
        intro hmem
        simp [Declaration.isSound, hmem, show n ∈ Stmt.boundList false body from hn] at hd
      exact (hscopes.rename_of_notMem hfree).symm.trans
        (Scopes.rename_of_unbound ((hskip n hout).trans hnone)).symm
  · -- A declared name of the normal form is not reserved or numbered below `j`.
    intro i hi hmem
    obtain ⟨d, hd, he⟩ := (hagain _).mp hmem
    have hsound := hsound d hd
    have hout : d.name ∈ body.declaredOuter := mem_declaredOuter.mpr ⟨d, hd, rfl⟩
    have hreserved := isReserved_placeholder i
    cases d with
    | global n =>
      rw [← he] at hreserved
      simp [Declaration.isSound, show isReserved n = true from hreserved] at hsound
    | nonlocal n =>
      have he : Scopes.rename (r.1 :: scopes) n = placeholder i := he
      cases hn : scope.lookup n with
      | some v =>
        obtain ⟨i', hi', hv⟩ := hbelow _ (Placeholders.mem_of_lookup hn)
        rw [Scopes.rename_of_bound ((hskip n hout).trans hn)] at he
        have hsame := placeholder_inj (hv.symm.trans he)
        omega
      | none =>
        rw [Scopes.rename_of_unbound ((hskip n hout).trans hn)] at he
        rcases hscopes.rename_cases n with ⟨hfree, -⟩ | ⟨i', hi', hv⟩
        · simp [Declaration.isSound, hfree] at hsound
        · have hsame := placeholder_inj (hv.symm.trans he)
          omega

/-- The scope of the normal form of a function. -/
theorem functionScope_settle {ps : List Param} {body : Block} (hscopes : scopes.Hold around k)
    (hsound : ∀ d ∈ Stmt.declarationsList body,
      d.isSound around (Stmt.boundList false body) = true) {s : List Param × Placeholders × Nat}
    (hs : functionScope ps body k = s) :
    functionScope s.1 (stmtList (s.2.1 :: scopes) body s.2.2).1 k = (s.1, s.2.1.settle, s.2.2) := by
  have hempty : Placeholders.Below k [] := by simp [Placeholders.Below]
  obtain ⟨hle, hbelow⟩ := assignParams_below ps hempty
  have hparams : assignParams (assignParams ps [] k).1 [] k = _ := assignParams_settle ps [] k
  have hlocals := boundNames_settle (hscopes.mono hle) hsound hbelow rfl rfl
  subst hs
  simp only [functionScope, hparams, hlocals]

/-- The second pass over an import. -/
theorem renameAlias_settle {a : Alias} (hscopes : scopes.Hold around k)
    (h : a.boundName ∈ around ∨ isReserved a.boundName = false) :
    scopes.settle.renameAlias (scopes.renameAlias a) = scopes.renameAlias a := by
  cases hv : scopes.resolve? a.boundName with
  | some fresh =>
    have hfirst : scopes.renameAlias a = ⟨a.name, some fresh⟩ := by rw [Scopes.renameAlias, hv]
    rw [hfirst, Scopes.renameAlias]
    split
    · rename_i v hsome
      rw [(Scopes.resolve?_settle hsome).1]
      rfl
    · rfl
  | none =>
    have hfirst : scopes.renameAlias a = a := by rw [Scopes.renameAlias, hv]
    have hfree : a.boundName ∉ around := by simp [← hscopes.binds, hv]
    have hnone : scopes.settle.resolve? a.boundName = none := by
      refine Option.eq_none_iff_forall_ne_some.mpr ?_
      intro v hsome
      obtain ⟨-, scope, hscope, p, hp, he⟩ := Scopes.resolve?_settle hsome
      obtain ⟨i, -, hi⟩ := hscopes.below scope hscope p hp
      have hspelled := h.resolve_left hfree
      rw [← he, hi, isReserved_placeholder] at hspelled
      cases hspelled
    rw [hfirst, Scopes.renameAlias, hnone]

theorem map_renameAlias_settle {ns : List Alias} (hscopes : scopes.Hold around k)
    (h : ∀ n ∈ ns.map Alias.boundName, n ∈ around ∨ isReserved n = false) :
    (ns.map scopes.renameAlias).map scopes.settle.renameAlias = ns.map scopes.renameAlias := by
  rw [List.map_map, List.map_inj_left]
  intro a ha
  exact renameAlias_settle hscopes (h _ (List.mem_map_of_mem ha))

/-- What a function binds is local, a name of a function around, or spelled unlike a placeholder. -/
theorem mem_or_of_mem_bound (f : Function)
    (hsound : ∀ d ∈ Stmt.declarationsList f.body,
      d.isSound around (Stmt.boundList false f.body) = true) :
    ∀ n ∈ Stmt.boundList false f.body, n ∈ f.localNames ++ around ∨ isReserved n = false := by
  intro n hn
  by_cases hout : n ∈ Block.declaredOuter f.body
  · obtain ⟨d, hd, rfl⟩ := mem_declaredOuter.mp hout
    have hsound := hsound d hd
    cases d with
    | global n =>
      rw [Declaration.isSound, Bool.and_eq_true, Bool.not_eq_true'] at hsound
      exact .inr hsound.1
    | nonlocal n =>
      rw [Declaration.isSound, List.contains_iff_mem] at hsound
      exact .inl (List.mem_append_right _ hsound)
  · have hlocal : f.IsLocal n := .inr ⟨Names.mem_append.mpr (.inr hn), hout⟩
    exact .inl (List.mem_append_left _ (Function.mem_localNames.mpr hlocal))

/-- The second pass over a function, given the second pass over its body. -/
theorem define_settle {f : Function} (hscopes : scopes.Hold around k)
    (hsound : ∀ d ∈ Stmt.declarationsList f.body,
      d.isSound around (Stmt.boundList false f.body) = true)
    (hbody : ∀ (scopes' : Scopes) (k' : Nat), scopes'.Hold (f.localNames ++ around) k' →
      stmtList scopes'.settle (stmtList scopes' f.body k').1 k' = stmtList scopes' f.body k') :
    stmt scopes.settle (stmt scopes (.define f) k).1 k = stmt scopes (.define f) k := by
  have hdecorators := exprList_settle f.decorators scopes k
  have hscopes := hscopes.mono (le_exprList f.decorators scopes k)
  generalize hd : exprList scopes f.decorators k = d at hdecorators hscopes
  have hparams := exprParams_settle f.params scopes d.2
  have hscopes := hscopes.mono (le_exprParams f.params scopes d.2)
  have hbinds := functionScope_isSome f scopes d.2
  generalize hp : exprParams scopes f.params d.2 = p at hparams hscopes hbinds
  have hdefaults : exprParams scopes.settle (functionScope p.1 f.body p.2).1 d.2 =
      ((functionScope p.1 f.body p.2).1, p.2) := by
    rw [functionScope, exprParams_assignParams, hparams]
  obtain ⟨hle, hbelow⟩ := functionScope_below p.1 f.body p.2
  have hinner := hbody _ _ (hscopes.push (hbinds p.2) hbelow hle)
  generalize hs : functionScope p.1 f.body p.2 = s at hdefaults hinner
  have hscope := functionScope_settle hscopes hsound hs
  rw [Scopes.settle_cons] at hinner
  simp only [stmt_define, hd, hp, hs, hdecorators, hdefaults, hscope, hinner, Scopes.rename_settle]

mutual

/-- The second pass over a statement inside functions with the local names `around`. What an import
binds is one of them or spelled unlike a placeholder. -/
theorem stmt_settle : (s : Stmt) → (around : List String) → s.wellDeclared around = true →
    (∀ n ∈ Stmt.bound false s, n ∈ around ∨ isReserved n = false) →
    (scopes : Scopes) → (k : Nat) → scopes.Hold around k →
    stmt scopes.settle (stmt scopes s k).1 k = stmt scopes s k
  | .define ⟨name, params, body, decorators, returns, isAsync⟩, around, h, _, scopes, k, hscopes => by
    rw [Stmt.wellDeclared, Bool.and_eq_true, List.all_eq_true] at h
    refine define_settle hscopes h.1 ?_
    exact stmtList_settle body _ h.2
      (mem_or_of_mem_bound ⟨name, params, body, decorators, returns, isAsync⟩ h.1)
  | .ret v, around, h, hb, scopes, k, hscopes => by
    simp only [stmt, bind_apply, pure_apply, exprOption_settle v]
  | .assign ts v _, around, h, hb, scopes, k, hscopes => by
    simp only [stmt, bind_apply, pure_apply, expr_settle v, exprList_settle ts]
  | .augAssign t _ v, around, h, hb, scopes, k, hscopes => by
    simp only [stmt, bind_apply, pure_apply, expr_settle t, expr_settle v]
  | .expr e, around, h, hb, scopes, k, hscopes => by
    simp only [stmt, bind_apply, pure_apply, expr_settle e]
  | .cond t body orelse, around, h, hb, scopes, k, hscopes => by
    rw [Stmt.wellDeclared, Bool.and_eq_true] at h
    rw [Stmt.bound, List.forall_mem_append] at hb
    have hscopes := hscopes.mono (le_expr t scopes k)
    have hbody := stmtList_settle body around h.1 hb.1 scopes _ hscopes
    have horelse := stmtList_settle orelse around h.2 hb.2 scopes _
      (hscopes.mono (le_stmtList body scopes _))
    simp only [stmt, bind_apply, pure_apply, expr_settle t, hbody, horelse]
  | .whileLoop t body orelse, around, h, hb, scopes, k, hscopes => by
    rw [Stmt.wellDeclared, Bool.and_eq_true] at h
    rw [Stmt.bound, List.forall_mem_append] at hb
    have hscopes := hscopes.mono (le_expr t scopes k)
    have hbody := stmtList_settle body around h.1 hb.1 scopes _ hscopes
    have horelse := stmtList_settle orelse around h.2 hb.2 scopes _
      (hscopes.mono (le_stmtList body scopes _))
    simp only [stmt, bind_apply, pure_apply, expr_settle t, hbody, horelse]
  | .forLoop t i body orelse, around, h, hb, scopes, k, hscopes => by
    rw [Stmt.wellDeclared, Bool.and_eq_true] at h
    rw [Stmt.bound, List.forall_mem_append, List.forall_mem_append] at hb
    have hscopes := (hscopes.mono (le_expr i scopes k)).mono (le_expr t scopes _)
    have hbody := stmtList_settle body around h.1 hb.2.1 scopes _ hscopes
    have horelse := stmtList_settle orelse around h.2 hb.2.2 scopes _
      (hscopes.mono (le_stmtList body scopes _))
    simp only [stmt, bind_apply, pure_apply, expr_settle i, expr_settle t, hbody, horelse]
  | .tryBlock body hs orelse final, around, h, hb, scopes, k, hscopes => by
    rw [Stmt.wellDeclared, Bool.and_eq_true, Bool.and_eq_true, Bool.and_eq_true] at h
    rw [Stmt.bound, List.forall_mem_append, List.forall_mem_append, List.forall_mem_append] at hb
    have hhs := hscopes.mono (le_stmtList body scopes k)
    have horelse := hhs.mono (le_stmtHandlers hs scopes _)
    have hfinal := horelse.mono (le_stmtList orelse scopes _)
    simp only [stmt, bind_apply, pure_apply, stmtList_settle body around h.1 hb.1 scopes k hscopes,
      stmtHandlers_settle hs around h.2.1 hb.2.1 scopes _ hhs,
      stmtList_settle orelse around h.2.2.1 hb.2.2.1 scopes _ horelse,
      stmtList_settle final around h.2.2.2 hb.2.2.2 scopes _ hfinal]
  | .raise e c, around, h, hb, scopes, k, hscopes => by
    simp only [stmt, bind_apply, pure_apply, exprOption_settle e, exprOption_settle c]
  | .assert t m, around, h, hb, scopes, k, hscopes => by
    simp only [stmt, bind_apply, pure_apply, expr_settle t, exprOption_settle m]
  | .importNames ns, around, h, hb, scopes, k, hscopes => by
    simp only [stmt, pure_apply, map_renameAlias_settle hscopes hb]
  | .importFrom _ ns, around, h, hb, scopes, k, hscopes => by
    simp only [stmt, pure_apply, map_renameAlias_settle hscopes hb]
  | .nonlocals ns, around, h, hb, scopes, k, hscopes => by
    have hnames : (ns.map scopes.rename).map scopes.settle.rename = ns.map scopes.rename := by
      rw [List.map_map]
      exact List.map_congr_left fun n _ => Scopes.rename_settle scopes _
    simp only [stmt, pure_apply, hnames]
  | .globals _, _, _, _, _, _, _ | .pass, _, _, _, _, _, _ | .break, _, _, _, _, _, _
  | .continue, _, _, _, _, _, _ | .verbatim _ _ _, _, _, _, _, _, _ => rfl

theorem stmtList_settle : (b : List Stmt) → (around : List String) →
    Stmt.wellDeclaredList around b = true →
    (∀ n ∈ Stmt.boundList false b, n ∈ around ∨ isReserved n = false) →
    (scopes : Scopes) → (k : Nat) → scopes.Hold around k →
    stmtList scopes.settle (stmtList scopes b k).1 k = stmtList scopes b k
  | [], _, _, _, _, _, _ => rfl
  | s :: ss, around, h, hb, scopes, k, hscopes => by
    rw [Stmt.wellDeclaredList, Bool.and_eq_true] at h
    rw [Stmt.boundList, List.forall_mem_append] at hb
    have hhead := stmt_settle s around h.1 hb.1 scopes k hscopes
    have htail := stmtList_settle ss around h.2 hb.2 scopes _ (hscopes.mono (le_stmt s scopes k))
    simp only [stmtList, bind_apply, pure_apply, hhead, htail]

theorem stmtHandlers_settle : (hs : List (HandlerOf Stmt)) → (around : List String) →
    Stmt.wellDeclaredHandlers around hs = true →
    (∀ n ∈ Stmt.boundHandlers false hs, n ∈ around ∨ isReserved n = false) →
    (scopes : Scopes) → (k : Nat) → scopes.Hold around k →
    stmtHandlers scopes.settle (stmtHandlers scopes hs k).1 k = stmtHandlers scopes hs k
  | [], _, _, _, _, _, _ => rfl
  | ⟨type, name, body⟩ :: hs, around, h, hb, scopes, k, hscopes => by
    rw [Stmt.wellDeclaredHandlers, Bool.and_eq_true] at h
    rw [Stmt.boundHandlers, List.forall_mem_append, List.forall_mem_append] at hb
    have hscopes := hscopes.mono (le_exprOption type scopes k)
    have hbody := stmtList_settle body around h.1 hb.2.1 scopes _ hscopes
    have hrest := stmtHandlers_settle hs around h.2 hb.2.2 scopes _
      (hscopes.mono (le_stmtList body scopes _))
    have hname : (name.map scopes.rename).map scopes.settle.rename = name.map scopes.rename := by
      cases name <;> simp
    simp only [stmtHandlers, bind_apply, pure_apply, exprOption_settle type, hname, hbody, hrest]

end

theorem topLevel_settle {s : Stmt} (h : s.wellDeclared [] = true) :
    topLevel (topLevel s) = topLevel s := by
  cases s with
  | define f =>
    have hempty : Scopes.Hold [] [] 0 := ⟨by simp [Scopes.resolve?], by simp⟩
    obtain ⟨name, params, body, decorators, returns, isAsync⟩ := f
    rw [Stmt.wellDeclared, Bool.and_eq_true, List.all_eq_true] at h
    have hbody := stmtList_settle body _ h.2
      (mem_or_of_mem_bound ⟨name, params, body, decorators, returns, isAsync⟩ h.1)
    have hagain := congrArg Prod.fst (define_settle hempty h.1 hbody)
    rw [show (stmt [] (.define _) 0).1 = _ from topLevel_define _] at hagain
    rw [topLevel_define]
    exact hagain
  | _ => rfl

end Normal

/-- Normalization is idempotent where the declarations are sound. -/
theorem Module.normalize_normalize {m : Module} (h : m.wellDeclared = true) :
    m.normalize.normalize = m.normalize := by
  have hall : ∀ b : Block, Stmt.wellDeclaredList [] b = true →
      (b.map Normal.topLevel).map Normal.topLevel = b.map Normal.topLevel := by
    intro b hb
    induction b with
    | nil => rfl
    | cons s ss ih =>
      rw [Stmt.wellDeclaredList, Bool.and_eq_true] at hb
      simp only [List.map_cons, Normal.topLevel_settle hb.1, ih hb.2]
  exact congrArg Module.mk (hall m.body h)

/-- A function that counts: the nested one writes a variable of the function around it and a global
one, and binds an import and a comprehension of its own. -/
def counter : Module where
  body := [.define ⟨"counter", [⟨"start", .regular, none, none⟩], [
    .assign [.name "total"] (.name "start") none,
    .define ⟨"step", [⟨"by", .regular, some (.name "start"), none⟩], [
      .nonlocals ["total"],
      .globals ["calls"],
      .importNames [⟨"math.ext", none⟩],
      .augAssign (.name "calls") .add (.name "by"),
      .augAssign (.name "total") .add (.call (.attribute (.name "math") "floor") []),
      .ret (some (.comp .list (.name "total") none
        [⟨.name "total", .callOf "range" [.name "total"], []⟩]))], [], none, false⟩,
    .ret (some (.name "step"))], [], none, false⟩]

theorem Module.normalize_normalize_counter :
    counter.wellDeclared = true ∧ counter.normalize ≠ counter ∧
      counter.normalize.normalize = counter.normalize :=
  ⟨by decide, by decide +kernel, Module.normalize_normalize (by decide)⟩

/-- The nested function declares a parameter of the function around it `global` and binds it. -/
def shadowed : Module where
  body := [.define ⟨"f", [⟨"x", .regular, none, none⟩], [
    .define ⟨"g", [], [
      .globals ["x"],
      .assign [.name "x"] (.int 1) none,
      .assign [.name "y"] (.int 2) none,
      .ret (some (.name "y"))], [], none, false⟩,
    .ret (some (.call (.name "g") []))], [], none, false⟩]

/-- The normal form of `shadowed` still declares `x`, but what it binds there is the placeholder of
the parameter; the second pass counts that as one more local name, and `y` gets the next number. -/
theorem Module.normalize_normalize_shadowed :
    Module.parse? ("def f(x):\n    def g():\n        global x\n        x = 1\n        y = 2\n" ++
        "        return y\n    return g()\n") = some shadowed ∧
      shadowed.normalize.normalize ≠ shadowed.normalize :=
  ⟨by decide +kernel, by decide +kernel⟩

end Concord
