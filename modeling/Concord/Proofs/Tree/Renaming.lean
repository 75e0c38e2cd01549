import Concord.Profile.Extract
import Concord.Strategy.Build

/-!
# Normal forms do not see local names

Renaming a local name of a function to one that does not occur in it leaves the normal form of the
module as it is. The renaming `renamed source target` is injective on all names but `target`, and
normalization looks names up in scopes only; so a renamed tree, read in scopes with renamed keys,
gets the same placeholders in the same order.

Main statements:

* `Normal.expr_rename`, `Normal.stmt_rename`: one lemma for expressions and one for statements, over
  all scopes that bind `source` and do not know `target`.
* `Module.normalize_renameScope`: the normal form of a module, the digest of that form and every
  facet that is read off it are the same after the renaming.
-/

namespace Concord

/-! ## What must not occur -/

namespace Node

/-- The names that a part of a tree spells out itself: a name that is read or written, the
parameters of a lambda, a nested function and its parameters, the names of handlers, of imports and
of declarations. -/
def spelled : Node → List String
  | .expr (.name n) => [n]
  | .expr (.lambda ps _) => ps.map (·.name)
  | .stmt (.define f) => f.name :: f.params.map (·.name)
  | .stmt (.tryBlock _ hs _ _) => hs.filterMap (·.name)
  | .stmt (.importNames ns) => ns.map Alias.boundName
  | .stmt (.importFrom _ ns) => ns.map Alias.boundName
  | .stmt (.globals ns) => ns
  | .stmt (.nonlocals ns) => ns
  | _ => []

/-- The names that a part of a tree fixes: those bound by an import and those of a `global`
declaration. -/
def fixed : Node → List String
  | .stmt (.importNames ns) => ns.map Alias.boundName
  | .stmt (.importFrom _ ns) => ns.map Alias.boundName
  | .stmt (.globals ns) => ns
  | _ => []

/-- The names of separators among the parameters of a part of a tree. -/
def separators : Node → List String
  | .expr (.lambda ps _) => (ps.filter (·.kind.isSeparator)).map (·.name)
  | .stmt (.define f) => (f.params.filter (·.kind.isSeparator)).map (·.name)
  | _ => []

/-- `source` may become `target` here: `target` is not spelled out, and `source` is neither fixed nor
on a separator. -/
structure Admits (source target : String) (n : Node) : Prop where
  fresh : target ∉ n.spelled
  free : source ∉ n.fixed
  unmarked : source ∉ n.separators

instance (source target : String) (n : Node) : Decidable (n.Admits source target) :=
  decidable_of_iff (target ∉ n.spelled ∧ source ∉ n.fixed ∧ source ∉ n.separators)
    ⟨fun ⟨h₁, h₂, h₃⟩ => ⟨h₁, h₂, h₃⟩, fun h => ⟨h.fresh, h.free, h.unmarked⟩⟩

end Node

/-! ## Renamed names -/

section Names

variable {source target : String}

@[simp] theorem renamed_source : renamed source target source = target := if_pos rfl

theorem renamed_of_ne {n : String} (h : n ≠ source) : renamed source target n = n := if_neg h

/-- Different names stay different, unless one of them is the target. -/
theorem renamed_inj {m n : String} (hm : m ≠ target) (hn : n ≠ target) :
    renamed source target m = renamed source target n ↔ m = n := by
  unfold renamed
  split <;> split
  · simp_all
  · rename_i h h'
    subst h
    exact ⟨fun e => absurd e.symm hn, fun e => absurd e.symm h'⟩
  · rename_i h h'
    subst h'
    exact ⟨fun e => absurd e hm, fun e => absurd e h⟩
  · exact Iff.rfl

theorem map_renamed_of_notMem {ns : List String} (h : source ∉ ns) :
    ns.map (renamed source target) = ns := by
  induction ns with
  | nil => rfl
  | cons n ns ih =>
    simp only [List.mem_cons, not_or] at h
    rw [List.map_cons, ih h.2, renamed_of_ne (Ne.symm h.1)]

theorem mem_map_renamed {n : String} {ns : List String} (hn : n ≠ target) (hns : target ∉ ns) :
    renamed source target n ∈ ns.map (renamed source target) ↔ n ∈ ns := by
  rw [List.mem_map]
  constructor
  · rintro ⟨m, hm, he⟩
    have hmt : m ≠ target := fun e => hns (e ▸ hm)
    rwa [← (renamed_inj hmt hn).mp he]
  · exact fun h => ⟨n, h, rfl⟩

/-- Dropping repetitions commutes with the renaming. -/
theorem append_map_renamed {seen new : List String} (hseen : target ∉ seen) (hnew : target ∉ new) :
    Names.append (seen.map (renamed source target)) (new.map (renamed source target)) =
      (Names.append seen new).map (renamed source target) := by
  unfold Names.append
  induction new generalizing seen with
  | nil => rfl
  | cons n ns ih =>
    simp only [List.mem_cons, not_or] at hnew
    have hn : n ≠ target := Ne.symm hnew.1
    have hcontains : (seen.map (renamed source target)).contains (renamed source target n) =
        seen.contains n := by
      rw [Bool.eq_iff_iff, List.contains_iff_mem, List.contains_iff_mem]
      exact mem_map_renamed hn hseen
    rw [List.map_cons, List.foldl_cons, List.foldl_cons, hcontains]
    split
    · exact ih hseen hnew.2
    · have hseen' : target ∉ seen ++ [n] := by
        simp [hseen, hnew.1]
      have hmap : seen.map (renamed source target) ++ [renamed source target n] =
          (seen ++ [n]).map (renamed source target) := by simp
      rw [hmap]
      exact ih hseen' hnew.2

end Names

/-! ## Renamed scopes -/

section Scopes

variable (source target : String)

/-- A scope with its names renamed. -/
def Placeholders.rekey (scope : Placeholders) : Placeholders :=
  scope.map fun p => (renamed source target p.1, p.2)

/-- Scopes with their names renamed. -/
def Scopes.rekey (scopes : Scopes) : Scopes := scopes.map (Placeholders.rekey source target)

variable {source target}

theorem Placeholders.rekey_nil : Placeholders.rekey source target [] = [] := rfl

theorem Scopes.rekey_cons (scope : Placeholders) (scopes : Scopes) :
    Scopes.rekey source target (scope :: scopes) =
      scope.rekey source target :: scopes.rekey source target := rfl

/-- A scope does not bind `target`. -/
def Placeholders.Avoids (target : String) (scope : Placeholders) : Prop := ∀ p ∈ scope, p.1 ≠ target

theorem lookup_rekey {scope : Placeholders} (hs : scope.Avoids target) {n : String}
    (hn : n ≠ target) :
    (scope.rekey source target).lookup (renamed source target n) = scope.lookup n := by
  induction scope with
  | nil => rfl
  | cons p scope ih =>
    obtain ⟨m, v⟩ := p
    have hm : m ≠ target := hs (m, v) (by simp)
    have hrest : Placeholders.Avoids target scope := fun p hp => hs p (List.mem_cons_of_mem _ hp)
    have hkey : (renamed source target n == renamed source target m) = (n == m) := by
      rw [Bool.eq_iff_iff, beq_iff_eq, beq_iff_eq]
      exact renamed_inj hn hm
    show List.lookup _ ((renamed source target m, v) :: Placeholders.rekey source target scope) = _
    rw [List.lookup_cons, List.lookup_cons, hkey, ih hrest]

/-- The scopes in which a renaming is read: they bind `source` and do not know `target`. -/
structure Scopes.Ready (source target : String) (scopes : Scopes) : Prop where
  avoids : ∀ scope ∈ scopes, Placeholders.Avoids target scope
  binds : (scopes.resolve? source).isSome = true

namespace Scopes

variable {scopes : Scopes}

theorem resolve?_rekey (h : ∀ scope ∈ scopes, Placeholders.Avoids target scope) {n : String}
    (hn : n ≠ target) :
    (scopes.rekey source target).resolve? (renamed source target n) = scopes.resolve? n := by
  induction scopes with
  | nil => rfl
  | cons scope scopes ih =>
    have hrest := ih fun s hs => h s (List.mem_cons_of_mem _ hs)
    unfold resolve? rekey at hrest ⊢
    rw [List.map_cons, List.findSome?_cons, List.findSome?_cons, hrest,
      lookup_rekey (h scope (by simp)) hn]

/-- A name is written in the same way before and after the renaming. -/
theorem rename_rekey (h : scopes.Ready source target) {n : String} (hn : n ≠ target) :
    (scopes.rekey source target).rename (renamed source target n) = scopes.rename n := by
  unfold rename
  rw [resolve?_rekey h.avoids hn]
  by_cases hsource : n = source
  · subst hsource
    obtain ⟨v, hv⟩ := Option.isSome_iff_exists.mp h.binds
    rw [hv]
    rfl
  · rw [renamed_of_ne hsource]

/-- An import of another name is written in the same way. -/
theorem renameAlias_rekey (h : scopes.Ready source target) {a : Alias}
    (hs : a.boundName ≠ source) (ht : a.boundName ≠ target) :
    (scopes.rekey source target).renameAlias a = scopes.renameAlias a := by
  have hr : (scopes.rekey source target).resolve? (renamed source target a.boundName) =
      scopes.resolve? a.boundName := resolve?_rekey h.avoids ht
  rw [renamed_of_ne hs] at hr
  unfold renameAlias
  rw [hr]

/-- A scope pushed on top keeps `source` bound. -/
theorem Ready.push (h : scopes.Ready source target) {scope : Placeholders}
    (hs : scope.Avoids target) : Ready source target (scope :: scopes) := by
  refine ⟨?_, ?_⟩
  · intro s hmem
    rcases List.mem_cons.mp hmem with rfl | hmem
    · exact hs
    · exact h.avoids s hmem
  · unfold resolve?
    rw [List.findSome?_cons]
    split
    · rfl
    · exact h.binds

end Scopes

end Scopes

/-! ## Placeholders -/

namespace Normal

variable {source target : String}

/-- Assigning placeholders to renamed names gives the renamed scope. -/
theorem assign_rename (ns : List String) (k : Nat) :
    assign (ns.map (renamed source target)) k =
      ((assign ns k).1.rekey source target, (assign ns k).2) := by
  have h : ∀ (scope : Placeholders) (k : Nat),
      (ns.map (renamed source target)).foldl
          (fun (p : Placeholders × Nat) n => ((n, placeholder p.2) :: p.1, p.2 + 1))
          (scope.rekey source target, k) =
        ((ns.foldl (fun (p : Placeholders × Nat) n => ((n, placeholder p.2) :: p.1, p.2 + 1))
            (scope, k)).1.rekey source target,
          (ns.foldl (fun (p : Placeholders × Nat) n => ((n, placeholder p.2) :: p.1, p.2 + 1))
            (scope, k)).2) := by
    induction ns with
    | nil => exact fun _ _ => rfl
    | cons n ns ih => exact fun scope k => ih ((n, placeholder k) :: scope) (k + 1)
  exact h [] k

theorem assign_avoids {ns : List String} (h : target ∉ ns) (k : Nat) :
    (assign ns k).1.Avoids target := by
  have hfold : ∀ (scope : Placeholders) (k : Nat), scope.Avoids target →
      Placeholders.Avoids target (ns.foldl
        (fun (p : Placeholders × Nat) n => ((n, placeholder p.2) :: p.1, p.2 + 1)) (scope, k)).1 := by
    induction ns with
    | nil => exact fun _ _ hs => hs
    | cons n ns ih =>
      intro scope k hs
      simp only [List.mem_cons, not_or] at h
      refine ih h.2 ((n, placeholder k) :: scope) (k + 1) ?_
      intro p hp
      rcases List.mem_cons.mp hp with rfl | hp
      · exact Ne.symm h.1
      · exact hs p hp
  exact hfold [] k (by simp [Placeholders.Avoids])

/-- What a list of parameters has to satisfy: `target` is no parameter, `source` no separator. -/
def Open (source target : String) (ps : List Param) : Prop :=
  ∀ p ∈ ps, p.name ≠ target ∧ (p.kind.isSeparator = true → p.name ≠ source)

instance (source target : String) (ps : List Param) : Decidable (Open source target ps) :=
  inferInstanceAs (Decidable (∀ p ∈ ps, _))

/-- Renamed parameters get the same placeholders. -/
theorem assignParams_rename {ps : List Param} (h : Open source target ps) (scope : Placeholders)
    (k : Nat) :
    assignParams (ps.map (·.rename source target)) (scope.rekey source target) k =
      ((assignParams ps scope k).1, (assignParams ps scope k).2.1.rekey source target,
        (assignParams ps scope k).2.2) := by
  induction ps generalizing scope k with
  | nil => rfl
  | cons p ps ih =>
    have hrest : Open source target ps := fun q hq => h q (List.mem_cons_of_mem _ hq)
    rw [List.map_cons, assignParams, assignParams]
    by_cases hsep : p.kind.isSeparator = true
    · have hname : p.name ≠ source := (h p (by simp)).2 hsep
      have hsame : p.rename source target = p := by
        unfold ParamOf.rename
        rw [renamed_of_ne hname]
      rw [hsame, if_pos hsep, if_pos hsep, ih hrest]
    · rw [if_neg hsep, if_neg (by exact hsep)]
      have hstep := ih hrest ((p.name, placeholder k) :: scope) (k + 1)
      rw [show Placeholders.rekey source target ((p.name, placeholder k) :: scope) =
        ((p.rename source target).name, placeholder k) :: scope.rekey source target from rfl] at hstep
      rw [hstep]
      rfl

theorem assignParams_avoids {ps : List Param} (h : ∀ p ∈ ps, p.name ≠ target)
    {scope : Placeholders} (hs : scope.Avoids target) (k : Nat) :
    (assignParams ps scope k).2.1.Avoids target := by
  induction ps generalizing scope k with
  | nil => exact hs
  | cons p ps ih =>
    have hrest : ∀ q ∈ ps, q.name ≠ target := fun q hq => h q (List.mem_cons_of_mem _ hq)
    rw [assignParams]
    split
    · exact ih hrest hs k
    · refine ih hrest ?_ (k + 1)
      intro q hq
      rcases List.mem_cons.mp hq with rfl | hq
      · exact h p (by simp)
      · exact hs q hq

/-- Renamed locals get the same placeholders. -/
theorem assignLocals_rename {outer outer' ns : List String} (hns : target ∉ ns)
    (houter : ∀ n ∈ ns, outer'.contains (renamed source target n) = outer.contains n)
    {scope : Placeholders} (hs : scope.Avoids target) (k : Nat) :
    assignLocals outer' (ns.map (renamed source target)) (scope.rekey source target) k =
      ((assignLocals outer ns scope k).1.rekey source target, (assignLocals outer ns scope k).2) := by
  induction ns generalizing scope k with
  | nil => rfl
  | cons n ns ih =>
    simp only [List.mem_cons, not_or] at hns
    have hn : n ≠ target := Ne.symm hns.1
    have hrest : ∀ m ∈ ns, outer'.contains (renamed source target m) = outer.contains m :=
      fun m hm => houter m (List.mem_cons_of_mem _ hm)
    rw [List.map_cons, assignLocals, assignLocals, houter n (by simp), lookup_rekey hs hn]
    split
    · exact ih hns.2 hrest hs k
    · have hcons : Placeholders.Avoids target ((n, placeholder k) :: scope) := by
        intro p hp
        rcases List.mem_cons.mp hp with rfl | hp
        · exact hn
        · exact hs p hp
      exact ih hns.2 hrest hcons (k + 1)

theorem assignLocals_avoids {outer ns : List String} (hns : target ∉ ns) {scope : Placeholders}
    (hs : scope.Avoids target) (k : Nat) : (assignLocals outer ns scope k).1.Avoids target := by
  induction ns generalizing scope k with
  | nil => exact hs
  | cons n ns ih =>
    simp only [List.mem_cons, not_or] at hns
    rw [assignLocals]
    split
    · exact ih hns.2 hs k
    · refine ih hns.2 ?_ (k + 1)
      intro p hp
      rcases List.mem_cons.mp hp with rfl | hp
      · exact Ne.symm hns.1
      · exact hs p hp

end Normal

/-! ## Bound and declared names after the renaming -/

namespace Expr

variable {source target : String}

mutual

theorem targetNames_rename : (e : Expr) →
    (e.map (renameNode source target)).targetNames = e.targetNames.map (renamed source target)
  | .name n => rfl
  | .tuple items => by simp only [map, renameNode, targetNames, targetNamesList_rename items]
  | .list items => by simp only [map, renameNode, targetNames, targetNamesList_rename items]
  | .starred a => by simp only [map, renameNode, targetNames, targetNames_rename a]
  | .int _ | .float _ | .str _ | .bool _ | .none | .verbatim _ => rfl
  | .bin _ _ _ | .unary _ _ | .logic _ _ _ | .compare _ _ | .call _ _ | .attribute _ _ => by
    simp [map, renameNode, targetNames]
  | .subscript _ _ | .slice _ _ _ | .set _ | .dict _ | .comp _ _ _ _ | .ifExp _ _ _ => by
    simp [map, renameNode, targetNames]
  | .lambda _ _ => by simp [map, renameNode, targetNames]

theorem targetNamesList_rename : (es : List Expr) →
    targetNamesList (mapList (renameNode source target) es) =
      (targetNamesList es).map (renamed source target)
  | [] => rfl
  | e :: es => by
    simp only [mapList, targetNamesList, List.map_append, targetNames_rename e,
      targetNamesList_rename es]

end

mutual

/-- A name that a target binds occurs in it. -/
theorem mem_subterms_of_mem_targetNames {n : String} : (e : Expr) → n ∈ e.targetNames →
    .name n ∈ e.subterms
  | .name m => by simp [targetNames, subterms]
  | .tuple items => fun h => by
    simpa [subterms] using mem_subtermsList_of_mem_targetNamesList items (by simpa [targetNames] using h)
  | .list items => fun h => by
    simpa [subterms] using mem_subtermsList_of_mem_targetNamesList items (by simpa [targetNames] using h)
  | .starred a => fun h => by
    simpa [subterms] using mem_subterms_of_mem_targetNames a (by simpa [targetNames] using h)
  | .int _ | .float _ | .str _ | .bool _ | .none | .verbatim _ => by simp [targetNames]
  | .bin _ _ _ | .unary _ _ | .logic _ _ _ | .compare _ _ | .call _ _ | .attribute _ _ => by
    simp [targetNames]
  | .subscript _ _ | .slice _ _ _ | .set _ | .dict _ | .comp _ _ _ _ | .ifExp _ _ _ => by
    simp [targetNames]
  | .lambda _ _ => by simp [targetNames]

theorem mem_subtermsList_of_mem_targetNamesList {n : String} : (es : List Expr) →
    n ∈ targetNamesList es → .name n ∈ subtermsList es
  | [] => by simp [targetNamesList]
  | e :: es => fun h => by
    rw [targetNamesList, List.mem_append] at h
    rw [subtermsList, List.mem_append]
    exact h.imp (mem_subterms_of_mem_targetNames e) (mem_subtermsList_of_mem_targetNamesList es)

end

end Expr

/-! ## Expressions -/

namespace Normal

variable {source target : String} {scopes : Scopes}

theorem expr_lambda (scopes : Scopes) (ps : List Param) (b : Expr) (k : Nat) :
    expr scopes (.lambda ps b) k =
      let p := exprParams scopes ps k
      let a := assignParams p.1 [] p.2
      let r := expr (a.2.1 :: scopes) b a.2.2
      (.lambda a.1 r.1, r.2) := by
  rw [expr]
  rfl

theorem expr_comp (scopes : Scopes) (kind : CompKind) (e : Expr) (v : Option Expr)
    (t i : Expr) (ifs : List Expr) (cs : List Clause) (k : Nat) :
    expr scopes (.comp kind e v (⟨t, i, ifs⟩ :: cs)) k =
      let i' := expr scopes i k
      let a := assign
        (Names.append [] (t.targetNames ++ cs.flatMap (·.target.targetNames))) i'.2
      let t' := expr (a.1 :: scopes) t a.2
      let ifs' := exprList (a.1 :: scopes) ifs t'.2
      let cs' := exprClauses (a.1 :: scopes) cs ifs'.2
      let e' := expr (a.1 :: scopes) e cs'.2
      let v' := exprOption (a.1 :: scopes) v e'.2
      (.comp kind e'.1 v'.1 (⟨t'.1, i'.1, ifs'.1⟩ :: cs'.1), v'.2) := by
  rw [expr]
  rfl

/-- Normalization of defaults leaves names and kinds of parameters alone. -/
theorem exprParams_shape (ps : List Param) (k : Nat) :
    (exprParams scopes ps k).1.map (fun p => (p.name, p.kind)) =
      ps.map (fun p => (p.name, p.kind)) := by
  induction ps generalizing k with
  | nil => rfl
  | cons p ps ih =>
    obtain ⟨n, kind, default, note⟩ := p
    rw [exprParams]
    exact congrArg ((n, kind) :: ·) (ih _)

theorem exprParams_open (scopes : Scopes) {ps : List Param} (h : Open source target ps) (k : Nat) :
    Open source target (exprParams scopes ps k).1 := by
  have hshape : ∀ qs : List Param, Open source target qs ↔
      ∀ x ∈ qs.map (fun p => (p.name, p.kind)),
        x.1 ≠ target ∧ (x.2.isSeparator = true → x.1 ≠ source) := by
    intro qs
    simp [Open]
  rw [hshape, exprParams_shape, ← hshape]
  exact h

/-- The names that the clauses of a comprehension bind. -/
theorem clauseNames_rename (cs : List Clause) :
    (Expr.mapClauses (Expr.renameNode source target) cs).flatMap (·.target.targetNames) =
      (cs.flatMap (·.target.targetNames)).map (renamed source target) := by
  induction cs with
  | nil => rfl
  | cons c cs ih =>
    obtain ⟨t, i, ifs⟩ := c
    rw [Expr.mapClauses, List.flatMap_cons, List.flatMap_cons, List.map_append, ih,
      Expr.targetNames_rename]

/-- `target` is not bound where it is not spelled out. -/
theorem notMem_targetNames {e : Expr}
    (h : ∀ x ∈ e.subterms, Node.Admits source target (.expr x)) : target ∉ e.targetNames := by
  intro hmem
  have hname := (h _ (Expr.mem_subterms_of_mem_targetNames e hmem)).fresh
  simp [Node.spelled] at hname

theorem notMem_clauseNames {cs : List Clause}
    (h : ∀ x ∈ Expr.subtermsClauses cs, Node.Admits source target (.expr x)) :
    target ∉ cs.flatMap (·.target.targetNames) := by
  induction cs with
  | nil => simp
  | cons c cs ih =>
    obtain ⟨t, i, ifs⟩ := c
    simp only [Expr.subtermsClauses, List.forall_mem_append] at h
    rw [List.flatMap_cons, List.mem_append, not_or]
    exact ⟨notMem_targetNames h.2.1, ih h.2.2.2⟩

theorem open_of_admits {ps : List Param} {b : Expr}
    (h : Node.Admits source target (.expr (.lambda ps b))) : Open source target ps := by
  intro p hp
  refine ⟨?_, ?_⟩
  · intro he
    exact h.fresh (List.mem_map.mpr ⟨p, hp, he⟩)
  · intro hsep he
    exact h.unmarked (List.mem_map.mpr ⟨p, List.mem_filter.mpr ⟨hp, hsep⟩, he⟩)

mutual

/-- A renamed expression has the same normal form in the renamed scopes. -/
theorem expr_rename : (e : Expr) → (∀ x ∈ e.subterms, Node.Admits source target (.expr x)) →
    (scopes : Scopes) → scopes.Ready source target →
    expr (scopes.rekey source target) (e.map (Expr.renameNode source target)) = expr scopes e
  | .name n, h, scopes, hs => by
    have hn : n ≠ target := by
      intro he
      exact (h (.name n) (by simp [Expr.subterms])).fresh (by simp [Node.spelled, he])
    rw [Expr.map, Expr.renameNode, expr, expr, Scopes.rename_rekey hs hn]
  | .int _, _, _, _ => rfl
  | .float _, _, _, _ => rfl
  | .str _, _, _, _ => rfl
  | .bool _, _, _, _ => rfl
  | .none, _, _, _ => rfl
  | .verbatim _, _, _, _ => rfl
  | .bin op l r, h, scopes, hs => by
    simp only [Expr.subterms, List.forall_mem_cons, List.forall_mem_append] at h
    simp only [Expr.map, Expr.renameNode, expr, expr_rename l h.2.1 scopes hs,
      expr_rename r h.2.2 scopes hs]
  | .unary op a, h, scopes, hs => by
    simp only [Expr.subterms, List.forall_mem_cons] at h
    simp only [Expr.map, Expr.renameNode, expr, expr_rename a h.2 scopes hs]
  | .logic op l r, h, scopes, hs => by
    simp only [Expr.subterms, List.forall_mem_cons, List.forall_mem_append] at h
    simp only [Expr.map, Expr.renameNode, expr, expr_rename l h.2.1 scopes hs,
      expr_rename r h.2.2 scopes hs]
  | .compare l links, h, scopes, hs => by
    simp only [Expr.subterms, List.forall_mem_cons, List.forall_mem_append] at h
    simp only [Expr.map, Expr.renameNode, expr, expr_rename l h.2.1 scopes hs,
      exprLinks_rename links h.2.2 scopes hs]
  | .call f args, h, scopes, hs => by
    simp only [Expr.subterms, List.forall_mem_cons, List.forall_mem_append] at h
    simp only [Expr.map, Expr.renameNode, expr, expr_rename f h.2.1 scopes hs,
      exprArgs_rename args h.2.2 scopes hs]
  | .attribute a n, h, scopes, hs => by
    simp only [Expr.subterms, List.forall_mem_cons] at h
    simp only [Expr.map, Expr.renameNode, expr, expr_rename a h.2 scopes hs]
  | .subscript a i, h, scopes, hs => by
    simp only [Expr.subterms, List.forall_mem_cons, List.forall_mem_append] at h
    simp only [Expr.map, Expr.renameNode, expr, expr_rename a h.2.1 scopes hs,
      expr_rename i h.2.2 scopes hs]
  | .slice a b c, h, scopes, hs => by
    simp only [Expr.subterms, List.forall_mem_cons, List.forall_mem_append] at h
    simp only [Expr.map, Expr.renameNode, expr, exprOption_rename a h.2.1 scopes hs,
      exprOption_rename b h.2.2.1 scopes hs, exprOption_rename c h.2.2.2 scopes hs]
  | .list items, h, scopes, hs => by
    simp only [Expr.subterms, List.forall_mem_cons] at h
    simp only [Expr.map, Expr.renameNode, expr, exprList_rename items h.2 scopes hs]
  | .tuple items, h, scopes, hs => by
    simp only [Expr.subterms, List.forall_mem_cons] at h
    simp only [Expr.map, Expr.renameNode, expr, exprList_rename items h.2 scopes hs]
  | .set items, h, scopes, hs => by
    simp only [Expr.subterms, List.forall_mem_cons] at h
    simp only [Expr.map, Expr.renameNode, expr, exprList_rename items h.2 scopes hs]
  | .dict entries, h, scopes, hs => by
    simp only [Expr.subterms, List.forall_mem_cons] at h
    simp only [Expr.map, Expr.renameNode, expr, exprEntries_rename entries h.2 scopes hs]
  | .ifExp t a b, h, scopes, hs => by
    simp only [Expr.subterms, List.forall_mem_cons, List.forall_mem_append] at h
    simp only [Expr.map, Expr.renameNode, expr, expr_rename t h.2.1 scopes hs,
      expr_rename a h.2.2.1 scopes hs, expr_rename b h.2.2.2 scopes hs]
  | .starred a, h, scopes, hs => by
    simp only [Expr.subterms, List.forall_mem_cons] at h
    simp only [Expr.map, Expr.renameNode, expr, expr_rename a h.2 scopes hs]
  | .lambda ps b, h, scopes, hs => by
    simp only [Expr.subterms, List.forall_mem_cons, List.forall_mem_append] at h
    have hopen := open_of_admits h.1
    funext k
    rw [Expr.map, Expr.renameNode, expr_lambda, expr_lambda,
      exprParams_rename ps h.2.1 scopes hs k]
    have hopen' := exprParams_open scopes hopen k
    have hscope : Placeholders.Avoids target
        (assignParams (exprParams scopes ps k).1 [] (exprParams scopes ps k).2).2.1 :=
      assignParams_avoids (fun p hp => (hopen' p hp).1) (by simp [Placeholders.Avoids]) _
    have hassign := assignParams_rename hopen' [] (exprParams scopes ps k).2
    rw [Placeholders.rekey_nil] at hassign
    have hbody := expr_rename b h.2.2 _ (hs.push hscope)
    rw [Scopes.rekey_cons] at hbody
    simp only [hassign, hbody]
  | .comp kind e v [], h, scopes, hs => by
    simp only [Expr.subterms, List.forall_mem_cons, List.forall_mem_append] at h
    have hnil : Scopes.Ready source target ([] :: scopes) :=
      hs.push (by simp [Placeholders.Avoids])
    have he := expr_rename e h.2.1 ([] :: scopes) hnil
    have hv := exprOption_rename v h.2.2.1 ([] :: scopes) hnil
    rw [Scopes.rekey_cons] at he hv
    rw [Placeholders.rekey_nil] at he hv
    simp only [Expr.map, Expr.mapClauses, Expr.renameNode, expr, he, hv]
  | .comp kind e v (⟨t, i, ifs⟩ :: cs), h, scopes, hs => by
    simp only [Expr.subterms, Expr.subtermsClauses, List.forall_mem_cons, List.forall_mem_append]
      at h
    obtain ⟨-, he, hv, hi, ht, hifs, hcs⟩ := h
    funext k
    simp only [Expr.map, Expr.mapClauses, Expr.renameNode]
    rw [expr_comp, expr_comp, expr_rename i hi scopes hs, Expr.targetNames_rename,
      clauseNames_rename, ← List.map_append]
    have hbound : target ∉ t.targetNames ++ cs.flatMap (·.target.targetNames) := by
      rw [List.mem_append, not_or]
      exact ⟨notMem_targetNames ht, notMem_clauseNames hcs⟩
    have hnames : Names.append []
          ((t.targetNames ++ cs.flatMap (·.target.targetNames)).map (renamed source target)) =
        (Names.append [] (t.targetNames ++ cs.flatMap (·.target.targetNames))).map
          (renamed source target) := append_map_renamed List.not_mem_nil hbound
    have hnot : target ∉ Names.append [] (t.targetNames ++ cs.flatMap (·.target.targetNames)) := by
      rw [Names.mem_append, not_or]
      exact ⟨by simp, hbound⟩
    have hready : ∀ k, Scopes.Ready source target
        ((assign (Names.append [] (t.targetNames ++ cs.flatMap (·.target.targetNames))) k).1 ::
          scopes) := fun k => hs.push (assign_avoids hnot k)
    have h1 := fun k => expr_rename t ht _ (hready k)
    have h2 := fun k => exprList_rename ifs hifs _ (hready k)
    have h3 := fun k => exprClauses_rename cs hcs _ (hready k)
    have h4 := fun k => expr_rename e he _ (hready k)
    have h5 := fun k => exprOption_rename v hv _ (hready k)
    simp only [Scopes.rekey_cons] at h1 h2 h3 h4 h5
    simp only [hnames, assign_rename, h1, h2, h3, h4, h5]

theorem exprOption_rename : (o : Option Expr) →
    (∀ x ∈ Expr.subtermsOption o, Node.Admits source target (.expr x)) →
    (scopes : Scopes) → scopes.Ready source target →
    exprOption (scopes.rekey source target) (Expr.mapOption (Expr.renameNode source target) o) =
      exprOption scopes o
  | none, _, _, _ => rfl
  | some e, h, scopes, hs => by
    simp only [Expr.mapOption, exprOption, expr_rename e h scopes hs]

theorem exprList_rename : (es : List Expr) →
    (∀ x ∈ Expr.subtermsList es, Node.Admits source target (.expr x)) →
    (scopes : Scopes) → scopes.Ready source target →
    exprList (scopes.rekey source target) (Expr.mapList (Expr.renameNode source target) es) =
      exprList scopes es
  | [], _, _, _ => rfl
  | e :: es, h, scopes, hs => by
    simp only [Expr.subtermsList, List.forall_mem_append] at h
    simp only [Expr.mapList, exprList, expr_rename e h.1 scopes hs, exprList_rename es h.2 scopes hs]

theorem exprLinks_rename : (ls : List (CmpOp × Expr)) →
    (∀ x ∈ Expr.subtermsLinks ls, Node.Admits source target (.expr x)) →
    (scopes : Scopes) → scopes.Ready source target →
    exprLinks (scopes.rekey source target) (Expr.mapLinks (Expr.renameNode source target) ls) =
      exprLinks scopes ls
  | [], _, _, _ => rfl
  | (op, e) :: ls, h, scopes, hs => by
    simp only [Expr.subtermsLinks, List.forall_mem_append] at h
    simp only [Expr.mapLinks, exprLinks, expr_rename e h.1 scopes hs,
      exprLinks_rename ls h.2 scopes hs]

theorem exprArgs_rename : (as : List Arg) →
    (∀ x ∈ Expr.subtermsArgs as, Node.Admits source target (.expr x)) →
    (scopes : Scopes) → scopes.Ready source target →
    exprArgs (scopes.rekey source target) (Expr.mapArgs (Expr.renameNode source target) as) =
      exprArgs scopes as
  | [], _, _, _ => rfl
  | .positional e :: as, h, scopes, hs => by
    simp only [Expr.subtermsArgs, List.forall_mem_append] at h
    simp only [Expr.mapArgs, exprArgs, expr_rename e h.1 scopes hs, exprArgs_rename as h.2 scopes hs]
  | .keyword n e :: as, h, scopes, hs => by
    simp only [Expr.subtermsArgs, List.forall_mem_append] at h
    simp only [Expr.mapArgs, exprArgs, expr_rename e h.1 scopes hs, exprArgs_rename as h.2 scopes hs]
  | .star e :: as, h, scopes, hs => by
    simp only [Expr.subtermsArgs, List.forall_mem_append] at h
    simp only [Expr.mapArgs, exprArgs, expr_rename e h.1 scopes hs, exprArgs_rename as h.2 scopes hs]
  | .doubleStar e :: as, h, scopes, hs => by
    simp only [Expr.subtermsArgs, List.forall_mem_append] at h
    simp only [Expr.mapArgs, exprArgs, expr_rename e h.1 scopes hs, exprArgs_rename as h.2 scopes hs]

theorem exprEntries_rename : (es : List (Expr × Expr)) →
    (∀ x ∈ Expr.subtermsEntries es, Node.Admits source target (.expr x)) →
    (scopes : Scopes) → scopes.Ready source target →
    exprEntries (scopes.rekey source target) (Expr.mapEntries (Expr.renameNode source target) es) =
      exprEntries scopes es
  | [], _, _, _ => rfl
  | (k, v) :: es, h, scopes, hs => by
    simp only [Expr.subtermsEntries, List.forall_mem_append] at h
    simp only [Expr.mapEntries, exprEntries, expr_rename k h.1 scopes hs,
      expr_rename v h.2.1 scopes hs, exprEntries_rename es h.2.2 scopes hs]

theorem exprClauses_rename : (cs : List Clause) →
    (∀ x ∈ Expr.subtermsClauses cs, Node.Admits source target (.expr x)) →
    (scopes : Scopes) → scopes.Ready source target →
    exprClauses (scopes.rekey source target) (Expr.mapClauses (Expr.renameNode source target) cs) =
      exprClauses scopes cs
  | [], _, _, _ => rfl
  | ⟨t, i, ifs⟩ :: cs, h, scopes, hs => by
    simp only [Expr.subtermsClauses, List.forall_mem_append] at h
    simp only [Expr.mapClauses, exprClauses, expr_rename i h.1 scopes hs,
      expr_rename t h.2.1 scopes hs, exprList_rename ifs h.2.2.1 scopes hs,
      exprClauses_rename cs h.2.2.2 scopes hs]

/-- Renamed parameters have the same defaults, under their new names. -/
theorem exprParams_rename : (ps : List Param) →
    (∀ x ∈ Expr.subtermsParams ps, Node.Admits source target (.expr x)) →
    (scopes : Scopes) → scopes.Ready source target → (k : Nat) →
    exprParams (scopes.rekey source target)
        ((Expr.mapParams (Expr.renameNode source target) ps).map (·.rename source target)) k =
      ((exprParams scopes ps k).1.map (·.rename source target), (exprParams scopes ps k).2)
  | [], _, _, _, _ => rfl
  | ⟨n, kind, default, note⟩ :: ps, h, scopes, hs, k => by
    simp only [Expr.subtermsParams, List.forall_mem_append] at h
    have hd := exprOption_rename default h.1 scopes hs
    have hps := exprParams_rename ps h.2 scopes hs (exprOption scopes default k).2
    rw [Expr.mapParams, List.map_cons]
    show exprParams _ (⟨renamed source target n, kind, _, note⟩ :: _) k = _
    rw [exprParams, exprParams, hd]
    show ((⟨_, _, _, _⟩ : Param) :: (exprParams _ _ (exprOption scopes default k).2).1,
      (exprParams _ _ (exprOption scopes default k).2).2) = _
    rw [hps]
    rfl

end

end Normal

/-! ## Names of blocks after the renaming -/

namespace Stmt

variable {source target : String}

mutual

/-- A name that a statement binds is spelled out in it. -/
theorem mem_spelled_of_mem_bound {n : String} : (s : Stmt) → n ∈ bound false s →
    ∃ x ∈ s.nodes, n ∈ x.spelled
  | .define ⟨name, _, _, _, _, _⟩, h => by
    simp only [bound, List.mem_singleton] at h
    exact ⟨_, List.mem_cons_self, by simp [Node.spelled, h]⟩
  | .assign ts v a, h => by
    have hmem := Expr.mem_subtermsList_of_mem_targetNamesList ts (by simpa [bound] using h)
    refine ⟨.expr (.name n), ?_, by simp [Node.spelled]⟩
    simp [nodes, exprNodes, hmem]
  | .augAssign t op v, h => by
    have hmem := Expr.mem_subterms_of_mem_targetNames t (by simpa [bound] using h)
    refine ⟨.expr (.name n), ?_, by simp [Node.spelled]⟩
    simp [nodes, exprNodes, hmem]
  | .forLoop t i body orelse, h => by
    simp only [bound, List.mem_append] at h
    rcases h with h | h | h
    · have hmem := Expr.mem_subterms_of_mem_targetNames t h
      refine ⟨.expr (.name n), ?_, by simp [Node.spelled]⟩
      simp [nodes, exprNodes, hmem]
    · obtain ⟨x, hx, hn⟩ := mem_spelled_of_mem_boundList body h
      exact ⟨x, by simp [nodes, hx], hn⟩
    · obtain ⟨x, hx, hn⟩ := mem_spelled_of_mem_boundList orelse h
      exact ⟨x, by simp [nodes, hx], hn⟩
  | .cond t body orelse, h => by
    simp only [bound, List.mem_append] at h
    rcases h with h | h
    · obtain ⟨x, hx, hn⟩ := mem_spelled_of_mem_boundList body h
      exact ⟨x, by simp [nodes, hx], hn⟩
    · obtain ⟨x, hx, hn⟩ := mem_spelled_of_mem_boundList orelse h
      exact ⟨x, by simp [nodes, hx], hn⟩
  | .whileLoop t body orelse, h => by
    simp only [bound, List.mem_append] at h
    rcases h with h | h
    · obtain ⟨x, hx, hn⟩ := mem_spelled_of_mem_boundList body h
      exact ⟨x, by simp [nodes, hx], hn⟩
    · obtain ⟨x, hx, hn⟩ := mem_spelled_of_mem_boundList orelse h
      exact ⟨x, by simp [nodes, hx], hn⟩
  | .tryBlock body hs orelse final, h => by
    simp only [bound, List.mem_append] at h
    rcases h with h | h | h | h
    · obtain ⟨x, hx, hn⟩ := mem_spelled_of_mem_boundList body h
      exact ⟨x, by simp [nodes, hx], hn⟩
    · rcases mem_spelled_of_mem_boundHandlers hs h with h | ⟨x, hx, hn⟩
      · exact ⟨_, List.mem_cons_self, h⟩
      · exact ⟨x, by simp [nodes, hx], hn⟩
    · obtain ⟨x, hx, hn⟩ := mem_spelled_of_mem_boundList orelse h
      exact ⟨x, by simp [nodes, hx], hn⟩
    · obtain ⟨x, hx, hn⟩ := mem_spelled_of_mem_boundList final h
      exact ⟨x, by simp [nodes, hx], hn⟩
  | .importNames ns, h => ⟨_, List.mem_cons_self, by simpa [bound, Node.spelled] using h⟩
  | .importFrom _ ns, h => ⟨_, List.mem_cons_self, by simpa [bound, Node.spelled] using h⟩
  | .ret _, h | .expr _, h | .raise _ _, h | .assert _ _, h | .globals _, h | .nonlocals _, h
  | .pass, h | .break, h | .continue, h | .verbatim _ _ _, h => by simp [bound] at h

theorem mem_spelled_of_mem_boundList {n : String} : (b : List Stmt) → n ∈ boundList false b →
    ∃ x ∈ nodesList b, n ∈ x.spelled
  | [], h => by simp [boundList] at h
  | s :: ss, h => by
    rw [boundList, List.mem_append] at h
    rcases h with h | h
    · obtain ⟨x, hx, hn⟩ := mem_spelled_of_mem_bound s h
      exact ⟨x, by simp [nodesList, hx], hn⟩
    · obtain ⟨x, hx, hn⟩ := mem_spelled_of_mem_boundList ss h
      exact ⟨x, by simp [nodesList, hx], hn⟩

theorem mem_spelled_of_mem_boundHandlers {n : String} : (hs : List (HandlerOf Stmt)) →
    n ∈ boundHandlers false hs →
    n ∈ hs.filterMap (·.name) ∨ ∃ x ∈ nodesHandlers hs, n ∈ x.spelled
  | [], h => by simp [boundHandlers] at h
  | ⟨type, name, body⟩ :: hs, h => by
    simp only [boundHandlers, List.mem_append, Option.mem_toList] at h
    rcases h with h | h | h
    · left
      simp [h]
    · obtain ⟨x, hx, hn⟩ := mem_spelled_of_mem_boundList body h
      exact .inr ⟨x, by simp [nodesHandlers, hx], hn⟩
    · rcases mem_spelled_of_mem_boundHandlers hs h with h | ⟨x, hx, hn⟩
      · left
        rw [List.mem_filterMap] at h ⊢
        obtain ⟨g, hg, hn⟩ := h
        exact ⟨g, List.mem_cons_of_mem _ hg, hn⟩
      · exact .inr ⟨x, by simp [nodesHandlers, hx], hn⟩

end

mutual

/-- A name that a statement declares is spelled out in it. -/
theorem mem_spelled_of_mem_declared {n : String} : (s : Stmt) → n ∈ declared s →
    ∃ x ∈ s.nodes, n ∈ x.spelled
  | .globals ns, h => ⟨_, List.mem_cons_self, h⟩
  | .nonlocals ns, h => ⟨_, List.mem_cons_self, h⟩
  | .cond t body orelse, h => by
    simp only [declared, List.mem_append] at h
    rcases h with h | h
    · obtain ⟨x, hx, hn⟩ := mem_spelled_of_mem_declaredList body h
      exact ⟨x, by simp [nodes, hx], hn⟩
    · obtain ⟨x, hx, hn⟩ := mem_spelled_of_mem_declaredList orelse h
      exact ⟨x, by simp [nodes, hx], hn⟩
  | .forLoop t i body orelse, h => by
    simp only [declared, List.mem_append] at h
    rcases h with h | h
    · obtain ⟨x, hx, hn⟩ := mem_spelled_of_mem_declaredList body h
      exact ⟨x, by simp [nodes, hx], hn⟩
    · obtain ⟨x, hx, hn⟩ := mem_spelled_of_mem_declaredList orelse h
      exact ⟨x, by simp [nodes, hx], hn⟩
  | .whileLoop t body orelse, h => by
    simp only [declared, List.mem_append] at h
    rcases h with h | h
    · obtain ⟨x, hx, hn⟩ := mem_spelled_of_mem_declaredList body h
      exact ⟨x, by simp [nodes, hx], hn⟩
    · obtain ⟨x, hx, hn⟩ := mem_spelled_of_mem_declaredList orelse h
      exact ⟨x, by simp [nodes, hx], hn⟩
  | .tryBlock body hs orelse final, h => by
    simp only [declared, List.mem_append] at h
    rcases h with h | h | h | h
    · obtain ⟨x, hx, hn⟩ := mem_spelled_of_mem_declaredList body h
      exact ⟨x, by simp [nodes, hx], hn⟩
    · obtain ⟨x, hx, hn⟩ := mem_spelled_of_mem_declaredHandlers hs h
      exact ⟨x, by simp [nodes, hx], hn⟩
    · obtain ⟨x, hx, hn⟩ := mem_spelled_of_mem_declaredList orelse h
      exact ⟨x, by simp [nodes, hx], hn⟩
    · obtain ⟨x, hx, hn⟩ := mem_spelled_of_mem_declaredList final h
      exact ⟨x, by simp [nodes, hx], hn⟩
  | .define _, h | .assign _ _ _, h | .augAssign _ _ _, h | .importNames _, h | .importFrom _ _, h
  | .ret _, h | .expr _, h | .raise _ _, h | .assert _ _, h | .pass, h | .break, h | .continue, h
  | .verbatim _ _ _, h => by simp [declared] at h

theorem mem_spelled_of_mem_declaredList {n : String} : (b : List Stmt) → n ∈ declaredList b →
    ∃ x ∈ nodesList b, n ∈ x.spelled
  | [], h => by simp [declaredList] at h
  | s :: ss, h => by
    rw [declaredList, List.mem_append] at h
    rcases h with h | h
    · obtain ⟨x, hx, hn⟩ := mem_spelled_of_mem_declared s h
      exact ⟨x, by simp [nodesList, hx], hn⟩
    · obtain ⟨x, hx, hn⟩ := mem_spelled_of_mem_declaredList ss h
      exact ⟨x, by simp [nodesList, hx], hn⟩

theorem mem_spelled_of_mem_declaredHandlers {n : String} : (hs : List (HandlerOf Stmt)) →
    n ∈ declaredHandlers hs → ∃ x ∈ nodesHandlers hs, n ∈ x.spelled
  | [], h => by simp [declaredHandlers] at h
  | ⟨type, name, body⟩ :: hs, h => by
    rw [declaredHandlers, List.mem_append] at h
    rcases h with h | h
    · obtain ⟨x, hx, hn⟩ := mem_spelled_of_mem_declaredList body h
      exact ⟨x, by simp [nodesHandlers, hx], hn⟩
    · obtain ⟨x, hx, hn⟩ := mem_spelled_of_mem_declaredHandlers hs h
      exact ⟨x, by simp [nodesHandlers, hx], hn⟩

end

mutual

/-- A renamed statement declares the renamed names. -/
theorem declared_rename : (s : Stmt) →
    declared (s.map (renameNode source target) (Expr.renameNode source target)) =
      (declared s).map (renamed source target)
  | .globals _ | .nonlocals _ => rfl
  | .cond t body orelse | .forLoop t _ body orelse | .whileLoop t body orelse => by
    simp only [map, renameNode, declared, List.map_append, declaredList_rename body,
      declaredList_rename orelse]
  | .tryBlock body hs orelse final => by
    simp only [map, renameNode, declared, List.map_append, declaredList_rename body,
      declaredHandlers_rename hs, declaredList_rename orelse, declaredList_rename final]
  | .define _ | .assign _ _ _ | .augAssign _ _ _ | .importNames _ | .importFrom _ _
  | .ret _ | .expr _ | .raise _ _ | .assert _ _ | .pass | .break | .continue
  | .verbatim _ _ _ => by simp [map, renameNode, declared]

theorem declaredList_rename : (b : List Stmt) →
    declaredList (mapList (renameNode source target) (Expr.renameNode source target) b) =
      (declaredList b).map (renamed source target)
  | [] => rfl
  | s :: ss => by
    simp only [mapList, declaredList, List.map_append, declared_rename s, declaredList_rename ss]

theorem declaredHandlers_rename : (hs : List (HandlerOf Stmt)) →
    declaredHandlers ((mapHandlers (renameNode source target) (Expr.renameNode source target) hs).map
        (·.rename source target)) = (declaredHandlers hs).map (renamed source target)
  | [] => rfl
  | ⟨type, name, body⟩ :: hs => by
    simp only [mapHandlers, List.map_cons, HandlerOf.rename, declaredHandlers, List.map_append,
      declaredList_rename body]
    rw [← declaredHandlers_rename hs]
    rfl

end

mutual

/-- A renamed statement binds the renamed names, provided that no import binds `source`. -/
theorem bound_rename : (s : Stmt) → (∀ x ∈ s.nodes, source ∉ x.fixed) →
    bound false (s.map (renameNode source target) (Expr.renameNode source target)) =
      (bound false s).map (renamed source target)
  | .define _, _ => rfl
  | .assign ts _ _, _ => by
    simp only [map, renameNode, bound, Expr.targetNamesList_rename]
  | .augAssign t _ _, _ => by
    simp only [map, renameNode, bound, Expr.targetNames_rename]
  | .forLoop t _ body orelse, h => by
    simp only [nodes, List.forall_mem_cons, List.forall_mem_append] at h
    simp only [map, renameNode, bound, List.map_append, Expr.targetNames_rename,
      boundList_rename body h.2.2.1, boundList_rename orelse h.2.2.2]
  | .cond t body orelse, h | .whileLoop t body orelse, h => by
    simp only [nodes, List.forall_mem_cons, List.forall_mem_append] at h
    simp only [map, renameNode, bound, List.map_append, boundList_rename body h.2.2.1,
      boundList_rename orelse h.2.2.2]
  | .tryBlock body hs orelse final, h => by
    simp only [nodes, List.forall_mem_cons, List.forall_mem_append] at h
    simp only [map, renameNode, bound, List.map_append, boundList_rename body h.2.1,
      boundHandlers_rename hs h.2.2.1, boundList_rename orelse h.2.2.2.1,
      boundList_rename final h.2.2.2.2]
  | .importNames ns, h | .importFrom _ ns, h => by
    have hns := h _ List.mem_cons_self
    simp only [map, renameNode, bound]
    exact (map_renamed_of_notMem hns).symm
  | .ret _, _ | .expr _, _ | .raise _ _, _ | .assert _ _, _ | .globals _, _ | .nonlocals _, _
  | .pass, _ | .break, _ | .continue, _ | .verbatim _ _ _, _ => by simp [map, renameNode, bound]

theorem boundList_rename : (b : List Stmt) → (∀ x ∈ nodesList b, source ∉ x.fixed) →
    boundList false (mapList (renameNode source target) (Expr.renameNode source target) b) =
      (boundList false b).map (renamed source target)
  | [], _ => rfl
  | s :: ss, h => by
    simp only [nodesList, List.forall_mem_append] at h
    simp only [mapList, boundList, List.map_append, bound_rename s h.1, boundList_rename ss h.2]

theorem boundHandlers_rename : (hs : List (HandlerOf Stmt)) →
    (∀ x ∈ nodesHandlers hs, source ∉ x.fixed) →
    boundHandlers false
        ((mapHandlers (renameNode source target) (Expr.renameNode source target) hs).map
          (·.rename source target)) = (boundHandlers false hs).map (renamed source target)
  | [], _ => rfl
  | ⟨type, name, body⟩ :: hs, h => by
    simp only [nodesHandlers, List.forall_mem_append] at h
    have hhs := boundHandlers_rename hs h.2.2
    have hname : (name.map (renamed source target)).toList =
        name.toList.map (renamed source target) := by cases name <;> rfl
    simp only [mapHandlers, List.map_cons, HandlerOf.rename, boundHandlers, List.map_append,
      boundList_rename body h.2.1, hname]
    rw [← hhs]
    rfl

end

end Stmt

namespace Block

variable {source target : String} {b : Block}

theorem notMem_boundNames (h : ∀ x ∈ b.nodes, target ∉ x.spelled) :
    target ∉ b.boundNames false := by
  intro hmem
  rw [boundNames, Names.mem_append] at hmem
  rcases hmem with hmem | hmem
  · simp at hmem
  · obtain ⟨x, hx, hn⟩ := Stmt.mem_spelled_of_mem_boundList b hmem
    exact h x hx hn

theorem boundNames_rename (hfree : ∀ x ∈ b.nodes, source ∉ x.fixed)
    (hfresh : ∀ x ∈ b.nodes, target ∉ x.spelled) :
    (b.rename source target).boundNames false =
      (b.boundNames false).map (renamed source target) := by
  have hnot : target ∉ Stmt.boundList false b := by
    intro hmem
    obtain ⟨x, hx, hn⟩ := Stmt.mem_spelled_of_mem_boundList b hmem
    exact hfresh x hx hn
  unfold boundNames rename
  rw [Stmt.boundList_rename b hfree]
  exact append_map_renamed List.not_mem_nil hnot

theorem contains_declaredOuter_rename (hfresh : ∀ x ∈ b.nodes, target ∉ x.spelled) {n : String}
    (hn : n ≠ target) :
    (b.rename source target).declaredOuter.contains (renamed source target n) =
      b.declaredOuter.contains n := by
  have hnot : target ∉ Stmt.declaredList b := by
    intro hmem
    obtain ⟨x, hx, hn⟩ := Stmt.mem_spelled_of_mem_declaredList b hmem
    exact hfresh x hx hn
  rw [Bool.eq_iff_iff, List.contains_iff_mem, List.contains_iff_mem]
  unfold declaredOuter rename
  rw [Names.mem_ofList, Names.mem_ofList, Stmt.declaredList_rename b]
  exact mem_map_renamed hn hnot

end Block

/-! ## Statements -/

namespace Normal

variable {source target : String} {scopes : Scopes}

/-- The scope of a function: its parameters with their placeholders, the names bound in it, and the
number of placeholders in use afterwards. -/
def functionScope (ps : List Param) (body : Block) (k : Nat) : List Param × Placeholders × Nat :=
  let a := assignParams ps [] k
  (a.1, assignLocals body.declaredOuter (body.boundNames false) a.2.1 a.2.2)

theorem stmt_define (scopes : Scopes) (f : Function) (k : Nat) :
    stmt scopes (.define f) k =
      let d := exprList scopes f.decorators k
      let p := exprParams scopes f.params d.2
      let s := functionScope p.1 f.body p.2
      let b := stmtList (s.2.1 :: scopes) f.body s.2.2
      (.define ⟨scopes.rename f.name, s.1, b.1, d.1, f.returns, f.isAsync⟩, b.2) := by
  rw [stmt]
  rfl

theorem functionScope_avoids {ps : List Param} {body : Block} (hps : Open source target ps)
    (hbody : ∀ x ∈ body.nodes, x.Admits source target) (k : Nat) :
    (functionScope ps body k).2.1.Avoids target :=
  assignLocals_avoids (Block.notMem_boundNames fun x hx => (hbody x hx).fresh)
    (assignParams_avoids (fun p hp => (hps p hp).1) (by simp [Placeholders.Avoids]) k) _

/-- The scope of a renamed function is the renamed scope. -/
theorem functionScope_rename {ps : List Param} {body : Block} (hps : Open source target ps)
    (hbody : ∀ x ∈ body.nodes, x.Admits source target) (k : Nat) :
    functionScope (ps.map (·.rename source target)) (body.rename source target) k =
      ((functionScope ps body k).1, (functionScope ps body k).2.1.rekey source target,
        (functionScope ps body k).2.2) := by
  have hfresh : ∀ x ∈ body.nodes, target ∉ x.spelled := fun x hx => (hbody x hx).fresh
  have hfree : ∀ x ∈ body.nodes, source ∉ x.fixed := fun x hx => (hbody x hx).free
  have hparams := assignParams_rename hps [] k
  rw [Placeholders.rekey_nil] at hparams
  have hnames := Block.notMem_boundNames hfresh
  have houter : ∀ n ∈ body.boundNames false,
      (body.rename source target).declaredOuter.contains (renamed source target n) =
        body.declaredOuter.contains n := by
    intro n hn
    exact Block.contains_declaredOuter_rename hfresh fun he => hnames (he ▸ hn)
  have havoids : (assignParams ps [] k).2.1.Avoids target :=
    assignParams_avoids (fun p hp => (hps p hp).1) (by simp [Placeholders.Avoids]) k
  unfold functionScope
  rw [hparams, Block.boundNames_rename hfree hfresh]
  simp only [assignLocals_rename hnames houter havoids]

theorem open_of_admits_define {f : Function}
    (h : Node.Admits source target (.stmt (.define f))) : Open source target f.params := by
  intro p hp
  refine ⟨?_, ?_⟩
  · intro he
    exact h.fresh (List.mem_cons_of_mem _ (List.mem_map.mpr ⟨p, hp, he⟩))
  · intro hsep he
    exact h.unmarked (List.mem_map.mpr ⟨p, List.mem_filter.mpr ⟨hp, hsep⟩, he⟩)

theorem admits_exprNodes {es : List Expr} :
    (∀ x ∈ Stmt.exprNodes es, Node.Admits source target x) ↔
      ∀ x ∈ es, Node.Admits source target (.expr x) := by
  simp [Stmt.exprNodes]

/-- Imports of other names are written in the same way. -/
theorem map_renameAlias_rekey (hs : scopes.Ready source target) {ns : List Alias}
    (hfree : source ∉ ns.map Alias.boundName) (hfresh : target ∉ ns.map Alias.boundName) :
    ns.map (scopes.rekey source target).renameAlias = ns.map scopes.renameAlias := by
  refine List.map_congr_left ?_
  intro a ha
  refine Scopes.renameAlias_rekey hs ?_ ?_
  · exact fun he => hfree (List.mem_map.mpr ⟨a, ha, he⟩)
  · exact fun he => hfresh (List.mem_map.mpr ⟨a, ha, he⟩)

mutual

/-- A renamed statement has the same normal form in the renamed scopes. -/
theorem stmt_rename : (s : Stmt) → (∀ x ∈ s.nodes, x.Admits source target) →
    (scopes : Scopes) → scopes.Ready source target →
    stmt (scopes.rekey source target)
        (s.map (Stmt.renameNode source target) (Expr.renameNode source target)) = stmt scopes s
  | .define ⟨name, params, body, decorators, returns, isAsync⟩, h, scopes, hs => by
    simp only [Stmt.nodes, List.forall_mem_cons, List.forall_mem_append, admits_exprNodes] at h
    obtain ⟨hself, hdecorators, hparams, hbody⟩ := h
    have hname : name ≠ target := by
      intro he
      exact hself.fresh (by simp [Node.spelled, he])
    have hopen := open_of_admits_define hself
    funext k
    simp only [Stmt.map, Stmt.renameNode]
    rw [stmt_define, stmt_define]
    simp only [exprList_rename decorators hdecorators scopes hs, exprParams_rename params hparams
      scopes hs, Scopes.rename_rekey hs hname]
    generalize exprList scopes decorators k = d
    have hopen' := exprParams_open scopes hopen d.2
    generalize exprParams scopes params d.2 = p at hopen' ⊢
    have hscope := functionScope_rename hopen' hbody p.2
    have hready := hs.push (functionScope_avoids hopen' hbody p.2)
    have hinner := stmtList_rename body hbody _ hready
    rw [Scopes.rekey_cons] at hinner
    rw [Block.rename] at hscope
    simp only [hscope, hinner]
  | .ret v, h, scopes, hs => by
    simp only [Stmt.nodes, List.forall_mem_cons, admits_exprNodes] at h
    simp only [Stmt.map, Stmt.renameNode, stmt, exprOption_rename v h.2 scopes hs]
  | .assign ts v a, h, scopes, hs => by
    simp only [Stmt.nodes, List.forall_mem_cons, admits_exprNodes, List.forall_mem_append] at h
    simp only [Stmt.map, Stmt.renameNode, stmt, expr_rename v h.2.1 scopes hs,
      exprList_rename ts h.2.2 scopes hs]
  | .augAssign t op v, h, scopes, hs => by
    simp only [Stmt.nodes, List.forall_mem_cons, admits_exprNodes, List.forall_mem_append] at h
    simp only [Stmt.map, Stmt.renameNode, stmt, expr_rename t h.2.1 scopes hs,
      expr_rename v h.2.2 scopes hs]
  | .expr e, h, scopes, hs => by
    simp only [Stmt.nodes, List.forall_mem_cons, admits_exprNodes] at h
    simp only [Stmt.map, Stmt.renameNode, stmt, expr_rename e h.2 scopes hs]
  | .cond t body orelse, h, scopes, hs => by
    simp only [Stmt.nodes, List.forall_mem_cons, List.forall_mem_append, admits_exprNodes] at h
    simp only [Stmt.map, Stmt.renameNode, stmt, expr_rename t h.2.1 scopes hs,
      stmtList_rename body h.2.2.1 scopes hs, stmtList_rename orelse h.2.2.2 scopes hs]
  | .whileLoop t body orelse, h, scopes, hs => by
    simp only [Stmt.nodes, List.forall_mem_cons, List.forall_mem_append, admits_exprNodes] at h
    simp only [Stmt.map, Stmt.renameNode, stmt, expr_rename t h.2.1 scopes hs,
      stmtList_rename body h.2.2.1 scopes hs, stmtList_rename orelse h.2.2.2 scopes hs]
  | .forLoop t i body orelse, h, scopes, hs => by
    simp only [Stmt.nodes, List.forall_mem_cons, List.forall_mem_append, admits_exprNodes] at h
    obtain ⟨-, ⟨hi, ht⟩, hbody, horelse⟩ := h
    simp only [Stmt.map, Stmt.renameNode, stmt, expr_rename i hi scopes hs,
      expr_rename t ht scopes hs, stmtList_rename body hbody scopes hs,
      stmtList_rename orelse horelse scopes hs]
  | .tryBlock body handlers orelse final, h, scopes, hs => by
    simp only [Stmt.nodes, List.forall_mem_cons, List.forall_mem_append] at h
    obtain ⟨hself, hbody, hhandlers, horelse, hfinal⟩ := h
    simp only [Stmt.map, Stmt.renameNode, stmt, stmtList_rename body hbody scopes hs,
      stmtHandlers_rename handlers hself.fresh hhandlers scopes hs,
      stmtList_rename orelse horelse scopes hs, stmtList_rename final hfinal scopes hs]
  | .raise e c, h, scopes, hs => by
    simp only [Stmt.nodes, List.forall_mem_cons, admits_exprNodes, List.forall_mem_append] at h
    simp only [Stmt.map, Stmt.renameNode, stmt, exprOption_rename e h.2.1 scopes hs,
      exprOption_rename c h.2.2 scopes hs]
  | .assert t m, h, scopes, hs => by
    simp only [Stmt.nodes, List.forall_mem_cons, admits_exprNodes, List.forall_mem_append] at h
    simp only [Stmt.map, Stmt.renameNode, stmt, expr_rename t h.2.1 scopes hs,
      exprOption_rename m h.2.2 scopes hs]
  | .importNames ns, h, scopes, hs => by
    have hself := h _ List.mem_cons_self
    simp only [Stmt.map, Stmt.renameNode, stmt, map_renameAlias_rekey hs hself.free hself.fresh]
  | .importFrom m ns, h, scopes, hs => by
    have hself := h _ List.mem_cons_self
    simp only [Stmt.map, Stmt.renameNode, stmt, map_renameAlias_rekey hs hself.free hself.fresh]
  | .globals ns, h, scopes, hs => by
    have hfree : source ∉ ns := (h _ List.mem_cons_self).free
    rw [Stmt.map, Stmt.renameNode, stmt, stmt, map_renamed_of_notMem hfree]
  | .nonlocals ns, h, scopes, hs => by
    have hfresh : target ∉ ns := (h _ List.mem_cons_self).fresh
    have hns : (ns.map (renamed source target)).map (scopes.rekey source target).rename =
        ns.map scopes.rename := by
      rw [List.map_map]
      refine List.map_congr_left ?_
      intro n hn
      exact Scopes.rename_rekey hs fun he => hfresh (he ▸ hn)
    rw [Stmt.map, Stmt.renameNode, stmt, stmt, hns]
  | .pass, _, _, _ | .break, _, _, _ | .continue, _, _, _ | .verbatim _ _ _, _, _, _ => rfl

theorem stmtList_rename : (b : List Stmt) →
    (∀ x ∈ Stmt.nodesList b, Node.Admits source target x) →
    (scopes : Scopes) → scopes.Ready source target →
    stmtList (scopes.rekey source target)
        (Stmt.mapList (Stmt.renameNode source target) (Expr.renameNode source target) b) =
      stmtList scopes b
  | [], _, _, _ => rfl
  | s :: ss, h, scopes, hs => by
    simp only [Stmt.nodesList, List.forall_mem_append] at h
    simp only [Stmt.mapList, stmtList, stmt_rename s h.1 scopes hs,
      stmtList_rename ss h.2 scopes hs]

theorem stmtHandlers_rename : (handlers : List (HandlerOf Stmt)) →
    target ∉ handlers.filterMap (·.name) →
    (∀ x ∈ Stmt.nodesHandlers handlers, Node.Admits source target x) →
    (scopes : Scopes) → scopes.Ready source target →
    stmtHandlers (scopes.rekey source target)
        ((Stmt.mapHandlers (Stmt.renameNode source target) (Expr.renameNode source target)
          handlers).map (·.rename source target)) =
      stmtHandlers scopes handlers
  | [], _, _, _, _ => rfl
  | ⟨type, name, body⟩ :: handlers, hnames, h, scopes, hs => by
    simp only [Stmt.nodesHandlers, List.forall_mem_append, admits_exprNodes] at h
    have hname : (name.map (renamed source target)).map (scopes.rekey source target).rename =
        name.map scopes.rename := by
      cases name with
      | none => rfl
      | some n =>
        have hn : n ≠ target := by
          rintro rfl
          exact hnames (by simp)
        simp [Scopes.rename_rekey hs hn]
    have hrest : target ∉ handlers.filterMap (·.name) := by
      intro hmem
      refine hnames ?_
      rw [List.mem_filterMap] at hmem ⊢
      obtain ⟨g, hg, hn⟩ := hmem
      exact ⟨g, List.mem_cons_of_mem _ hg, hn⟩
    simp only [Stmt.mapHandlers, List.map_cons]
    show stmtHandlers _ (⟨_, name.map (renamed source target), _⟩ :: _) = _
    simp only [stmtHandlers, exprOption_rename type h.1 scopes hs, hname,
      stmtList_rename body h.2.1 scopes hs, stmtHandlers_rename handlers hrest h.2.2 scopes hs]

end

/-! ## Functions of a module -/

/-- Renaming parameters alone leaves their defaults. -/
theorem exprParams_map_rename (ps : List Param) (k : Nat) :
    exprParams scopes (ps.map (·.rename source target)) k =
      ((exprParams scopes ps k).1.map (·.rename source target), (exprParams scopes ps k).2) := by
  induction ps generalizing k with
  | nil => rfl
  | cons p ps ih =>
    obtain ⟨n, kind, default, note⟩ := p
    rw [List.map_cons]
    show exprParams _ (⟨renamed source target n, kind, default, note⟩ :: _) k = _
    rw [exprParams, exprParams]
    show ((⟨_, _, _, _⟩ : Param) :: (exprParams _ _ (exprOption scopes default k).2).1,
      (exprParams _ _ (exprOption scopes default k).2).2) = _
    rw [ih]
    rfl

/-- A parameter is bound in the scope of its function, and so is what was bound before. -/
theorem assignParams_binds {ps : List Param} {n : String} {scope : Placeholders} (k : Nat)
    (h : (scope.lookup n).isSome = true ∨ ∃ p ∈ ps, p.kind.isSeparator = false ∧ p.name = n) :
    ((assignParams ps scope k).2.1.lookup n).isSome = true := by
  induction ps generalizing scope k with
  | nil => simpa [assignParams] using h
  | cons p ps ih =>
    rw [assignParams]
    split
    · rename_i hsep
      refine ih k (h.imp_right ?_)
      rintro ⟨q, hq, hkind, hname⟩
      rcases List.mem_cons.mp hq with rfl | hq
      · rw [hkind] at hsep
        cases hsep
      · exact ⟨q, hq, hkind, hname⟩
    · refine ih (k + 1) ?_
      by_cases hn : p.name = n
      · left
        simp [hn]
      · rcases h with h | ⟨q, hq, hkind, hname⟩
        · left
          rw [List.lookup_cons]
          split
          · rfl
          · exact h
        · rcases List.mem_cons.mp hq with rfl | hq
          · exact absurd hname hn
          · exact .inr ⟨q, hq, hkind, hname⟩

/-- A name that is bound and not left out is bound in the scope, and so is what was bound before. -/
theorem assignLocals_binds {outer ns : List String} {n : String} {scope : Placeholders} (k : Nat)
    (h : (scope.lookup n).isSome = true ∨ n ∈ ns ∧ n ∉ outer) :
    ((assignLocals outer ns scope k).1.lookup n).isSome = true := by
  induction ns generalizing scope k with
  | nil => simpa [assignLocals] using h
  | cons m ns ih =>
    rw [assignLocals]
    split
    · rename_i hskip
      rw [Bool.or_eq_true, List.contains_iff_mem] at hskip
      refine ih k ?_
      rcases h with h | ⟨hmem, hout⟩
      · exact .inl h
      · rcases List.mem_cons.mp hmem with rfl | hmem
        · exact .inl (hskip.resolve_left hout)
        · exact .inr ⟨hmem, hout⟩
    · refine ih (k + 1) ?_
      by_cases hn : m = n
      · left
        simp [hn]
      · rcases h with h | ⟨hmem, hout⟩
        · left
          rw [List.lookup_cons]
          split
          · rfl
          · exact h
        · rcases List.mem_cons.mp hmem with rfl | hmem
          · exact absurd rfl hn
          · exact .inr ⟨hmem, hout⟩

end Normal

namespace Function

/-- A local name of a function: a parameter, or a name bound in the body and not declared to belong
to an outer scope. -/
def IsLocal (f : Function) (n : String) : Prop :=
  n ∈ f.paramNames ∨ n ∈ Block.boundNames false f.body ∧ n ∉ Block.declaredOuter f.body

/-- `source` may become `target` in a function: `target` does not occur in its parameters and its
body, where `source` is bound by no import and listed in no `global` declaration. A separator among
the parameters has no name, so it is not called `source`. -/
structure Admits (source target : String) (f : Function) : Prop where
  params : Normal.Open source target f.params
  body : ∀ x ∈ Block.nodes f.body, x.Admits source target

instance (f : Function) (n : String) : Decidable (f.IsLocal n) :=
  inferInstanceAs (Decidable (_ ∨ _ ∧ _))

instance (source target : String) (f : Function) : Decidable (f.Admits source target) :=
  decidable_of_iff (Normal.Open source target f.params ∧
      ∀ x ∈ Block.nodes f.body, x.Admits source target)
    ⟨fun ⟨h₁, h₂⟩ => ⟨h₁, h₂⟩, fun h => ⟨h.params, h.body⟩⟩

end Function

namespace Normal

variable {source target : String}

theorem functionScope_binds {f : Function} {n : String} (h : f.IsLocal n) (k j : Nat) :
    ((functionScope (exprParams [] f.params k).1 f.body j).2.1.lookup n).isSome = true := by
  refine assignLocals_binds _ ?_
  rcases h with h | h
  · left
    refine assignParams_binds j (.inr ?_)
    simp only [FunctionOf.paramNames, List.mem_map, List.mem_filter] at h
    obtain ⟨p, ⟨hp, hkind⟩, hname⟩ := h
    have hmem : (p.name, p.kind) ∈ (exprParams [] f.params k).1.map (fun p => (p.name, p.kind)) := by
      rw [exprParams_shape]
      exact List.mem_map.mpr ⟨p, hp, rfl⟩
    obtain ⟨q, hq, he⟩ := List.mem_map.mp hmem
    simp only [Prod.mk.injEq] at he
    refine ⟨q, hq, ?_, he.1.trans hname⟩
    rw [he.2]
    simpa using hkind
  · exact .inr h

/-- A local name of a top-level function can be renamed without a change of the normal form. -/
theorem topLevel_renameScope {f : Function} (hlocal : f.IsLocal source)
    (h : f.Admits source target) :
    topLevel (.define (Strategy.renameScope source target f)) = topLevel (.define f) := by
  unfold topLevel
  refine congrArg Prod.fst ?_
  rw [stmt_define, stmt_define]
  unfold Strategy.renameScope
  simp only [exprParams_map_rename]
  generalize exprList [] f.decorators 0 = d
  have hopen := exprParams_open [] h.params d.2
  have hbinds := functionScope_binds hlocal d.2
  generalize exprParams [] f.params d.2 = p at hopen hbinds ⊢
  have hscope := functionScope_rename hopen h.body p.2
  have hready : Scopes.Ready source target [(functionScope p.1 f.body p.2).2.1] := by
    refine ⟨?_, ?_⟩
    · intro scope hmem
      rw [List.mem_singleton.mp hmem]
      exact functionScope_avoids hopen h.body p.2
    · obtain ⟨v, hv⟩ := Option.isSome_iff_exists.mp (hbinds p.2)
      simp [Scopes.resolve?, hv]
  have hinner := stmtList_rename f.body h.body _ hready
  rw [show Scopes.rekey source target [(functionScope p.1 f.body p.2).2.1] =
    [Placeholders.rekey source target (functionScope p.1 f.body p.2).2.1] from rfl] at hinner
  rw [Block.rename] at hscope ⊢
  simp only [hscope, hinner]

end Normal

/-- Renaming a local name of a top-level function leaves the normal form of the module as it is,
hence also the digest of that form and every facet that is read off it. -/
theorem Module.normalize_renameScope {source target : String} (before after : List Stmt)
    {f : Function} (hlocal : f.IsLocal source) (hadmits : f.Admits source target) :
    let old : Module := ⟨before ++ .define f :: after⟩
    let new : Module := ⟨before ++ .define (Strategy.renameScope source target f) :: after⟩
    new.normalize = old.normalize ∧
      new.hashes.nameInvariant = old.hashes.nameInvariant ∧
      ∀ mode k, k ≠ .normalizedStructure → new.facet mode k = old.facet mode k := by
  intro old new
  have hnormal : new.normalize = old.normalize := by
    simp only [normalize, old, new, List.map_append, List.map_cons,
      Normal.topLevel_renameScope hlocal hadmits]
  refine ⟨hnormal, ?_, ?_⟩
  · show Digest.ofText new.normalize.text = Digest.ofText old.normalize.text
    rw [hnormal]
  · intro mode k hk
    unfold facet
    rw [hnormal]
    cases k with
    | normalizedStructure => exact absurd rfl hk
    | _ => rfl

/-- A function that binds `total` in its body, in a lambda, in a comprehension and in a handler, and
declares it in a nested function. -/
def tally : Function where
  name := "tally"
  params := [⟨"items", .regular, none, none⟩, ⟨"", .keywordOnly, none, none⟩,
    ⟨"start", .regular, some (.int 0), none⟩]
  body := [
    .assign [.name "total"] (.name "start") none,
    .define ⟨"add", [⟨"item", .regular, none, none⟩], [
      .nonlocals ["total"],
      .augAssign (.name "total") .add (.name "item"),
      .ret (some (.lambda [⟨"total", .regular, none, none⟩]
        (.bin .add (.name "total") (.name "item"))))], [], none, false⟩,
    .forLoop (.name "item")
      (.comp .list (.name "total") none [⟨.name "total", .name "items", [.name "total"]⟩])
      [.tryBlock [.expr (.call (.name "add") [.positional (.name "item")])]
        [⟨some (.name "ValueError"), some "total", [.pass]⟩] [] []] [],
    .ret (some (.name "total"))]

theorem Module.normalize_renameScope_tally :
    tally.IsLocal "total" ∧ tally.Admits "total" "sum" ∧
      (⟨[.pass, .define (Strategy.renameScope "total" "sum" tally)]⟩ : Module).normalize =
        (⟨[.pass, .define tally]⟩ : Module).normalize :=
  ⟨by decide, by decide,
    (Module.normalize_renameScope [.pass] [] (by decide) (by decide)).1⟩

end Concord
