import Concord.Difference.Registry
import Concord.Proofs.Difference.Operand
import Concord.Proofs.Profile.Distance
import Concord.Proofs.Strategy.Rewriting
import Concord.Proofs.Strategy.Settled
import Concord.Proofs.Tree.Mentioned
import Concord.Strategy.Registry

/-!
# Differences that are acted on

A difference that is not only diagnostic has a strategy, and the strategy understands its hint: it
never fails on the text that was compared. It also changes the text, provided that the hint leads to
the place where the difference was found. For that the functions of the candidate must have
different names, since a site names a function; a docstring is looked for in the first function and
taken from the entry function; and a name that only an import binds is not reached by a renaming.

Main statements:

* `Strategies.applicable_eq`: each kind has one strategy, or none if it is diagnostic.
* `Explain.*_acted`: the differences that one rule reports, one lemma for each rule.
* `Explainers.explainAll_acted`: all differences between a candidate and a canon.
-/

namespace Concord

/-! ## Kinds and strategies -/

/-- The strategy for differences of a kind. -/
def DifferenceKind.strategy? : DifferenceKind → Option Strategy
  | consolidatable => some Strategy.inlineReturnChain
  | emptyCheckForm => some Strategy.emptyCheck
  | boolComparison => some Strategy.boolComparison
  | negatedComparison => some Strategy.negatedComparison
  | accumulatorLoop => some Strategy.loopToComprehension
  | concatenation => some Strategy.concatToJoin
  | patternClass => some Strategy.literalAlignment
  | stringLiteral => some Strategy.literalAlignment
  | naming => some Strategy.identifierRename
  | ifReturn => some Strategy.conditionalExpression
  | elseAfterReturn => some Strategy.flattenElse
  | deadStore => some Strategy.deadStoreElimination
  | printedOutput => some Strategy.stripOutput
  | indexIteration => some Strategy.directIteration
  | materialization => some Strategy.unwrapMaterialization
  | identityOperation => some Strategy.identityElimination
  | operandOrder => some Strategy.commutativeSwap
  | powerForm => some Strategy.powerMultiplication
  | truncatingDivision => some Strategy.floorDivision
  | reassociation => some Strategy.reassociate
  | docstring => some Strategy.stripDocstring
  | recursionForm => none
  | baseCases => none

theorem DifferenceKind.isSome_strategy? (k : DifferenceKind) :
    k.strategy?.isSome = !k.isDiagnostic := by
  cases k <;> rfl

/-- Each kind has one strategy, or none if it is diagnostic. -/
theorem Strategies.applicable_eq {d : Difference} (h : d.facet = d.kind.facet) :
    Strategies.standard.applicable d = d.kind.strategy?.toList := by
  obtain ⟨kind, facet, severity, hint, explanation, ours, theirs⟩ := d
  obtain rfl : facet = kind.facet := h
  cases kind <;> rfl

/-! ## Acting on a difference -/

/-- The candidate is laid out so that the hint of a difference of a kind leads to where the
difference was found. -/
structure Comparison.Addresses (c : Comparison) (kind : DifferenceKind) : Prop where
  /-- A name of a function means one function. -/
  distinct : c.candidate.HasDistinctNames
  /-- The function whose docstring is asked for is the one that loses it. -/
  entry : kind = .docstring → c.candidate.entry? c.entryPoint = c.candidate.primary?
  /-- A renaming reaches the names that the entry function imports. -/
  imports : kind = .naming → ∀ f ∈ c.candidate.entry? c.entryPoint,
    ∀ n ∈ Function.imported f, n ∈ Function.mentioned f

/-- The strategy for a difference makes an edit of the candidate that does not fail, and that changes
it where the hint leads to the right place. -/
structure Difference.Acted (c : Comparison) (d : Difference) : Prop where
  facet : d.facet = d.kind.facet
  settles : ∀ s, d.kind.strategy? = some s → ∃ edit,
    (∀ source, s.generate d source = Strategy.editSource edit source) ∧
      Strategy.Settles edit c.candidate (c.Addresses d.kind)

namespace Explain

open Strategy

variable {c : Comparison}

/-- A difference whose strategy is known. -/
theorem acted_of_settles {d : Difference} {s : Strategy} {edit : ModuleEdit}
    (hfacet : d.facet = d.kind.facet) (hs : d.kind.strategy? = some s)
    (hgenerate : ∀ source, s.generate d source = editSource edit source)
    (h : Settles edit c.candidate (c.Addresses d.kind)) : d.Acted c := by
  refine ⟨hfacet, ?_⟩
  intro s' hs'
  obtain rfl : s = s' := Option.some.inj (hs.symm.trans hs')
  exact ⟨edit, hgenerate, h⟩

/-- A rule that reports a difference at the first of some sites, under a condition. -/
theorem acted_atFirst {sites : List Site} {kind : DifferenceKind} {hint : Site → Hint}
    {explanation ours theirs : String} {condition : Prop} [Decidable condition]
    (h : ∀ site ∈ sites, Difference.Acted c
      { kind, hint := hint site, explanation, ours, theirs }) :
    ∀ d ∈ (if condition then atFirst sites kind hint explanation ours theirs else none),
      d.Acted c := by
  intro d hd
  split at hd
  · obtain ⟨site, hsite, rfl⟩ := Option.map_eq_some_iff.mp hd
    exact h site (List.mem_of_head? hsite)
  · simp at hd

/-- A rule that falls back on another. -/
theorem acted_or {first second : Option Difference} (h₁ : ∀ d ∈ first, d.Acted c)
    (h₂ : ∀ d ∈ second, d.Acted c) : ∀ d ∈ first.or second, d.Acted c := by
  intro d hd
  rcases Option.or_eq_some_iff.mp hd with hd | ⟨-, hd⟩
  · exact h₁ d hd
  · exact h₂ d hd

/-! ### Flow -/

theorem controlFlow_acted (a b : ControlFlow) : ∀ d ∈ controlFlow c a b, d.Acted c :=
  acted_atFirst fun _ hsite => acted_of_settles rfl rfl (fun _ => rfl)
    (editAt_settles (·.distinct) hsite collapseReturns_changes)

theorem executionPaths_acted (a b : ExecutionPaths) : ∀ d ∈ executionPaths c a b, d.Acted c :=
  acted_atFirst fun _ hsite => acted_of_settles rfl rfl (fun _ => rfl)
    (editAt_settles (·.distinct) hsite hoistElse_changes)

theorem termination_acted (a b : Termination) : ∀ d ∈ termination c a b, d.Acted c := by
  refine acted_atFirst fun site hsite => ?_
  obtain ⟨f, hf, k, block, i, rfl, hk, hp⟩ := Idiom.exists_of_mem_stmtSites hsite
  obtain ⟨new, hnew, hne⟩ := iterateElements_changes
    (freshName (Block.nameOccurrences f.body ++ f.paramNames ++ c.candidate.globals) "item")
    block i hp
  obtain ⟨body, hbody, hbodyne⟩ := Block.editNth?_changes hk hnew hne
  -- The edit reads the names of the module as well, so it is settled for this module only.
  have hsettles : Settles
      (inFunction f.name fun f =>
        (Block.editNth? Idiom.isIndexIteration (iterateElements (freshName
          (Block.nameOccurrences f.body ++ f.paramNames ++ c.candidate.globals) "item")) f.body
          k).map fun body => { f with body })
      c.candidate (c.Addresses .indexIteration) := by
    refine inFunction_settles (·.distinct) hf fun _ => ⟨{ f with body }, by rw [hbody]; rfl, ?_⟩
    intro he
    exact hbodyne (congrArg FunctionOf.body he)
  exact acted_of_settles rfl rfl (fun _ => rfl) ⟨hsettles.answers, hsettles.changes⟩

theorem recursion_acted (a b : RecursionSchema) : ∀ d ∈ recursion a b, d.Acted c := by
  intro d hd
  unfold recursion at hd
  split at hd
  · obtain rfl := Option.some.inj hd
    exact ⟨rfl, by simp [DifferenceKind.strategy?]⟩
  · split at hd
    · obtain rfl := Option.some.inj hd
      exact ⟨rfl, by simp [DifferenceKind.strategy?]⟩
    · simp at hd

/-! ### Data and effects -/

theorem dataDependency_acted (a b : DataDependency) : ∀ d ∈ dataDependency c a b, d.Acted c := by
  refine acted_atFirst fun site hsite => acted_of_settles rfl rfl (fun _ => rfl) ?_
  obtain ⟨f, hf, k, hk, rfl⟩ := Idiom.mem_sitesBy.mp hsite
  refine inFunction_settles (·.distinct) hf fun _ => ?_
  rw [if_pos (List.contains_iff_mem.mpr hk)]
  refine ⟨_, rfl, fun he => ?_⟩
  -- The statement that goes is an assignment.
  have hstore := (List.mem_filter.mp hk).2
  split at hstore
  · next target value hassign =>
    obtain ⟨s, hs, hs'⟩ := Option.bind_eq_some_iff.mp hassign
    refine nonempty_eraseIdx_ne hs ?_ (congrArg FunctionOf.body he)
    rw [eq_of_asNameAssign? hs']
    simp
  · simp at hstore

theorem sideEffects_acted (a b : SideEffects) : ∀ d ∈ sideEffects c a b, d.Acted c :=
  acted_atFirst fun _ hsite => acted_of_settles rfl rfl (fun _ => rfl)
    (editAt_settles (·.distinct) hsite nonempty_eraseIdx_of_isPrint)

/-- Numbering the parts of a block does not change how many of them are taken. -/
theorem length_filterMap_zipIdx {α β : Type} (g : α → Option β) (xs : List α) (start : Nat) :
    ((xs.zipIdx start).filterMap fun (x, i) => (g x).map fun _ => i).length =
      (xs.filterMap g).length := by
  induction xs generalizing start with
  | nil => rfl
  | cons x xs ih =>
    rw [List.zipIdx_cons]
    cases hx : g x with
    | none =>
      rw [List.filterMap_cons_none hx, List.filterMap_cons_none (by simp [hx])]
      exact ih _
    | some y =>
      rw [List.filterMap_cons_some hx, List.filterMap_cons_some (b := start) (by simp [hx]),
        List.length_cons, List.length_cons, ih]

/-- A conversion that is only iterated has a number among all conversions. -/
theorem lt_of_mem_redundantMaterializations {body : Block} {k : Nat}
    (h : k ∈ Idiom.redundantMaterializations body) :
    k < (Block.find Idiom.isMaterializing body).length := by
  simp only [Idiom.redundantMaterializations, List.mem_map, List.mem_filter] at h
  obtain ⟨⟨i, j⟩, ⟨hmem, -⟩, rfl⟩ := h
  have hlt := (List.mem_zipIdx hmem).2.1
  have hlength := length_filterMap_zipIdx
    (fun n => (Node.expr? n).filter Idiom.isMaterializing) (Block.nodes body) 0
  rw [← List.filter_filterMap] at hlength
  rw [hlength, Nat.zero_add] at hlt
  exact hlt

theorem complexity_acted (a b : Complexity) : ∀ d ∈ complexity c a b, d.Acted c := by
  refine acted_atFirst fun site hsite => acted_of_settles rfl rfl (fun _ => rfl) ?_
  obtain ⟨f, hf, k, hk, rfl⟩ := Idiom.mem_sitesBy.mp hsite
  refine inBody_settles (·.distinct) hf fun _ => ?_
  rw [if_pos (List.contains_iff_mem.mpr hk)]
  have hlt := lt_of_mem_redundantMaterializations hk
  have hp := (List.mem_filter.mp (List.getElem_mem hlt)).2
  exact Block.replaceNth?_changes (List.getElem?_eq_getElem hlt) (converted?_ne _ hp)

/-- The facet of signatures tells whether the first function has a docstring. -/
theorem docstring_functionContracts {m : Module}
    (h : m.normalize.functionContracts.docstring = true) :
    ∃ f, m.primary? = some f ∧ f.docstring?.isSome = true := by
  have hprimary : m.normalize.primary? = m.primary?.map Normal.function := by
    rw [Module.primary?, Module.functions_normalize, List.head?_map]
    rfl
  unfold Module.functionContracts at h
  rw [hprimary] at h
  cases hf : m.primary? with
  | none =>
    rw [hf] at h
    simp at h
  | some f =>
    rw [hf] at h
    refine ⟨f, rfl, ?_⟩
    rw [← Normal.docstring?_function]
    exact h

theorem functionContracts_acted (b : FunctionContracts) :
    ∀ d ∈ functionContracts c c.candidate.normalize.functionContracts b, d.Acted c := by
  intro d hd
  unfold functionContracts at hd
  split at hd
  · next hdoc =>
    obtain ⟨f, hf, rfl⟩ := Option.map_eq_some_iff.mp hd
    refine acted_of_settles rfl rfl (fun _ => rfl) ?_
    refine inFunction_settles (·.distinct) (Module.mem_functions_of_entry? hf) fun h => ?_
    rw [Bool.and_eq_true] at hdoc
    obtain ⟨g, hg, hdocstring⟩ := docstring_functionContracts hdoc.1
    obtain rfl : f = g := Option.some.inj (hf.symm.trans ((h.entry rfl).trans hg))
    obtain ⟨text, htext⟩ := Option.isSome_iff_exists.mp hdocstring
    refine ⟨_, by rw [htext]; rfl, fun he => ?_⟩
    have hhead : ∃ lit, f.body[0]? = some (.expr (.str lit)) := by
      unfold FunctionOf.docstring? at htext
      split at htext
      · next lit rest hbody => exact ⟨lit, by rw [hbody]; rfl⟩
      · simp at htext
    obtain ⟨lit, hlit⟩ := hhead
    have hne := nonempty_eraseIdx_ne hlit (by simp)
    rw [List.eraseIdx_zero] at hne
    exact hne (congrArg FunctionOf.body he)
  · simp at hd

/-! ### Operators -/

theorem algebraic_acted (b : Algebraic) :
    ∀ d ∈ algebraic c c.candidate.normalize.algebraic b, d.Acted c := by
  refine acted_or (acted_atFirst fun _ hsite => acted_of_settles rfl rfl (fun _ => rfl)
    (replaceAt_settles (·.distinct) hsite withoutIdentity?_ne)) ?_
  intro d hd
  obtain ⟨i, hi, hd⟩ := Option.bind_eq_some_iff.mp hd
  obtain ⟨site, hsite, hd⟩ := Option.bind_eq_some_iff.mp hd
  obtain rfl := Option.some.inj hd
  obtain ⟨f, hf, hname, op, l, r, hfind, hop, hne⟩ := operands_ne hi hsite
  obtain ⟨function, k⟩ := site
  obtain rfl : function = f.name := hname
  refine acted_of_settles rfl rfl (fun _ => rfl)
    (replaceAt_settles_of_find (·.distinct) hf hfind ?_)
  simp only [Strategy.swapped?, if_pos hop, Option.getD_some]
  intro he
  exact hne (Expr.bin.inj he).2.2

theorem power_acted (a b : Numerical) : ∀ d ∈ power c a b, d.Acted c := by
  unfold power
  intro d hd
  simp only at hd
  split at hd
  · obtain ⟨site, hsite, rfl⟩ := Option.map_eq_some_iff.mp hd
    exact acted_of_settles rfl rfl (fun _ => rfl)
      (replaceAt_settles (·.distinct) (List.mem_of_head? hsite) powerToProduct?_ne)
  · revert d
    exact acted_atFirst fun _ hsite => acted_of_settles rfl rfl (fun _ => rfl)
      (replaceAt_settles (·.distinct) hsite productToPower?_ne)

theorem numerical_acted (a b : Numerical) : ∀ d ∈ numerical c a b, d.Acted c :=
  acted_or (power_acted a b) (acted_atFirst fun _ hsite => acted_of_settles rfl rfl (fun _ => rfl)
    (replaceAt_settles (·.distinct) hsite floored?_ne))

theorem operatorPrecedence_acted : ∀ d ∈ operatorPrecedence c, d.Acted c := by
  unfold operatorPrecedence
  intro d hd
  simp only at hd
  split at hd
  · obtain ⟨site, hsite, rfl⟩ := Option.map_eq_some_iff.mp hd
    exact acted_of_settles rfl rfl (fun _ => rfl)
      (replaceAt_settles (·.distinct) (List.mem_of_head? hsite) regroupLeft?_ne)
  · revert d
    exact acted_atFirst fun _ hsite => acted_of_settles rfl rfl (fun _ => rfl)
      (replaceAt_settles (·.distinct) hsite regroupRight?_ne)

/-! ### Tests -/

theorem logical_acted (a b : Logical) : ∀ d ∈ logical c a b, d.Acted c := by
  intro d hd
  unfold logical at hd
  split at hd
  · obtain ⟨site, hsite, rfl⟩ := Option.map_eq_some_iff.mp hd
    exact acted_of_settles rfl rfl (fun _ => rfl)
      (replaceAt_settles (·.distinct) (List.mem_of_head? hsite) toTruthiness?_ne)
  · split at hd
    · obtain ⟨site, hsite, rfl⟩ := Option.map_eq_some_iff.mp hd
      exact acted_of_settles rfl rfl (fun _ => rfl)
        (replaceAt_settles (·.distinct) (List.mem_of_head? hsite) toLength?_ne)
    · revert d
      exact acted_or
        (acted_atFirst fun _ hsite => acted_of_settles rfl rfl (fun _ => rfl)
          (replaceAt_settles (·.distinct) hsite withoutBool?_ne))
        (acted_atFirst fun _ hsite => acted_of_settles rfl rfl (fun _ => rfl)
          (replaceAt_settles (·.distinct) hsite inverted?_ne))

/-! ### Statements -/

theorem statementOrdering_acted (a b : List String) :
    ∀ d ∈ statementOrdering c a b, d.Acted c := by
  intro d hd
  unfold statementOrdering at hd
  simp only at hd
  split at hd
  · obtain ⟨site, hsite, rfl⟩ := Option.map_eq_some_iff.mp hd
    obtain ⟨f, hf, k, block, i, rfl, hk, hp⟩ :=
      Idiom.exists_of_mem_stmtSites (List.mem_of_head? hsite)
    refine acted_of_settles rfl rfl (fun _ => rfl) (inBody_settles (·.distinct) hf fun h => ?_)
    -- The length in the hint is that of the chain at the site.
    have hlength : chainLengthAt c.candidate ⟨f.name, k⟩ = Idiom.returnChainLength block i := by
      simp only [chainLengthAt, Module.function?_eq h.distinct hf, Option.bind_some, hk,
        Option.map_some, Option.getD_some]
    obtain ⟨new, hnew, hne⟩ := inlineChain_changes block i hp
    rw [hlength]
    exact Block.editNth?_changes hk hnew hne
  · simp at hd

/-! ### Structure -/

theorem loopBuild_acted {p : Block → Nat → Bool} {kind : DifferenceKind} {explanation : String}
    (h : ∀ site ∈ Idiom.stmtSites p c.candidate, ∀ ours theirs, Difference.Acted c
      { kind, hint := .site site, explanation, ours, theirs }) :
    ∀ d ∈ loopBuild c p kind explanation, d.Acted c :=
  acted_atFirst fun site hsite => h site hsite _ _

/-- A text literal of a module has a site, where a literal with its value stands. -/
theorem exists_of_mem_textLiterals {m : Module} {site : Site} {value : String}
    (h : (site, value) ∈ textLiterals m) :
    ∃ f ∈ m.functions, ∃ k lit, site = ⟨f.name, k⟩ ∧
      (Block.find isStringLiteral f.body)[k]? = some (.str lit) ∧ lit.bytes = false ∧
        lit.value = value := by
  simp only [textLiterals, List.mem_flatMap, List.mem_filterMap] at h
  obtain ⟨f, hf, ⟨e, k⟩, hmem, he⟩ := h
  obtain ⟨v, hv, heq⟩ := Option.map_eq_some_iff.mp he
  obtain ⟨rfl, rfl⟩ := Prod.mk.inj heq
  have hsame : isStringLiteral = isString := by
    funext e
    cases e <;> rfl
  have hget := List.mem_zipIdx_iff_getElem?.mp hmem
  cases e with
  | str lit =>
    simp only [textValue?] at hv
    split at hv
    · simp at hv
    · next hbytes =>
      exact ⟨f, hf, k, lit, rfl, by rw [hsame]; exact hget, by simpa using hbytes,
        Option.some.inj hv⟩
  | _ => simp [textValue?] at hv

theorem literal_acted : ∀ d ∈ literal c, d.Acted c := by
  intro d hd
  unfold literal at hd
  simp only at hd
  split at hd
  · simp at hd
  · obtain ⟨⟨⟨site, a⟩, y, b⟩, hfind, hd⟩ := Option.bind_eq_some_iff.mp hd
    have hbne := List.find?_some hfind
    have hne : a ≠ b := bne_iff_ne.mp hbne
    obtain ⟨f, hf, k, lit, rfl, hk, hbytes, rfl⟩ := exists_of_mem_textLiterals
      (List.of_mem_zip (List.mem_of_find?_eq_some hfind)).1
    have hsettles : ∀ kind, Settles (replaceAt isStringLiteral
        (fun e => some (respelled lit.value b e)) ⟨f.name, k⟩) c.candidate (c.Addresses kind) := by
      intro kind
      refine replaceAt_settles_of_find (·.distinct) hf hk ?_
      simp only [respelled, hbytes, Bool.not_false, decide_true, Bool.and_self, if_true,
        Option.getD_some]
      intro he
      exact hne (congrArg StrLit.value (Expr.str.inj he)).symm
    -- Both kinds of literals have the same strategy.
    split at hd
    all_goals
      obtain rfl := Option.some.inj hd
      exact acted_of_settles rfl rfl (fun _ => rfl) (hsettles _)

/-- An admitted renaming is one of the aligned pairs, and its target was not taken. -/
theorem mem_admitted {policy : NamingPolicy} {pairs : List (String × String)}
    {taken : List String} {r : Rename} (h : r ∈ admitted policy taken pairs) :
    (r.source, r.target) ∈ pairs ∧ r.target ∉ taken := by
  induction pairs generalizing taken with
  | nil => simp [admitted] at h
  | cons pair pairs ih =>
    obtain ⟨a, b⟩ := pair
    rw [admitted] at h
    split at h
    · next hadmit =>
      rcases List.mem_cons.mp h with rfl | h
      · simp only [Bool.and_eq_true, Bool.not_eq_true', List.contains_eq_mem,
          decide_eq_false_iff_not] at hadmit
        exact ⟨List.mem_cons_self, hadmit.2⟩
      · obtain ⟨hmem, htaken⟩ := ih h
        exact ⟨List.mem_cons_of_mem _ hmem, fun h' => htaken (List.mem_cons_of_mem b h')⟩
    · obtain ⟨hmem, htaken⟩ := ih h
      exact ⟨List.mem_cons_of_mem _ hmem, htaken⟩

/-- Only parameters and local names are aligned. -/
theorem mem_of_mem_alignedNames {ours theirs : Function} {a b : String}
    (h : (a, b) ∈ alignedNames ours theirs) :
    a ∈ ours.paramNames ∨ a ∈ Block.boundNames false ours.body := by
  have hzip : ∀ xs ys : List String,
      (a, b) ∈ (if xs.length = ys.length then xs.zip ys else []) → a ∈ xs := by
    intro xs ys hmem
    split at hmem
    · exact (List.of_mem_zip hmem).1
    · simp at hmem
  rcases List.mem_append.mp h with h | h
  · exact .inl (hzip _ _ h)
  · exact .inr (List.mem_filter.mp (hzip _ _ h)).1

/-- The admitted renamings change the function, if it mentions what it imports. -/
theorem renameAll_admitted_ne {policy : NamingPolicy} {taken : List String} {ours theirs : Function}
    (hparams : ours.paramNames ⊆ taken) (hbound : Block.boundNames true ours.body ⊆ taken)
    (himports : ∀ n ∈ Function.imported ours, n ∈ Function.mentioned ours)
    (hne : admitted policy taken (alignedNames ours theirs) ≠ []) :
    renameAll (admitted policy taken (alignedNames ours theirs)) ours ≠ ours := by
  obtain ⟨r, rest, hrenames⟩ := List.exists_cons_of_ne_nil hne
  have hadmitted : ∀ x ∈ r :: rest,
      (x.source, x.target) ∈ alignedNames ours theirs ∧ x.target ∉ taken := by
    intro x hx
    rw [← hrenames] at hx
    exact mem_admitted hx
  have hsource := mem_of_mem_alignedNames (hadmitted r List.mem_cons_self).1
  have hmentioned : r.source ∈ Function.mentioned ours :=
    hsource.elim Function.mem_mentioned_of_mem_paramNames
      (Function.mem_mentioned_of_mem_boundNames himports)
  have htaken : r.source ∈ taken :=
    hsource.elim (fun h => hparams h) fun h => hbound (Block.boundNames_subset _ h)
  rw [hrenames]
  exact renameAll_ne hmentioned fun x hx he => (hadmitted x hx).2 (he ▸ htaken)

theorem naming_acted : ∀ d ∈ naming c, d.Acted c := by
  intro d hd
  unfold naming at hd
  obtain ⟨policy, -, hd⟩ := Option.bind_eq_some_iff.mp hd
  split at hd
  · simp at hd
  · obtain ⟨ours, hours, hd⟩ := Option.bind_eq_some_iff.mp hd
    obtain ⟨theirs, -, hd⟩ := Option.bind_eq_some_iff.mp hd
    simp only at hd
    split at hd
    · simp at hd
    · next hnonempty =>
      obtain rfl := Option.some.inj hd
      refine acted_of_settles rfl rfl (fun _ => rfl) ?_
      refine inFunction_settles (·.distinct) (Module.mem_functions_of_entry? hours) fun h => ?_
      refine ⟨_, if_neg hnonempty, renameAll_admitted_ne ?_ ?_ (h.imports rfl ours hours) ?_⟩
      · intro n hn
        simp [hn]
      · intro n hn
        simp [hn]
      · rwa [List.isEmpty_iff] at hnonempty

theorem structural_acted : ∀ d ∈ structural c, d.Acted c :=
  acted_or
    (loopBuild_acted fun _ hsite _ _ => acted_of_settles rfl rfl (fun _ => rfl)
      (editAt_settles (·.distinct) hsite (collapse_changes (comprehension .list)))) <|
  acted_or
    (loopBuild_acted fun _ hsite _ _ => acted_of_settles rfl rfl (fun _ => rfl)
      (editAt_settles (·.distinct) hsite (collapse_changes joined))) <|
  acted_or literal_acted naming_acted

end Explain

/-! ## All differences -/

/-- The strategy of a difference answers on the text of the candidate, and changes it where the hint
leads to the right place. -/
theorem Difference.Acted.generate {c : Comparison} {d : Difference} (h : d.Acted c) {text : String}
    (hparse : Module.parse? text = some c.candidate) {s : Strategy}
    (hs : s ∈ Strategies.standard.applicable d) :
    (∃ r, s.generate d text = .ok r) ∧
      (c.Addresses d.kind → ∃ new, s.generate d text = .ok (some new)) := by
  rw [Strategies.applicable_eq h.facet, Option.mem_toList] at hs
  obtain ⟨edit, hgenerate, hsettles⟩ := h.settles s hs
  rw [hgenerate]
  exact Strategy.editSource_settles hparse hsettles

/-- A difference that is not only diagnostic has a strategy. -/
theorem Difference.Acted.applicable_ne_nil {c : Comparison} {d : Difference} (h : d.Acted c)
    (hkind : d.kind.isDiagnostic = false) : Strategies.standard.applicable d ≠ [] := by
  have hsome := d.kind.isSome_strategy?
  rw [hkind] at hsome
  obtain ⟨s, hs⟩ := Option.isSome_iff_exists.mp hsome
  rw [Strategies.applicable_eq h.facet, hs]
  simp

namespace Explainers

variable {c : Comparison}

/-- The explainer of a facet understands the values of that facet of two modules. -/
theorem standard_acted (mode : Mode) (k : Facet) :
    ∃ found, Explainer.standard k (c.candidate.facet mode k) (c.canon.facet mode k) c = .ok found ∧
      ∀ d ∈ found, d.Acted c := by
  cases k with
  | controlFlow => exact ⟨_, rfl, Explain.controlFlow_acted _ _⟩
  | dataDependency => exact ⟨_, rfl, Explain.dataDependency_acted _ _⟩
  | executionPaths => exact ⟨_, rfl, Explain.executionPaths_acted _ _⟩
  | functionContracts => exact ⟨_, rfl, Explain.functionContracts_acted _⟩
  | complexity => exact ⟨_, rfl, Explain.complexity_acted _ _⟩
  | sideEffects => exact ⟨_, rfl, Explain.sideEffects_acted _ _⟩
  | termination => exact ⟨_, rfl, Explain.termination_acted _ _⟩
  | algebraicStructure => exact ⟨_, rfl, Explain.algebraic_acted _⟩
  | numericalBehavior => exact ⟨_, rfl, Explain.numerical_acted _ _⟩
  | logicalEquivalence => exact ⟨_, rfl, Explain.logical_acted _ _⟩
  | normalizedStructure => exact ⟨_, rfl, Explain.structural_acted⟩
  | operatorPrecedence => exact ⟨_, rfl, Explain.operatorPrecedence_acted⟩
  | statementOrdering => exact ⟨_, rfl, Explain.statementOrdering_acted _ _⟩
  | recursionSchema => exact ⟨_, rfl, Explain.recursion_acted _ _⟩

theorem explainAt_acted (mode : Mode) (x : FacetDistance) :
    ∃ found, standard.explainAt (c.candidate.profile mode) (c.canon.profile mode) c x = .ok found ∧
      ∀ d ∈ found, d.Acted c := by
  unfold explainAt
  rw [Module.get?_profile, Module.get?_profile]
  simp only [standard]
  split
  · exact standard_acted mode x.facet
  · exact ⟨none, rfl, by simp⟩

/-- A run over a list in which every step succeeds. -/
theorem mapM_ok {α β ε : Type} {f : α → Except ε β} {Q : β → Prop}
    (h : ∀ x, ∃ y, f x = .ok y ∧ Q y) (xs : List α) :
    ∃ ys, xs.mapM f = .ok ys ∧ ∀ y ∈ ys, Q y := by
  induction xs with
  | nil => exact ⟨[], rfl, by simp⟩
  | cons x xs ih =>
    obtain ⟨y, hy, hQ⟩ := h x
    obtain ⟨ys, hys, hQs⟩ := ih
    refine ⟨y :: ys, ?_, List.forall_mem_cons.mpr ⟨hQ, hQs⟩⟩
    rw [List.mapM_cons, hy, hys]
    rfl

/-- Two modules are always explained, and every difference that is not only diagnostic has a
strategy that answers on the text of the candidate. The strategy gives a new text, if the candidate
is laid out so that the hint leads to where the difference was found. -/
theorem explainAll_acted (c : Comparison) (mode : Mode) (distances : List FacetDistance)
    (hparse : Module.parse? c.candidateText = some c.candidate) :
    ∃ ds, standard.explainAll (c.candidate.profile mode) (c.canon.profile mode) distances c =
        .ok ds ∧
      ∀ d ∈ ds, d.kind.isDiagnostic = false →
        Strategies.standard.applicable d ≠ [] ∧
          ∀ s ∈ Strategies.standard.applicable d,
            (∃ r, s.generate d c.candidateText = .ok r) ∧
              (c.Addresses d.kind → ∃ text, s.generate d c.candidateText = .ok (some text)) := by
  obtain ⟨found, hfound, hacted⟩ := mapM_ok (fun x => explainAt_acted (c := c) mode x) distances
  refine ⟨(found.filterMap id).mergeSort Difference.precedes, ?_, ?_⟩
  · rw [explainAll, hfound]
    rfl
  · intro d hd hkind
    rw [List.mem_mergeSort] at hd
    obtain ⟨o, ho, hod⟩ := List.mem_filterMap.mp hd
    have h := hacted o ho d hod
    exact ⟨h.applicable_ne_nil hkind, fun s hs => h.generate hparse hs⟩

/-- A single facet has at most one difference. -/
theorem explainAll_singleton (es : Explainers) (a b : Profile) (x : FacetDistance)
    (c : Comparison) :
    es.explainAll a b [x] c = (es.explainAt a b c x).map (·.toList) := by
  rw [explainAll, List.mapM_cons, List.mapM_nil]
  cases es.explainAt a b c x with
  | error e => rfl
  | ok found =>
    cases found with
    | none => exact congrArg Except.ok List.mergeSort_nil
    | some d => exact congrArg Except.ok (List.mergeSort_singleton d)

/-- A function `helper` of one parameter with the given body, and a function `solve` that calls
it. -/
def helped (body : Block) : Module where
  body := [
    .define { name := "helper", params := [{ name := "x" }], body },
    .define
      { name := "solve"
        params := [{ name := "x" }]
        body := [.ret (some (.callOf "helper" [.name "x"]))] }]

/-- The helper with a docstring against the helper without. -/
def documented (entryPoint : Option String) : Comparison where
  candidate := helped [.expr (.str { value := "Doc." }), .ret (some (.name "x"))]
  canon := helped [.ret (some (.name "x"))]
  candidateText :=
    "def helper(x):\n    \"\"\"Doc.\"\"\"\n    return x\n\n\ndef solve(x):\n    return helper(x)\n"
  entryPoint

/-- The difference that is reported, with the name of the entry function. -/
def strayDocstring (function : String) : Difference where
  kind := .docstring
  hint := .stripDocstring function
  explanation := "candidate documents \x60" ++ function ++ "\x60; canon carries no docstring"
  ours := "docstring"
  theirs := "none"

/-- Without an entry point the first function is the entry function, and loses its docstring. -/
theorem explainAll_acted_documented :
    Module.parse? (documented none).candidateText = some (documented none).candidate ∧
      (documented none).Addresses .docstring ∧
      standard.explainAll ((documented none).candidate.profile .baseline)
        ((documented none).canon.profile .baseline) [⟨.functionContracts, 1⟩] (documented none) =
          .ok [strayDocstring "helper"] ∧
      ∀ s ∈ Strategies.standard.applicable (strayDocstring "helper"),
        ∃ text, s.generate (strayDocstring "helper") (documented none).candidateText =
          .ok (some text) := by
  have hparse : Module.parse? (documented none).candidateText = some (documented none).candidate := by
    decide +kernel
  have haddresses : (documented none).Addresses .docstring :=
    ⟨by decide, fun _ => rfl, by simp⟩
  have hexplained : standard.explainAll ((documented none).candidate.profile .baseline)
      ((documented none).canon.profile .baseline) [⟨.functionContracts, 1⟩] (documented none) =
        .ok [strayDocstring "helper"] := by
    rw [explainAll_singleton]
    decide +kernel
  obtain ⟨ds, hds, hacted⟩ :=
    explainAll_acted (documented none) .baseline [⟨.functionContracts, 1⟩] hparse
  obtain rfl : ds = [strayDocstring "helper"] := Except.ok.inj (hds.symm.trans hexplained)
  obtain ⟨-, hgenerate⟩ := hacted _ List.mem_cons_self rfl
  exact ⟨hparse, haddresses, hexplained, fun s hs => (hgenerate s hs).2 haddresses⟩

/-- Where the entry function is another one than the first, the docstring of the first function is
reported for it, and the strategy declines. -/
theorem explainAll_documented_solve :
    Module.parse? (documented (some "solve")).candidateText =
        some (documented (some "solve")).candidate ∧
      standard.explainAll ((documented (some "solve")).candidate.profile .baseline)
        ((documented (some "solve")).canon.profile .baseline) [⟨.functionContracts, 1⟩]
        (documented (some "solve")) = .ok [strayDocstring "solve"] ∧
      (strayDocstring "solve").kind.isDiagnostic = false ∧
      ∀ s ∈ Strategies.standard.applicable (strayDocstring "solve"),
        s.generate (strayDocstring "solve") (documented (some "solve")).candidateText = .ok none := by
  refine ⟨by decide +kernel, ?_, rfl, ?_⟩
  · rw [explainAll_singleton]
    decide +kernel
  · intro s hs
    rw [Strategies.applicable_eq rfl] at hs
    obtain rfl : s = Strategy.stripDocstring := List.mem_singleton.mp hs
    decide +kernel

end Explainers

end Concord
