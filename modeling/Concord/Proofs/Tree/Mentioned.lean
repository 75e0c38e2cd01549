import Concord.Proofs.Tree.Renaming

/-!
# What a renaming reaches

A renaming rewrites every name that a function mentions, in the order in which the names stand, and
nothing else; what an import binds is not reached. So renaming several names at once changes the
function as soon as one of the names is mentioned and none of the new names is that name.

Main statements:

* `Block.nodes_rename`: the parts of a renamed block are the renamed parts of the block.
* `Function.mentioned_renameScope`: the names that a renamed function mentions.
* `Strategy.renameAll_ne`: renaming several names at once is not idle.
-/

namespace Concord

/-! ## Parts of a renamed tree -/

section

variable (source target : String)

namespace Expr

theorem subtermsParams_map_rename (ps : List Param) :
    subtermsParams (ps.map (·.rename source target)) = subtermsParams ps := by
  induction ps with
  | nil => rfl
  | cons p ps ih =>
    obtain ⟨n, kind, default, note⟩ := p
    exact congrArg (subtermsOption default ++ ·) ih

mutual

/-- The parts of a renamed expression. -/
theorem subterms_rename : (e : Expr) → (e.map (renameNode source target)).subterms =
    e.subterms.map (map (renameNode source target))
  | .bin op l r => by
    simp only [map, renameNode, subterms, List.map_cons, List.map_append, subterms_rename l,
      subterms_rename r]
  | .unary op a => by
    simp only [map, renameNode, subterms, List.map_cons, subterms_rename a]
  | .logic op l r => by
    simp only [map, renameNode, subterms, List.map_cons, List.map_append, subterms_rename l,
      subterms_rename r]
  | .compare l links => by
    simp only [map, renameNode, subterms, List.map_cons, List.map_append, subterms_rename l,
      subtermsLinks_rename links]
  | .call g args => by
    simp only [map, renameNode, subterms, List.map_cons, List.map_append, subterms_rename g,
      subtermsArgs_rename args]
  | .attribute a n => by
    simp only [map, renameNode, subterms, List.map_cons, subterms_rename a]
  | .subscript a i => by
    simp only [map, renameNode, subterms, List.map_cons, List.map_append, subterms_rename a,
      subterms_rename i]
  | .slice a b c => by
    simp only [map, renameNode, subterms, List.map_cons, List.map_append, subtermsOption_rename a,
      subtermsOption_rename b, subtermsOption_rename c]
  | .list items => by
    simp only [map, renameNode, subterms, List.map_cons, subtermsList_rename items]
  | .tuple items => by
    simp only [map, renameNode, subterms, List.map_cons, subtermsList_rename items]
  | .set items => by
    simp only [map, renameNode, subterms, List.map_cons, subtermsList_rename items]
  | .dict entries => by
    simp only [map, renameNode, subterms, List.map_cons, subtermsEntries_rename entries]
  | .comp kind e v cs => by
    simp only [map, renameNode, subterms, List.map_cons, List.map_append, subterms_rename e,
      subtermsOption_rename v, subtermsClauses_rename cs]
  | .ifExp t a b => by
    simp only [map, renameNode, subterms, List.map_cons, List.map_append, subterms_rename t,
      subterms_rename a, subterms_rename b]
  | .starred a => by
    simp only [map, renameNode, subterms, List.map_cons, subterms_rename a]
  | .lambda ps b => by
    simp only [map, renameNode, subterms, List.map_cons, List.map_append,
      subtermsParams_map_rename, subtermsParams_rename ps, subterms_rename b]
  | .name _ | .int _ | .float _ | .str _ | .bool _ | .none | .verbatim _ => rfl

theorem subtermsOption_rename : (o : Option Expr) →
    subtermsOption (mapOption (renameNode source target) o) =
      (subtermsOption o).map (map (renameNode source target))
  | Option.none => rfl
  | some e => subterms_rename e

theorem subtermsList_rename : (es : List Expr) →
    subtermsList (mapList (renameNode source target) es) =
      (subtermsList es).map (map (renameNode source target))
  | [] => rfl
  | e :: es => by
    simp only [mapList, subtermsList, List.map_append, subterms_rename e, subtermsList_rename es]

theorem subtermsLinks_rename : (ls : List (CmpOp × Expr)) →
    subtermsLinks (mapLinks (renameNode source target) ls) =
      (subtermsLinks ls).map (map (renameNode source target))
  | [] => rfl
  | (_, e) :: ls => by
    simp only [mapLinks, subtermsLinks, List.map_append, subterms_rename e,
      subtermsLinks_rename ls]

theorem subtermsArgs_rename : (as : List Arg) →
    subtermsArgs (mapArgs (renameNode source target) as) =
      (subtermsArgs as).map (map (renameNode source target))
  | [] => rfl
  | .positional e :: as | .keyword _ e :: as | .star e :: as | .doubleStar e :: as => by
    simp only [mapArgs, subtermsArgs, List.map_append, subterms_rename e, subtermsArgs_rename as]

theorem subtermsEntries_rename : (es : List (Expr × Expr)) →
    subtermsEntries (mapEntries (renameNode source target) es) =
      (subtermsEntries es).map (map (renameNode source target))
  | [] => rfl
  | (k, v) :: es => by
    simp only [mapEntries, subtermsEntries, List.map_append, subterms_rename k, subterms_rename v,
      subtermsEntries_rename es]

theorem subtermsClauses_rename : (cs : List Clause) →
    subtermsClauses (mapClauses (renameNode source target) cs) =
      (subtermsClauses cs).map (map (renameNode source target))
  | [] => rfl
  | ⟨t, i, ifs⟩ :: cs => by
    simp only [mapClauses, subtermsClauses, List.map_append, subterms_rename i, subterms_rename t,
      subtermsList_rename ifs, subtermsClauses_rename cs]

theorem subtermsParams_rename : (ps : List Param) →
    subtermsParams (mapParams (renameNode source target) ps) =
      (subtermsParams ps).map (map (renameNode source target))
  | [] => rfl
  | ⟨_, _, default, _⟩ :: ps => by
    simp only [mapParams, subtermsParams, List.map_append, subtermsOption_rename default,
      subtermsParams_rename ps]

end

end Expr

/-- Rename in a part of a tree. -/
def Node.rename : Node → Node
  | .stmt s => .stmt (s.map (Stmt.renameNode source target) (Expr.renameNode source target))
  | .expr e => .expr (e.map (Expr.renameNode source target))

namespace Stmt

theorem exprNodes_rename (es : List Expr) :
    exprNodes (es.map (Expr.map (Expr.renameNode source target))) =
      (exprNodes es).map (Node.rename source target) := by
  simp [exprNodes, Node.rename]

theorem nodesHandlers_map_rename (hs : List Handler) :
    nodesHandlers (hs.map (·.rename source target)) = nodesHandlers hs := by
  induction hs with
  | nil => rfl
  | cons h hs ih =>
    obtain ⟨type, name, body⟩ := h
    exact congrArg (fun ns => exprNodes (Expr.subtermsOption type) ++ (nodesList body ++ ns)) ih

mutual

/-- The parts of a renamed statement. -/
theorem nodes_rename : (s : Stmt) →
    (s.map (renameNode source target) (Expr.renameNode source target)).nodes =
      s.nodes.map (Node.rename source target)
  | .define ⟨name, params, body, decorators, returns, isAsync⟩ => by
    simp only [map, renameNode, nodes, List.map_cons, List.map_append, Node.rename,
      Expr.subtermsList_rename, Expr.subtermsParams_map_rename, Expr.subtermsParams_rename,
      exprNodes_rename, nodesList_rename body]
  | .ret v => by
    simp only [map, renameNode, nodes, List.map_cons, Node.rename, Expr.subtermsOption_rename,
      exprNodes_rename]
  | .assign ts v a => by
    simp only [map, renameNode, nodes, List.map_cons, Node.rename, Expr.subterms_rename,
      Expr.subtermsList_rename, ← List.map_append, exprNodes_rename]
  | .augAssign t op v => by
    simp only [map, renameNode, nodes, List.map_cons, Node.rename, Expr.subterms_rename,
      ← List.map_append, exprNodes_rename]
  | .expr e => by
    simp only [map, renameNode, nodes, List.map_cons, Node.rename, Expr.subterms_rename,
      exprNodes_rename]
  | .cond t body orelse => by
    simp only [map, renameNode, nodes, List.map_cons, List.map_append, Node.rename,
      Expr.subterms_rename, exprNodes_rename, nodesList_rename body, nodesList_rename orelse]
  | .whileLoop t body orelse => by
    simp only [map, renameNode, nodes, List.map_cons, List.map_append, Node.rename,
      Expr.subterms_rename, exprNodes_rename, nodesList_rename body, nodesList_rename orelse]
  | .forLoop t i body orelse => by
    simp only [map, renameNode, nodes, List.map_cons, Node.rename, Expr.subterms_rename,
      ← List.map_append, exprNodes_rename, nodesList_rename body, nodesList_rename orelse]
  | .tryBlock body hs orelse final => by
    simp only [map, renameNode, nodes, List.map_cons, List.map_append, Node.rename,
      nodesHandlers_map_rename, nodesList_rename body, nodesHandlers_rename hs,
      nodesList_rename orelse, nodesList_rename final]
  | .raise e c => by
    simp only [map, renameNode, nodes, List.map_cons, Node.rename, Expr.subtermsOption_rename,
      ← List.map_append, exprNodes_rename]
  | .assert t m => by
    simp only [map, renameNode, nodes, List.map_cons, Node.rename, Expr.subterms_rename,
      Expr.subtermsOption_rename, ← List.map_append, exprNodes_rename]
  | .importNames _ | .importFrom _ _ | .globals _ | .nonlocals _ | .pass | .break | .continue
  | .verbatim _ _ _ => rfl

theorem nodesList_rename : (b : List Stmt) →
    nodesList (mapList (renameNode source target) (Expr.renameNode source target) b) =
      (nodesList b).map (Node.rename source target)
  | [] => rfl
  | s :: ss => by
    simp only [mapList, nodesList, List.map_append, nodes_rename s, nodesList_rename ss]

theorem nodesHandlers_rename : (hs : List (HandlerOf Stmt)) →
    nodesHandlers (mapHandlers (renameNode source target) (Expr.renameNode source target) hs) =
      (nodesHandlers hs).map (Node.rename source target)
  | [] => rfl
  | ⟨type, name, body⟩ :: hs => by
    simp only [mapHandlers, nodesHandlers, List.map_append, Expr.subtermsOption_rename,
      exprNodes_rename, nodesList_rename body, nodesHandlers_rename hs]

end

end Stmt

/-- The parts of a renamed block are the renamed parts of the block. -/
theorem Block.nodes_rename (b : Block) :
    (b.rename source target).nodes = b.nodes.map (Node.rename source target) :=
  Stmt.nodesList_rename source target b

end

/-! ## Names that a function mentions -/

namespace Node

/-- The names of a part of a tree that a renaming reaches. -/
def mentioned : Node → List String
  | .expr (.name n) => [n]
  | .expr (.lambda ps _) => ps.map (·.name)
  | .stmt (.define f) => f.name :: f.params.map (·.name)
  | .stmt (.tryBlock _ hs _ _) => hs.filterMap (·.name)
  | .stmt (.globals ns) => ns
  | .stmt (.nonlocals ns) => ns
  | _ => []

/-- The names that an import binds. -/
def imported : Node → List String
  | .stmt (.importNames ns) => ns.map Alias.boundName
  | .stmt (.importFrom _ ns) => ns.map Alias.boundName
  | _ => []

/-- What a part of a tree spells out is mentioned or imported. -/
theorem mem_mentioned_or_imported {x : Node} {n : String} (h : n ∈ x.spelled) :
    n ∈ x.mentioned ∨ n ∈ x.imported := by
  cases x with
  | expr e => cases e <;> exact .inl h
  | stmt s => cases s <;> first | exact .inl h | exact .inr h

variable (source target : String)

theorem names_mapParams (f : Expr → Expr) (ps : List Param) :
    (Expr.mapParams f ps).map (·.name) = ps.map (·.name) := by
  induction ps with
  | nil => rfl
  | cons p ps ih =>
    obtain ⟨n, kind, default, note⟩ := p
    exact congrArg (n :: ·) ih

theorem names_rename (ps : List Param) :
    (ps.map (·.rename source target)).map (·.name) =
      (ps.map (·.name)).map (renamed source target) := by
  simp [ParamOf.rename]

theorem names_mapHandlers (g : Stmt → Stmt) (f : Expr → Expr) (hs : List Handler) :
    ((Stmt.mapHandlers g f hs).map (·.rename source target)).filterMap (·.name) =
      (hs.filterMap (·.name)).map (renamed source target) := by
  induction hs with
  | nil => rfl
  | cons h hs ih =>
    obtain ⟨type, name, body⟩ := h
    cases name with
    | none => exact ih
    | some n => exact congrArg (renamed source target n :: ·) ih

/-- A renamed part of a tree mentions the renamed names. -/
theorem mentioned_rename (x : Node) :
    (x.rename source target).mentioned = x.mentioned.map (renamed source target) := by
  cases x with
  | expr e =>
    cases e with
    | lambda ps b =>
      simp only [rename, Expr.map, Expr.renameNode, mentioned, names_rename, names_mapParams]
    | _ => rfl
  | stmt s =>
    cases s with
    | define f =>
      obtain ⟨name, params, body, decorators, returns, isAsync⟩ := f
      simp only [rename, Stmt.map, Stmt.renameNode, mentioned, names_rename, names_mapParams,
        List.map_cons]
    | tryBlock body hs orelse final =>
      simp only [rename, Stmt.map, Stmt.renameNode, mentioned, names_mapHandlers]
    | _ => rfl

end Node

namespace Function

/-- The names of a function that a renaming in its scope reaches. -/
def mentioned (f : Function) : List String :=
  f.params.map (·.name) ++ (Block.nodes f.body).flatMap Node.mentioned

/-- The names that imports anywhere in a function bind. -/
def imported (f : Function) : List String := (Block.nodes f.body).flatMap Node.imported

/-- A renamed function mentions the renamed names, in the same places. -/
theorem mentioned_renameScope (source target : String) (f : Function) :
    mentioned (Strategy.renameScope source target f) =
      f.mentioned.map (renamed source target) := by
  simp only [mentioned, Strategy.renameScope, Node.names_rename, Block.nodes_rename,
    List.map_append, List.flatMap_map, List.map_flatMap, Node.mentioned_rename]

/-- A parameter is mentioned. -/
theorem mem_mentioned_of_mem_paramNames {f : Function} {n : String} (h : n ∈ f.paramNames) :
    n ∈ f.mentioned := by
  obtain ⟨p, hp, rfl⟩ := List.mem_map.mp h
  exact List.mem_append_left _ (List.mem_map.mpr ⟨p, (List.mem_filter.mp hp).1, rfl⟩)

/-- A name bound in the body is mentioned, unless only an import binds it. -/
theorem mem_mentioned_of_mem_boundNames {f : Function} {n : String}
    (himported : ∀ n ∈ f.imported, n ∈ f.mentioned) (h : n ∈ Block.boundNames false f.body) :
    n ∈ f.mentioned := by
  rcases Names.mem_append.mp h with h | h
  · simp at h
  · obtain ⟨x, hx, hn⟩ := Stmt.mem_spelled_of_mem_boundList f.body h
    rcases Node.mem_mentioned_or_imported hn with hn | hn
    · exact List.mem_append_right _ (List.mem_flatMap.mpr ⟨x, hx, hn⟩)
    · exact himported n (List.mem_flatMap.mpr ⟨x, hx, hn⟩)

end Function

/-! ## Bound names -/

namespace Stmt

mutual

/-- What a statement binds is bound also where constructs kept as written count. -/
theorem bound_sublist : (s : Stmt) → (bound false s).Sublist (bound true s)
  | .forLoop t _ body orelse => by
    simp only [bound]
    exact List.Sublist.append (List.Sublist.refl _)
      (List.Sublist.append (boundList_sublist body) (boundList_sublist orelse))
  | .cond _ body orelse => by
    simp only [bound]
    exact List.Sublist.append (boundList_sublist body) (boundList_sublist orelse)
  | .whileLoop _ body orelse => by
    simp only [bound]
    exact List.Sublist.append (boundList_sublist body) (boundList_sublist orelse)
  | .tryBlock body hs orelse final => by
    simp only [bound]
    exact List.Sublist.append (boundList_sublist body)
      (List.Sublist.append (boundHandlers_sublist hs)
        (List.Sublist.append (boundList_sublist orelse) (boundList_sublist final)))
  | .verbatim _ _ _ => by simp [bound]
  | .define _ | .assign _ _ _ | .augAssign _ _ _ | .importNames _ | .importFrom _ _ | .ret _
  | .expr _ | .raise _ _ | .assert _ _ | .globals _ | .nonlocals _ | .pass | .break
  | .continue => by
    simp only [bound]
    exact List.Sublist.refl _

theorem boundList_sublist : (b : List Stmt) → (boundList false b).Sublist (boundList true b)
  | [] => List.Sublist.refl _
  | s :: ss => by
    simp only [boundList]
    exact List.Sublist.append (bound_sublist s) (boundList_sublist ss)

theorem boundHandlers_sublist : (hs : List (HandlerOf Stmt)) →
    (boundHandlers false hs).Sublist (boundHandlers true hs)
  | [] => List.Sublist.refl _
  | ⟨_, _, body⟩ :: hs => by
    simp only [boundHandlers]
    exact List.Sublist.append (List.Sublist.refl _)
      (List.Sublist.append (boundList_sublist body) (boundHandlers_sublist hs))

end

end Stmt

theorem Block.boundNames_subset (b : Block) : b.boundNames false ⊆ b.boundNames true := by
  intro n hn
  exact Names.mem_append.mpr ((Names.mem_append.mp hn).imp_right fun h => (Stmt.boundList_sublist b).subset h)

/-! ## Renaming several names at once -/

/-- A name after renamings in a row. -/
def renamedBy (pairs : List (String × String)) (n : String) : String :=
  pairs.foldl (fun n p => renamed p.1 p.2 n) n

/-- A name that satisfies `Q` still does after renamings to such names. -/
theorem renamedBy_invariant {Q : String → Prop} {pairs : List (String × String)} {n : String}
    (hpairs : ∀ p ∈ pairs, Q p.2) (hn : Q n) : Q (renamedBy pairs n) := by
  induction pairs generalizing n with
  | nil => exact hn
  | cons p ps ih =>
    refine ih (fun q hq => hpairs q (List.mem_cons_of_mem p hq)) ?_
    show Q (renamed p.1 p.2 n)
    unfold renamed
    split
    · exact hpairs p List.mem_cons_self
    · exact hn

namespace Strategy

/-- The first round: every source gets a staged name. -/
def staging (renames : List (Rename × Nat)) : List (String × String) :=
  renames.map fun (r, n) => (r.source, stagedName n)

/-- The second round: every staged name becomes a target. -/
def unstaging (renames : List (Rename × Nat)) : List (String × String) :=
  renames.map fun (r, n) => (stagedName n, r.target)

theorem mentioned_foldl (pairs : List (String × String)) (f : Function) :
    Function.mentioned (pairs.foldl (fun f p => renameScope p.1 p.2 f) f) =
      f.mentioned.map (renamedBy pairs) := by
  induction pairs generalizing f with
  | nil => exact (List.map_id _).symm
  | cons p ps ih =>
    rw [List.foldl_cons, ih, Function.mentioned_renameScope, List.map_map]
    rfl

theorem mentioned_renameAll (renames : List Rename) (f : Function) :
    Function.mentioned (renameAll renames f) =
      f.mentioned.map fun n =>
        renamedBy (unstaging renames.zipIdx) (renamedBy (staging renames.zipIdx) n) := by
  have hfold : renameAll renames f =
      (unstaging renames.zipIdx).foldl (fun f p => renameScope p.1 p.2 f)
        ((staging renames.zipIdx).foldl (fun f p => renameScope p.1 p.2 f) f) := by
    rw [unstaging, staging, List.foldl_map, List.foldl_map]
    rfl
  rw [hfold, mentioned_foldl, mentioned_foldl, List.map_map]
  rfl

/-- The second round turns a staged name into a target. The rounds before number `k` are over, so
the staged name has at least that number. -/
theorem renamedBy_unstaging {T : String → Prop} {renames : List Rename} {k : Nat} {n : String}
    (htargets : ∀ r ∈ renames, T r.target)
    (hn : T n ∨ ∃ j, k ≤ j ∧ j < k + renames.length ∧ n = stagedName j) :
    T (renamedBy (unstaging (renames.zipIdx k)) n) := by
  induction renames generalizing k n with
  | nil =>
    rcases hn with hn | ⟨j, hk, hj, -⟩
    · exact hn
    · simp only [List.length_nil] at hj
      omega
  | cons r rs ih =>
    refine ih (fun x hx => htargets x (List.mem_cons_of_mem r hx)) ?_
    show T (renamed (stagedName k) r.target n) ∨ _
    unfold renamed
    split
    · exact .inl (htargets r List.mem_cons_self)
    · next hne =>
      refine hn.imp_right ?_
      rintro ⟨j, hk, hj, rfl⟩
      have hjk : j ≠ k := by
        rintro rfl
        exact hne rfl
      rw [List.length_cons] at hj
      exact ⟨j, by omega, by omega, by simp [hne]⟩

/-- The first name to be renamed becomes one of the targets, by whatever staged names. -/
theorem renamedBy_staged {T : String → Prop} {r : Rename} {rest : List Rename}
    (htargets : ∀ x ∈ r :: rest, T x.target) :
    T (renamedBy (unstaging (r :: rest).zipIdx)
      (renamedBy (staging (r :: rest).zipIdx) r.source)) := by
  refine renamedBy_unstaging htargets (.inr ?_)
  have hstaged : ∀ p ∈ staging (r :: rest).zipIdx,
      ∃ j, 0 ≤ j ∧ j < 0 + (r :: rest).length ∧ p.2 = stagedName j := by
    intro p hp
    obtain ⟨⟨x, j⟩, hx, rfl⟩ := List.mem_map.mp hp
    exact ⟨j, Nat.zero_le j, (List.mem_zipIdx hx).2.1, rfl⟩
  -- The first renaming is the one of `r`, the others keep the name staged.
  have hfirst : renamedBy (staging (r :: rest).zipIdx) r.source =
      renamedBy (staging (rest.zipIdx 1)) (stagedName 0) :=
    congrArg (renamedBy (staging (rest.zipIdx 1))) renamed_source
  rw [hfirst]
  refine renamedBy_invariant (Q := fun n => ∃ j, 0 ≤ j ∧ j < 0 + (r :: rest).length ∧
    n = stagedName j) ?_ ⟨0, Nat.le_refl 0, by simp, rfl⟩
  intro p hp
  exact hstaged p (List.mem_cons_of_mem _ hp)

/-- Renaming several names at once changes a function that mentions the first of them, if none of
the targets is that name. -/
theorem renameAll_ne {f : Function} {r : Rename} {rest : List Rename}
    (hmem : r.source ∈ f.mentioned) (htargets : ∀ x ∈ r :: rest, x.target ≠ r.source) :
    renameAll (r :: rest) f ≠ f := by
  intro he
  have hmap := mentioned_renameAll (r :: rest) f
  rw [he] at hmap
  have hfixed := List.map_eq_map_iff.mp (hmap.symm.trans (List.map_id _).symm) r.source hmem
  exact renamedBy_staged (T := (· ≠ r.source)) htargets hfixed

end Strategy

end Concord
