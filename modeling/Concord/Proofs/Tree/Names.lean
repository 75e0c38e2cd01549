import Concord.Proofs.Tree.Mentioned

/-!
# Trees with other names

`Expr.mapNames` and `Stmt.mapNames` replace every name of a tree by its image under a function: names
that are read or written, parameters of lambdas and of nested functions, the names of nested functions
and of handlers, and those of declarations. All else stays: attributes, keywords of calls, imports,
annotations and what is kept as written.

Main statements:

* `Stmt.mapNames_mapNames`: two functions in a row are their composition.
* `Stmt.mapNames_congr`: only the images of the names that are mentioned count.
* `Block.rename_eq_mapNames`: renaming one name is such a replacement.
-/

namespace Concord

namespace Expr

section

variable (σ : String → String)

mutual

/-- The expression with `σ n` in the place of every name `n`. -/
def mapNames : Expr → Expr
  | .name n => .name (σ n)
  | .int v => .int v
  | .float v => .float v
  | .str lit => .str lit
  | .bool b => .bool b
  | .none => .none
  | .verbatim t => .verbatim t
  | .bin op l r => .bin op (mapNames l) (mapNames r)
  | .unary op a => .unary op (mapNames a)
  | .logic op l r => .logic op (mapNames l) (mapNames r)
  | .compare l links => .compare (mapNames l) (mapNamesLinks links)
  | .call f args => .call (mapNames f) (mapNamesArgs args)
  | .attribute a attr => .attribute (mapNames a) attr
  | .subscript a i => .subscript (mapNames a) (mapNames i)
  | .slice a b c => .slice (mapNamesOption a) (mapNamesOption b) (mapNamesOption c)
  | .list items => .list (mapNamesList items)
  | .tuple items => .tuple (mapNamesList items)
  | .set items => .set (mapNamesList items)
  | .dict entries => .dict (mapNamesEntries entries)
  | .comp kind e v cs => .comp kind (mapNames e) (mapNamesOption v) (mapNamesClauses cs)
  | .ifExp t a b => .ifExp (mapNames t) (mapNames a) (mapNames b)
  | .lambda ps b => .lambda (mapNamesParams ps) (mapNames b)
  | .starred a => .starred (mapNames a)

/-- `mapNames` of an optional expression. -/
def mapNamesOption : Option Expr → Option Expr
  | Option.none => Option.none
  | some e => some (mapNames e)

/-- `mapNames` along a list. -/
def mapNamesList : List Expr → List Expr
  | [] => []
  | e :: es => mapNames e :: mapNamesList es

/-- `mapNames` on the right operands of a comparison. -/
def mapNamesLinks : List (CmpOp × Expr) → List (CmpOp × Expr)
  | [] => []
  | (op, e) :: ls => (op, mapNames e) :: mapNamesLinks ls

/-- `mapNames` on arguments, whose keywords stay. -/
def mapNamesArgs : List (ArgOf Expr) → List (ArgOf Expr)
  | [] => []
  | .positional e :: as => .positional (mapNames e) :: mapNamesArgs as
  | .keyword n e :: as => .keyword n (mapNames e) :: mapNamesArgs as
  | .star e :: as => .star (mapNames e) :: mapNamesArgs as
  | .doubleStar e :: as => .doubleStar (mapNames e) :: mapNamesArgs as

/-- `mapNames` on the entries of a dictionary display. -/
def mapNamesEntries : List (Expr × Expr) → List (Expr × Expr)
  | [] => []
  | (k, v) :: es => (mapNames k, mapNames v) :: mapNamesEntries es

/-- `mapNames` on comprehension clauses. -/
def mapNamesClauses : List (ClauseOf Expr) → List (ClauseOf Expr)
  | [] => []
  | ⟨target, iter, ifs⟩ :: cs => ⟨mapNames target, mapNames iter, mapNamesList ifs⟩ :: mapNamesClauses cs

/-- `mapNames` on parameters and their defaults. -/
def mapNamesParams : List (ParamOf Expr) → List (ParamOf Expr)
  | [] => []
  | ⟨n, kind, default, note⟩ :: ps => ⟨σ n, kind, mapNamesOption default, note⟩ :: mapNamesParams ps

end

end

mutual

/-- Replacing every name by itself changes nothing. -/
theorem mapNames_id : (e : Expr) → (e.mapNames fun n => n) = e
  | .name _ | .int _ | .float _ | .str _ | .bool _ | .none | .verbatim _ => rfl
  | .bin _ l r | .logic _ l r | .subscript l r => by
    simp only [mapNames, mapNames_id l, mapNames_id r]
  | .unary _ a | .attribute a _ | .starred a => by simp only [mapNames, mapNames_id a]
  | .compare l links => by simp only [mapNames, mapNames_id l, mapNamesLinks_id links]
  | .call f args => by simp only [mapNames, mapNames_id f, mapNamesArgs_id args]
  | .slice a b c => by
    simp only [mapNames, mapNamesOption_id a, mapNamesOption_id b, mapNamesOption_id c]
  | .list items | .tuple items | .set items => by simp only [mapNames, mapNamesList_id items]
  | .dict entries => by simp only [mapNames, mapNamesEntries_id entries]
  | .comp _ e v cs => by
    simp only [mapNames, mapNames_id e, mapNamesOption_id v, mapNamesClauses_id cs]
  | .ifExp t a b => by simp only [mapNames, mapNames_id t, mapNames_id a, mapNames_id b]
  | .lambda ps b => by simp only [mapNames, mapNamesParams_id ps, mapNames_id b]

theorem mapNamesOption_id : (o : Option Expr) → mapNamesOption (fun n => n) o = o
  | Option.none => rfl
  | some e => congrArg some (mapNames_id e)

theorem mapNamesList_id : (es : List Expr) → mapNamesList (fun n => n) es = es
  | [] => rfl
  | e :: es => by simp only [mapNamesList, mapNames_id e, mapNamesList_id es]

theorem mapNamesLinks_id : (ls : List (CmpOp × Expr)) → mapNamesLinks (fun n => n) ls = ls
  | [] => rfl
  | (_, e) :: ls => by simp only [mapNamesLinks, mapNames_id e, mapNamesLinks_id ls]

theorem mapNamesArgs_id : (as : List (ArgOf Expr)) → mapNamesArgs (fun n => n) as = as
  | [] => rfl
  | .positional e :: as | .keyword _ e :: as | .star e :: as | .doubleStar e :: as => by
    simp only [mapNamesArgs, mapNames_id e, mapNamesArgs_id as]

theorem mapNamesEntries_id : (es : List (Expr × Expr)) → mapNamesEntries (fun n => n) es = es
  | [] => rfl
  | (k, v) :: es => by simp only [mapNamesEntries, mapNames_id k, mapNames_id v, mapNamesEntries_id es]

theorem mapNamesClauses_id : (cs : List (ClauseOf Expr)) → mapNamesClauses (fun n => n) cs = cs
  | [] => rfl
  | ⟨t, i, ifs⟩ :: cs => by
    simp only [mapNamesClauses, mapNames_id t, mapNames_id i, mapNamesList_id ifs,
      mapNamesClauses_id cs]

theorem mapNamesParams_id : (ps : List (ParamOf Expr)) → mapNamesParams (fun n => n) ps = ps
  | [] => rfl
  | ⟨_, _, default, _⟩ :: ps => by
    simp only [mapNamesParams, mapNamesOption_id default, mapNamesParams_id ps]

end

variable {σ τ : String → String}

mutual

/-- Two replacements in a row. -/
theorem mapNames_mapNames : (e : Expr) → (e.mapNames σ).mapNames τ = e.mapNames fun n => τ (σ n)
  | .name _ | .int _ | .float _ | .str _ | .bool _ | .none | .verbatim _ => rfl
  | .bin _ l r | .logic _ l r | .subscript l r => by
    simp only [mapNames, mapNames_mapNames l, mapNames_mapNames r]
  | .unary _ a | .attribute a _ | .starred a => by simp only [mapNames, mapNames_mapNames a]
  | .compare l links => by
    simp only [mapNames, mapNames_mapNames l, mapNamesLinks_mapNamesLinks links]
  | .call f args => by simp only [mapNames, mapNames_mapNames f, mapNamesArgs_mapNamesArgs args]
  | .slice a b c => by
    simp only [mapNames, mapNamesOption_mapNamesOption a, mapNamesOption_mapNamesOption b,
      mapNamesOption_mapNamesOption c]
  | .list items | .tuple items | .set items => by
    simp only [mapNames, mapNamesList_mapNamesList items]
  | .dict entries => by simp only [mapNames, mapNamesEntries_mapNamesEntries entries]
  | .comp _ e v cs => by
    simp only [mapNames, mapNames_mapNames e, mapNamesOption_mapNamesOption v,
      mapNamesClauses_mapNamesClauses cs]
  | .ifExp t a b => by
    simp only [mapNames, mapNames_mapNames t, mapNames_mapNames a, mapNames_mapNames b]
  | .lambda ps b => by simp only [mapNames, mapNamesParams_mapNamesParams ps, mapNames_mapNames b]

theorem mapNamesOption_mapNamesOption : (o : Option Expr) →
    mapNamesOption τ (mapNamesOption σ o) = mapNamesOption (fun n => τ (σ n)) o
  | Option.none => rfl
  | some e => by simp only [mapNamesOption, mapNames_mapNames e]

theorem mapNamesList_mapNamesList : (es : List Expr) →
    mapNamesList τ (mapNamesList σ es) = mapNamesList (fun n => τ (σ n)) es
  | [] => rfl
  | e :: es => by simp only [mapNamesList, mapNames_mapNames e, mapNamesList_mapNamesList es]

theorem mapNamesLinks_mapNamesLinks : (ls : List (CmpOp × Expr)) →
    mapNamesLinks τ (mapNamesLinks σ ls) = mapNamesLinks (fun n => τ (σ n)) ls
  | [] => rfl
  | (_, e) :: ls => by simp only [mapNamesLinks, mapNames_mapNames e, mapNamesLinks_mapNamesLinks ls]

theorem mapNamesArgs_mapNamesArgs : (as : List (ArgOf Expr)) →
    mapNamesArgs τ (mapNamesArgs σ as) = mapNamesArgs (fun n => τ (σ n)) as
  | [] => rfl
  | .positional e :: as | .keyword _ e :: as | .star e :: as | .doubleStar e :: as => by
    simp only [mapNamesArgs, mapNames_mapNames e, mapNamesArgs_mapNamesArgs as]

theorem mapNamesEntries_mapNamesEntries : (es : List (Expr × Expr)) →
    mapNamesEntries τ (mapNamesEntries σ es) = mapNamesEntries (fun n => τ (σ n)) es
  | [] => rfl
  | (k, v) :: es => by
    simp only [mapNamesEntries, mapNames_mapNames k, mapNames_mapNames v,
      mapNamesEntries_mapNamesEntries es]

theorem mapNamesClauses_mapNamesClauses : (cs : List (ClauseOf Expr)) →
    mapNamesClauses τ (mapNamesClauses σ cs) = mapNamesClauses (fun n => τ (σ n)) cs
  | [] => rfl
  | ⟨t, i, ifs⟩ :: cs => by
    simp only [mapNamesClauses, mapNames_mapNames t, mapNames_mapNames i,
      mapNamesList_mapNamesList ifs, mapNamesClauses_mapNamesClauses cs]

theorem mapNamesParams_mapNamesParams : (ps : List (ParamOf Expr)) →
    mapNamesParams τ (mapNamesParams σ ps) = mapNamesParams (fun n => τ (σ n)) ps
  | [] => rfl
  | ⟨_, _, default, _⟩ :: ps => by
    simp only [mapNamesParams, mapNamesOption_mapNamesOption default,
      mapNamesParams_mapNamesParams ps]

end

/-- Two functions have the same image of every name that one of the expressions mentions. -/
def SameOn (σ τ : String → String) (es : List Expr) : Prop :=
  ∀ x ∈ es, ∀ n ∈ (Node.expr x).mentioned, σ n = τ n

theorem sameOn_append {es ds : List Expr} :
    SameOn σ τ (es ++ ds) ↔ SameOn σ τ es ∧ SameOn σ τ ds :=
  List.forall_mem_append

mutual

/-- Only the images of the names that are mentioned count. -/
theorem mapNames_congr : (e : Expr) → SameOn σ τ e.subterms → e.mapNames σ = e.mapNames τ
  | .name n, h => congrArg Expr.name (h (.name n) List.mem_cons_self n List.mem_cons_self)
  | .int _, _ | .float _, _ | .str _, _ | .bool _, _ | .none, _ | .verbatim _, _ => rfl
  | .bin _ l r, h | .logic _ l r, h | .subscript l r, h => by
    simp only [SameOn, subterms, List.forall_mem_cons, List.forall_mem_append] at h
    simp only [mapNames, mapNames_congr l h.2.1, mapNames_congr r h.2.2]
  | .unary _ a, h | .attribute a _, h | .starred a, h => by
    simp only [SameOn, subterms, List.forall_mem_cons] at h
    simp only [mapNames, mapNames_congr a h.2]
  | .compare l links, h => by
    simp only [SameOn, subterms, List.forall_mem_cons, List.forall_mem_append] at h
    simp only [mapNames, mapNames_congr l h.2.1, mapNamesLinks_congr links h.2.2]
  | .call f args, h => by
    simp only [SameOn, subterms, List.forall_mem_cons, List.forall_mem_append] at h
    simp only [mapNames, mapNames_congr f h.2.1, mapNamesArgs_congr args h.2.2]
  | .slice a b c, h => by
    simp only [SameOn, subterms, List.forall_mem_cons, List.forall_mem_append] at h
    simp only [mapNames, mapNamesOption_congr a h.2.1, mapNamesOption_congr b h.2.2.1,
      mapNamesOption_congr c h.2.2.2]
  | .list items, h | .tuple items, h | .set items, h => by
    simp only [SameOn, subterms, List.forall_mem_cons] at h
    simp only [mapNames, mapNamesList_congr items h.2]
  | .dict entries, h => by
    simp only [SameOn, subterms, List.forall_mem_cons] at h
    simp only [mapNames, mapNamesEntries_congr entries h.2]
  | .comp _ e v cs, h => by
    simp only [SameOn, subterms, List.forall_mem_cons, List.forall_mem_append] at h
    simp only [mapNames, mapNames_congr e h.2.1, mapNamesOption_congr v h.2.2.1,
      mapNamesClauses_congr cs h.2.2.2]
  | .ifExp t a b, h => by
    simp only [SameOn, subterms, List.forall_mem_cons, List.forall_mem_append] at h
    simp only [mapNames, mapNames_congr t h.2.1, mapNames_congr a h.2.2.1, mapNames_congr b h.2.2.2]
  | .lambda ps b, h => by
    simp only [SameOn, subterms, List.forall_mem_cons, List.forall_mem_append] at h
    simp only [mapNames, mapNamesParams_congr ps h.1 h.2.1, mapNames_congr b h.2.2]

theorem mapNamesOption_congr : (o : Option Expr) → SameOn σ τ (subtermsOption o) →
    mapNamesOption σ o = mapNamesOption τ o
  | Option.none, _ => rfl
  | some e, h => congrArg some (mapNames_congr e h)

theorem mapNamesList_congr : (es : List Expr) → SameOn σ τ (subtermsList es) →
    mapNamesList σ es = mapNamesList τ es
  | [], _ => rfl
  | e :: es, h => by
    simp only [SameOn, subtermsList, List.forall_mem_append] at h
    simp only [mapNamesList, mapNames_congr e h.1, mapNamesList_congr es h.2]

theorem mapNamesLinks_congr : (ls : List (CmpOp × Expr)) → SameOn σ τ (subtermsLinks ls) →
    mapNamesLinks σ ls = mapNamesLinks τ ls
  | [], _ => rfl
  | (_, e) :: ls, h => by
    simp only [SameOn, subtermsLinks, List.forall_mem_append] at h
    simp only [mapNamesLinks, mapNames_congr e h.1, mapNamesLinks_congr ls h.2]

theorem mapNamesArgs_congr : (as : List (ArgOf Expr)) → SameOn σ τ (subtermsArgs as) →
    mapNamesArgs σ as = mapNamesArgs τ as
  | [], _ => rfl
  | .positional e :: as, h | .keyword _ e :: as, h | .star e :: as, h | .doubleStar e :: as, h => by
    simp only [SameOn, subtermsArgs, List.forall_mem_append] at h
    simp only [mapNamesArgs, mapNames_congr e h.1, mapNamesArgs_congr as h.2]

theorem mapNamesEntries_congr : (es : List (Expr × Expr)) → SameOn σ τ (subtermsEntries es) →
    mapNamesEntries σ es = mapNamesEntries τ es
  | [], _ => rfl
  | (k, v) :: es, h => by
    simp only [SameOn, subtermsEntries, List.forall_mem_append] at h
    simp only [mapNamesEntries, mapNames_congr k h.1, mapNames_congr v h.2.1,
      mapNamesEntries_congr es h.2.2]

theorem mapNamesClauses_congr : (cs : List (ClauseOf Expr)) → SameOn σ τ (subtermsClauses cs) →
    mapNamesClauses σ cs = mapNamesClauses τ cs
  | [], _ => rfl
  | ⟨t, i, ifs⟩ :: cs, h => by
    simp only [SameOn, subtermsClauses, List.forall_mem_append] at h
    simp only [mapNamesClauses, mapNames_congr t h.2.1, mapNames_congr i h.1,
      mapNamesList_congr ifs h.2.2.1, mapNamesClauses_congr cs h.2.2.2]

theorem mapNamesParams_congr : (ps : List (ParamOf Expr)) → (∀ n ∈ ps.map (·.name), σ n = τ n) →
    SameOn σ τ (subtermsParams ps) → mapNamesParams σ ps = mapNamesParams τ ps
  | [], _, _ => rfl
  | ⟨n, _, default, _⟩ :: ps, hn, h => by
    simp only [List.map_cons, List.forall_mem_cons] at hn
    simp only [SameOn, subtermsParams, List.forall_mem_append] at h
    simp only [mapNamesParams, hn.1, mapNamesOption_congr default h.1,
      mapNamesParams_congr ps hn.2 h.2]

end

variable (source target : String)

mutual

/-- Renaming one name in an expression replaces its names. -/
theorem map_renameNode : (e : Expr) →
    e.map (renameNode source target) = e.mapNames (renamed source target)
  | .name _ | .int _ | .float _ | .str _ | .bool _ | .none | .verbatim _ => rfl
  | .bin _ l r | .logic _ l r | .subscript l r => by
    simp only [map, renameNode, mapNames, map_renameNode l, map_renameNode r]
  | .unary _ a | .attribute a _ | .starred a => by
    simp only [map, renameNode, mapNames, map_renameNode a]
  | .compare l links => by
    simp only [map, renameNode, mapNames, map_renameNode l, mapLinks_renameNode links]
  | .call f args => by
    simp only [map, renameNode, mapNames, map_renameNode f, mapArgs_renameNode args]
  | .slice a b c => by
    simp only [map, renameNode, mapNames, mapOption_renameNode a, mapOption_renameNode b,
      mapOption_renameNode c]
  | .list items | .tuple items | .set items => by
    simp only [map, renameNode, mapNames, mapList_renameNode items]
  | .dict entries => by simp only [map, renameNode, mapNames, mapEntries_renameNode entries]
  | .comp _ e v cs => by
    simp only [map, renameNode, mapNames, map_renameNode e, mapOption_renameNode v,
      mapClauses_renameNode cs]
  | .ifExp t a b => by
    simp only [map, renameNode, mapNames, map_renameNode t, map_renameNode a, map_renameNode b]
  | .lambda ps b => by
    simp only [map, renameNode, mapNames, mapParams_renameNode ps, map_renameNode b]

theorem mapOption_renameNode : (o : Option Expr) →
    mapOption (renameNode source target) o = mapNamesOption (renamed source target) o
  | Option.none => rfl
  | some e => congrArg some (map_renameNode e)

theorem mapList_renameNode : (es : List Expr) →
    mapList (renameNode source target) es = mapNamesList (renamed source target) es
  | [] => rfl
  | e :: es => by simp only [mapList, mapNamesList, map_renameNode e, mapList_renameNode es]

theorem mapLinks_renameNode : (ls : List (CmpOp × Expr)) →
    mapLinks (renameNode source target) ls = mapNamesLinks (renamed source target) ls
  | [] => rfl
  | (_, e) :: ls => by simp only [mapLinks, mapNamesLinks, map_renameNode e, mapLinks_renameNode ls]

theorem mapArgs_renameNode : (as : List (ArgOf Expr)) →
    mapArgs (renameNode source target) as = mapNamesArgs (renamed source target) as
  | [] => rfl
  | .positional e :: as | .keyword _ e :: as | .star e :: as | .doubleStar e :: as => by
    simp only [mapArgs, mapNamesArgs, map_renameNode e, mapArgs_renameNode as]

theorem mapEntries_renameNode : (es : List (Expr × Expr)) →
    mapEntries (renameNode source target) es = mapNamesEntries (renamed source target) es
  | [] => rfl
  | (k, v) :: es => by
    simp only [mapEntries, mapNamesEntries, map_renameNode k, map_renameNode v,
      mapEntries_renameNode es]

theorem mapClauses_renameNode : (cs : List (ClauseOf Expr)) →
    mapClauses (renameNode source target) cs = mapNamesClauses (renamed source target) cs
  | [] => rfl
  | ⟨t, i, ifs⟩ :: cs => by
    simp only [mapClauses, mapNamesClauses, map_renameNode t, map_renameNode i,
      mapList_renameNode ifs, mapClauses_renameNode cs]

theorem mapParams_renameNode : (ps : List (ParamOf Expr)) →
    (mapParams (renameNode source target) ps).map (·.rename source target) =
      mapNamesParams (renamed source target) ps
  | [] => rfl
  | ⟨_, _, default, _⟩ :: ps => by
    rw [mapParams, mapNamesParams, List.map_cons, mapParams_renameNode ps, mapOption_renameNode default]
    rfl

end

end Expr

namespace Stmt

section

variable (σ : String → String)

mutual

/-- The statement with `σ n` in the place of every name `n`. -/
def mapNames : Stmt → Stmt
  | .define ⟨name, params, body, decorators, returns, isAsync⟩ =>
    .define ⟨σ name, Expr.mapNamesParams σ params, mapNamesList body, Expr.mapNamesList σ decorators,
      returns, isAsync⟩
  | .ret v => .ret (Expr.mapNamesOption σ v)
  | .assign ts v note => .assign (Expr.mapNamesList σ ts) (v.mapNames σ) note
  | .augAssign t op v => .augAssign (t.mapNames σ) op (v.mapNames σ)
  | .expr e => .expr (e.mapNames σ)
  | .cond t body orelse => .cond (t.mapNames σ) (mapNamesList body) (mapNamesList orelse)
  | .forLoop t i body orelse =>
    .forLoop (t.mapNames σ) (i.mapNames σ) (mapNamesList body) (mapNamesList orelse)
  | .whileLoop t body orelse => .whileLoop (t.mapNames σ) (mapNamesList body) (mapNamesList orelse)
  | .tryBlock body hs orelse final =>
    .tryBlock (mapNamesList body) (mapNamesHandlers hs) (mapNamesList orelse) (mapNamesList final)
  | .raise e c => .raise (Expr.mapNamesOption σ e) (Expr.mapNamesOption σ c)
  | .assert t m => .assert (t.mapNames σ) (Expr.mapNamesOption σ m)
  | .importNames ns => .importNames ns
  | .importFrom m ns => .importFrom m ns
  | .globals ns => .globals (ns.map σ)
  | .nonlocals ns => .nonlocals (ns.map σ)
  | .pass => .pass
  | .break => .break
  | .continue => .continue
  | .verbatim kind text binds => .verbatim kind text binds

/-- `mapNames` along a block. -/
def mapNamesList : List Stmt → List Stmt
  | [] => []
  | s :: ss => mapNames s :: mapNamesList ss

/-- `mapNames` on exception handlers and their names. -/
def mapNamesHandlers : List (HandlerOf Stmt) → List (HandlerOf Stmt)
  | [] => []
  | ⟨type, name, body⟩ :: hs =>
    ⟨Expr.mapNamesOption σ type, name.map σ, mapNamesList body⟩ :: mapNamesHandlers hs

end

end

mutual

/-- Replacing every name by itself changes nothing. -/
theorem mapNames_id : (s : Stmt) → (s.mapNames fun n => n) = s
  | .define ⟨_, params, body, decorators, _, _⟩ => by
    simp only [mapNames, Expr.mapNamesParams_id params, mapNamesList_id body,
      Expr.mapNamesList_id decorators]
  | .ret v => by simp only [mapNames, Expr.mapNamesOption_id v]
  | .assign ts v _ => by simp only [mapNames, Expr.mapNamesList_id ts, Expr.mapNames_id v]
  | .augAssign _ _ _ | .expr _ => by simp only [mapNames, Expr.mapNames_id]
  | .cond _ body orelse | .whileLoop _ body orelse | .forLoop _ _ body orelse => by
    simp only [mapNames, Expr.mapNames_id, mapNamesList_id body, mapNamesList_id orelse]
  | .tryBlock body hs orelse final => by
    simp only [mapNames, mapNamesList_id body, mapNamesHandlers_id hs, mapNamesList_id orelse,
      mapNamesList_id final]
  | .raise _ _ => by simp only [mapNames, Expr.mapNamesOption_id]
  | .assert _ _ => by simp only [mapNames, Expr.mapNames_id, Expr.mapNamesOption_id]
  | .globals _ | .nonlocals _ => by simp only [mapNames, List.map_id']
  | .importNames _ | .importFrom _ _ | .pass | .break | .continue | .verbatim _ _ _ => rfl

theorem mapNamesList_id : (b : List Stmt) → mapNamesList (fun n => n) b = b
  | [] => rfl
  | s :: ss => by simp only [mapNamesList, mapNames_id s, mapNamesList_id ss]

theorem mapNamesHandlers_id : (hs : List (HandlerOf Stmt)) → mapNamesHandlers (fun n => n) hs = hs
  | [] => rfl
  | ⟨type, _, body⟩ :: hs => by
    simp only [mapNamesHandlers, Expr.mapNamesOption_id type, Option.map_id', mapNamesList_id body,
      mapNamesHandlers_id hs]

end

variable {σ τ : String → String}

mutual

/-- Two replacements in a row. -/
theorem mapNames_mapNames : (s : Stmt) → (s.mapNames σ).mapNames τ = s.mapNames fun n => τ (σ n)
  | .define ⟨_, params, body, decorators, _, _⟩ => by
    simp only [mapNames, Expr.mapNamesParams_mapNamesParams params, mapNamesList_mapNamesList body,
      Expr.mapNamesList_mapNamesList decorators]
  | .ret v => by simp only [mapNames, Expr.mapNamesOption_mapNamesOption v]
  | .assign ts v _ => by
    simp only [mapNames, Expr.mapNamesList_mapNamesList ts, Expr.mapNames_mapNames v]
  | .augAssign t _ v => by simp only [mapNames, Expr.mapNames_mapNames t, Expr.mapNames_mapNames v]
  | .expr e => by simp only [mapNames, Expr.mapNames_mapNames e]
  | .cond t body orelse | .whileLoop t body orelse => by
    simp only [mapNames, Expr.mapNames_mapNames t, mapNamesList_mapNamesList body,
      mapNamesList_mapNamesList orelse]
  | .forLoop t i body orelse => by
    simp only [mapNames, Expr.mapNames_mapNames t, Expr.mapNames_mapNames i,
      mapNamesList_mapNamesList body, mapNamesList_mapNamesList orelse]
  | .tryBlock body hs orelse final => by
    simp only [mapNames, mapNamesList_mapNamesList body, mapNamesHandlers_mapNamesHandlers hs,
      mapNamesList_mapNamesList orelse, mapNamesList_mapNamesList final]
  | .raise e c => by
    simp only [mapNames, Expr.mapNamesOption_mapNamesOption e, Expr.mapNamesOption_mapNamesOption c]
  | .assert t m => by
    simp only [mapNames, Expr.mapNames_mapNames t, Expr.mapNamesOption_mapNamesOption m]
  | .globals ns | .nonlocals ns => by simp only [mapNames, List.map_map, Function.comp_def]
  | .importNames _ | .importFrom _ _ | .pass | .break | .continue | .verbatim _ _ _ => rfl

theorem mapNamesList_mapNamesList : (b : List Stmt) →
    mapNamesList τ (mapNamesList σ b) = mapNamesList (fun n => τ (σ n)) b
  | [] => rfl
  | s :: ss => by simp only [mapNamesList, mapNames_mapNames s, mapNamesList_mapNamesList ss]

theorem mapNamesHandlers_mapNamesHandlers : (hs : List (HandlerOf Stmt)) →
    mapNamesHandlers τ (mapNamesHandlers σ hs) = mapNamesHandlers (fun n => τ (σ n)) hs
  | [] => rfl
  | ⟨type, _, body⟩ :: hs => by
    simp only [mapNamesHandlers, Expr.mapNamesOption_mapNamesOption type, Option.map_map,
      Function.comp_def, mapNamesList_mapNamesList body, mapNamesHandlers_mapNamesHandlers hs]

end

/-- Two functions have the same image of every name that one of the parts mentions. -/
def SameOn (σ τ : String → String) (ns : List Node) : Prop :=
  ∀ x ∈ ns, ∀ n ∈ x.mentioned, σ n = τ n

theorem sameOn_exprNodes {es : List Expr} : SameOn σ τ (exprNodes es) ↔ Expr.SameOn σ τ es := by
  simp only [SameOn, exprNodes, List.forall_mem_map, Expr.SameOn]

theorem sameOn_cons {x : Node} {ns : List Node} :
    SameOn σ τ (x :: ns) ↔ (∀ n ∈ x.mentioned, σ n = τ n) ∧ SameOn σ τ ns :=
  List.forall_mem_cons

theorem sameOn_append {ms ns : List Node} :
    SameOn σ τ (ms ++ ns) ↔ SameOn σ τ ms ∧ SameOn σ τ ns :=
  List.forall_mem_append

mutual

/-- Only the images of the names that are mentioned count. -/
theorem mapNames_congr : (s : Stmt) → SameOn σ τ s.nodes → s.mapNames σ = s.mapNames τ
  | .define ⟨name, params, body, decorators, _, _⟩, h => by
    simp only [nodes, sameOn_cons, sameOn_append, sameOn_exprNodes, Node.mentioned,
      List.forall_mem_cons] at h
    obtain ⟨⟨hname, hparams⟩, hdecorators, hdefaults, hbody⟩ := h
    simp only [mapNames, hname, Expr.mapNamesParams_congr params hparams hdefaults,
      mapNamesList_congr body hbody, Expr.mapNamesList_congr decorators hdecorators]
  | .ret v, h => by
    simp only [nodes, sameOn_cons, sameOn_exprNodes] at h
    simp only [mapNames, Expr.mapNamesOption_congr v h.2]
  | .assign ts v _, h => by
    simp only [nodes, sameOn_cons, sameOn_exprNodes, Expr.sameOn_append] at h
    simp only [mapNames, Expr.mapNamesList_congr ts h.2.2, Expr.mapNames_congr v h.2.1]
  | .augAssign t _ v, h => by
    simp only [nodes, sameOn_cons, sameOn_exprNodes, Expr.sameOn_append] at h
    simp only [mapNames, Expr.mapNames_congr t h.2.1, Expr.mapNames_congr v h.2.2]
  | .expr e, h => by
    simp only [nodes, sameOn_cons, sameOn_exprNodes] at h
    simp only [mapNames, Expr.mapNames_congr e h.2]
  | .cond t body orelse, h | .whileLoop t body orelse, h => by
    simp only [nodes, sameOn_cons, sameOn_append, sameOn_exprNodes] at h
    simp only [mapNames, Expr.mapNames_congr t h.2.1, mapNamesList_congr body h.2.2.1,
      mapNamesList_congr orelse h.2.2.2]
  | .forLoop t i body orelse, h => by
    simp only [nodes, sameOn_cons, sameOn_append, sameOn_exprNodes, Expr.sameOn_append] at h
    obtain ⟨-, ⟨hi, ht⟩, hbody, horelse⟩ := h
    simp only [mapNames, Expr.mapNames_congr t ht, Expr.mapNames_congr i hi,
      mapNamesList_congr body hbody, mapNamesList_congr orelse horelse]
  | .tryBlock body hs orelse final, h => by
    simp only [nodes, sameOn_cons, sameOn_append] at h
    obtain ⟨hnames, hbody, hhandlers, horelse, hfinal⟩ := h
    simp only [mapNames, mapNamesList_congr body hbody, mapNamesHandlers_congr hs hnames hhandlers,
      mapNamesList_congr orelse horelse, mapNamesList_congr final hfinal]
  | .raise e c, h => by
    simp only [nodes, sameOn_cons, sameOn_exprNodes, Expr.sameOn_append] at h
    simp only [mapNames, Expr.mapNamesOption_congr e h.2.1, Expr.mapNamesOption_congr c h.2.2]
  | .assert t m, h => by
    simp only [nodes, sameOn_cons, sameOn_exprNodes, Expr.sameOn_append] at h
    simp only [mapNames, Expr.mapNames_congr t h.2.1, Expr.mapNamesOption_congr m h.2.2]
  | .globals ns, h | .nonlocals ns, h => by
    have hns : ∀ n ∈ ns, σ n = τ n := (sameOn_cons.mp h).1
    simp only [mapNames, List.map_congr_left hns]
  | .importNames _, _ | .importFrom _ _, _ | .pass, _ | .break, _ | .continue, _
  | .verbatim _ _ _, _ => rfl

theorem mapNamesList_congr : (b : List Stmt) → SameOn σ τ (nodesList b) →
    mapNamesList σ b = mapNamesList τ b
  | [], _ => rfl
  | s :: ss, h => by
    rw [nodesList, sameOn_append] at h
    simp only [mapNamesList, mapNames_congr s h.1, mapNamesList_congr ss h.2]

theorem mapNamesHandlers_congr : (hs : List (HandlerOf Stmt)) →
    (∀ n ∈ hs.filterMap (·.name), σ n = τ n) → SameOn σ τ (nodesHandlers hs) →
    mapNamesHandlers σ hs = mapNamesHandlers τ hs
  | [], _, _ => rfl
  | ⟨type, name, body⟩ :: hs, hnames, h => by
    simp only [nodesHandlers, sameOn_append, sameOn_exprNodes] at h
    have hname : name.map σ = name.map τ :=
      Option.map_congr fun n hn => hnames n (List.mem_filterMap.mpr ⟨_, List.mem_cons_self, hn⟩)
    have hrest : ∀ n ∈ hs.filterMap (·.name), σ n = τ n := by
      intro n hn
      obtain ⟨x, hx, hxn⟩ := List.mem_filterMap.mp hn
      exact hnames n (List.mem_filterMap.mpr ⟨x, List.mem_cons_of_mem _ hx, hxn⟩)
    simp only [mapNamesHandlers, hname, Expr.mapNamesOption_congr type h.1,
      mapNamesList_congr body h.2.1, mapNamesHandlers_congr hs hrest h.2.2]

end

variable (source target : String)

mutual

/-- Renaming one name in a statement replaces its names. -/
theorem map_renameNode : (s : Stmt) →
    s.map (renameNode source target) (Expr.renameNode source target) =
      s.mapNames (renamed source target)
  | .define ⟨_, params, body, decorators, _, _⟩ => by
    simp only [map, renameNode, mapNames, Expr.mapParams_renameNode, mapList_renameNode body,
      Expr.mapList_renameNode]
  | .ret v => by simp only [map, renameNode, mapNames, Expr.mapOption_renameNode]
  | .assign ts v _ => by
    simp only [map, renameNode, mapNames, Expr.mapList_renameNode, Expr.map_renameNode]
  | .augAssign _ _ _ | .expr _ => by simp only [map, renameNode, mapNames, Expr.map_renameNode]
  | .cond _ body orelse | .whileLoop _ body orelse | .forLoop _ _ body orelse => by
    simp only [map, renameNode, mapNames, Expr.map_renameNode, mapList_renameNode body,
      mapList_renameNode orelse]
  | .tryBlock body hs orelse final => by
    simp only [map, renameNode, mapNames, mapList_renameNode body, mapHandlers_renameNode hs,
      mapList_renameNode orelse, mapList_renameNode final]
  | .raise _ _ => by simp only [map, renameNode, mapNames, Expr.mapOption_renameNode]
  | .assert _ _ => by
    simp only [map, renameNode, mapNames, Expr.map_renameNode, Expr.mapOption_renameNode]
  | .importNames _ | .importFrom _ _ | .globals _ | .nonlocals _ | .pass | .break | .continue
  | .verbatim _ _ _ => rfl

theorem mapList_renameNode : (b : List Stmt) →
    mapList (renameNode source target) (Expr.renameNode source target) b =
      mapNamesList (renamed source target) b
  | [] => rfl
  | s :: ss => by simp only [mapList, mapNamesList, map_renameNode s, mapList_renameNode ss]

theorem mapHandlers_renameNode : (hs : List (HandlerOf Stmt)) →
    (mapHandlers (renameNode source target) (Expr.renameNode source target) hs).map
        (·.rename source target) =
      mapNamesHandlers (renamed source target) hs
  | [] => rfl
  | ⟨type, name, body⟩ :: hs => by
    rw [mapHandlers, mapNamesHandlers, List.map_cons, mapHandlers_renameNode hs,
      ← mapList_renameNode body, ← Expr.mapOption_renameNode]
    rfl

end

end Stmt

/-- Renaming one name in a block replaces its names. -/
theorem Block.rename_eq_mapNames (source target : String) (b : Block) :
    b.rename source target = Stmt.mapNamesList (renamed source target) b :=
  Stmt.mapList_renameNode source target b

end Concord
