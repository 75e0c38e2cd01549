import Mathlib.Data.List.Basic
import Concord.Tree.Scope

/-!
# Reads of names that nothing introduces

The walk that looks for reads before a definition has a rule of its own for every statement: it merges
branches, opens scopes and lets loops see their own bindings. All of that only decides which names are
defined. A name that nothing in a module introduces is never among them, so each of its occurrences is a
read that no definition reaches.

Main statements:

* `Expr.mem_reads`, `Stmt.mem_reach`: such a name is found exactly if it occurs, and it is not among the
  names that are defined afterwards.
* `Module.mem_unboundNames_iff`: it is reported for a module exactly if it occurs in it.
-/

namespace Concord

/-! ## Names that are introduced -/

/-- The names that an expression introduces into a scope of its own: those of the targets of a
comprehension and those of the parameters of a lambda. -/
def Expr.introduced : Expr → List String
  | .comp _ _ _ clauses => Expr.targetNamesList (clauses.map (·.target))
  | .lambda ps _ => ps.map (·.name)
  | _ => []

/-- The names that a part of a tree introduces into some scope: those of functions, parameters and
imports, those of targets of assignments, loops and comprehensions, those of handlers and of
declarations, and those that a construct kept as written binds. -/
def Node.introduced : Node → List String
  | .stmt (.define f) => f.name :: f.paramNames
  | .stmt (.assign ts _ _) => Expr.targetNamesList ts
  | .stmt (.augAssign t _ _) | .stmt (.forLoop t _ _ _) => t.targetNames
  | .stmt (.tryBlock _ hs _ _) => hs.flatMap (·.name.toList)
  | .stmt (.importNames ns) | .stmt (.importFrom _ ns) => ns.map Alias.boundName
  | .stmt (.globals ns) | .stmt (.nonlocals ns) => ns
  | .stmt (.verbatim _ _ binds) => binds
  | .stmt _ => []
  | .expr e => e.introduced

/-- No part of a list introduces the name. -/
def Foreign {α : Type} (introduced : α → List String) (x : String) (parts : List α) : Prop :=
  ∀ a ∈ parts, x ∉ introduced a

namespace Foreign

variable {α : Type} {introduced : α → List String} {x : String} {a : α} {as bs : List α}

theorem head (h : Foreign introduced x (a :: as)) : x ∉ introduced a := h a List.mem_cons_self

theorem tail (h : Foreign introduced x (a :: as)) : Foreign introduced x as :=
  fun b hb => h b (List.mem_cons_of_mem a hb)

theorem left (h : Foreign introduced x (as ++ bs)) : Foreign introduced x as :=
  fun b hb => h b (List.mem_append_left bs hb)

theorem right (h : Foreign introduced x (as ++ bs)) : Foreign introduced x bs :=
  fun b hb => h b (List.mem_append_right as hb)

theorem exprs {es : List Expr} (h : Foreign Node.introduced x (Stmt.exprNodes es)) :
    Foreign Expr.introduced x es :=
  fun e he => h (.expr e) (List.mem_map_of_mem he)

end Foreign

theorem not_mem_of_append {x : String} {ns ms : List String} (h : x ∉ ns ++ ms) : x ∉ ns ∧ x ∉ ms :=
  not_or.mp (mt List.mem_append.mpr h)

/-! ## Names that are found -/

/-- Among the names that are found is a certain one exactly if a certain part is in a list. -/
def Finds {α : Type} (x : String) (found : List String) (part : α) (parts : List α) : Prop :=
  x ∈ found ↔ part ∈ parts

namespace Finds

variable {α : Type} {x : String} {found found' : List String} {part a : α} {as bs : List α}

theorem nil : Finds x [] part [] := by simp [Finds]

theorem cons (hne : part ≠ a) (h : Finds x found part as) : Finds x found part (a :: as) :=
  h.trans (List.mem_cons.trans (or_iff_right hne)).symm

theorem append (h : Finds x found part as) (h' : Finds x found' part bs) :
    Finds x (found ++ found') part (as ++ bs) :=
  (List.mem_append.trans (or_congr h h')).trans List.mem_append.symm

theorem assoc {cs : List α} (h : Finds x found part ((as ++ bs) ++ cs)) :
    Finds x found part (as ++ (bs ++ cs)) := by
  rwa [← List.append_assoc]

theorem regroup {found'' : List String} (h : Finds x ((found ++ found') ++ found'') part as) :
    Finds x (found ++ (found' ++ found'')) part as := by
  rwa [← List.append_assoc]

theorem comm (h : Finds x found part (as ++ bs)) : Finds x found part (bs ++ as) := by
  rw [Finds, List.mem_append, or_comm, ← List.mem_append]
  exact h

/-- What is found twice counts once. -/
theorem again (h : Finds x found part as) (hsub : x ∈ found' → x ∈ found) :
    Finds x (found ++ found') part as :=
  (List.mem_append.trans (or_iff_left_of_imp hsub)).trans h

theorem nodes {e : Expr} {es : List Expr} (h : Finds x found e es) :
    Finds x found (Node.expr e) (Stmt.exprNodes es) :=
  h.trans (List.mem_map_of_injective fun _ _ => Node.expr.inj).symm

end Finds

/-- A walk finds a name that occurs, and does not come to define it. -/
structure Passes {α : Type} (x : String) (walk : List String × List String) (part : α)
    (parts : List α) : Prop where
  finds : Finds x walk.1 part parts
  undefined : x ∉ walk.2

variable {x : String} {defined : List String}

/-! ## Expressions -/

namespace Expr

mutual

/-- A name that is neither defined nor introduced by the expression is read exactly if it occurs. -/
theorem mem_reads : (e : Expr) → Foreign introduced x e.subterms → {defined : List String} →
    x ∉ defined → Finds x (reads e defined) (.name x) e.subterms
  | .name n, _, defined, hd => by
    by_cases hn : n = x
    · subst hn
      simp [Finds, reads, subterms, hd]
    · simp [Finds, reads, subterms, Ne.symm hn]
  | .bin _ l r, h, _, hd | .logic _ l r, h, _, hd | .subscript l r, h, _, hd =>
    .cons nofun ((mem_reads l h.tail.left hd).append (mem_reads r h.tail.right hd))
  | .unary _ a, h, _, hd | .attribute a _, h, _, hd | .starred a, h, _, hd =>
    .cons nofun (mem_reads a h.tail hd)
  | .compare l links, h, _, hd =>
    .cons nofun ((mem_reads l h.tail.left hd).append (mem_readsLinks links h.tail.right hd))
  | .call f args, h, _, hd =>
    .cons nofun ((mem_reads f h.tail.left hd).append (mem_readsArgs args h.tail.right hd))
  | .slice a b c, h, _, hd =>
    .cons nofun ((mem_readsOption a h.tail.left hd).append
      ((mem_readsOption b h.tail.right.left hd).append (mem_readsOption c h.tail.right.right hd)))
  | .list items, h, _, hd | .tuple items, h, _, hd | .set items, h, _, hd =>
    .cons nofun (mem_readsList items h.tail hd)
  | .dict entries, h, _, hd => .cons nofun (mem_readsEntries entries h.tail hd)
  | .comp _ e v clauses, h, defined, hd =>
    have houter : ∀ o ∈ some defined, x ∉ o := fun _ ho => Option.some.inj ho ▸ hd
    have hclauses := mem_readsClauses clauses h.tail.right.right h.head houter hd
    .cons nofun <| .assoc <| .comm <| hclauses.finds.append
      ((mem_reads e h.tail.left hclauses.undefined).append
        (mem_readsOption v h.tail.right.left hclauses.undefined))
  | .ifExp t a b, h, _, hd =>
    .cons nofun ((mem_reads t h.tail.left hd).append
      ((mem_reads a h.tail.right.left hd).append (mem_reads b h.tail.right.right hd)))
  | .lambda ps b, h, _, hd =>
    .cons nofun ((mem_readsParams ps h.tail.left hd).append
      (mem_reads b h.tail.right (Names.not_mem_union h.head hd)))
  | .int _, _, _, _ | .float _, _, _, _ | .str _, _, _, _ | .bool _, _, _, _ | .none, _, _, _
  | .verbatim _, _, _, _ => .cons nofun .nil

theorem mem_readsOption : (o : Option Expr) → Foreign introduced x (subtermsOption o) →
    {defined : List String} → x ∉ defined →
    Finds x (readsOption o defined) (.name x) (subtermsOption o)
  | Option.none, _, _, _ => .nil
  | some e, h, _, hd => mem_reads e h hd

theorem mem_readsList : (es : List Expr) → Foreign introduced x (subtermsList es) →
    {defined : List String} → x ∉ defined → Finds x (readsList es defined) (.name x) (subtermsList es)
  | [], _, _, _ => .nil
  | e :: es, h, _, hd => (mem_reads e h.left hd).append (mem_readsList es h.right hd)

theorem mem_readsLinks : (ls : List (CmpOp × Expr)) → Foreign introduced x (subtermsLinks ls) →
    {defined : List String} → x ∉ defined →
    Finds x (readsLinks ls defined) (.name x) (subtermsLinks ls)
  | [], _, _, _ => .nil
  | (_, e) :: ls, h, _, hd => (mem_reads e h.left hd).append (mem_readsLinks ls h.right hd)

theorem mem_readsArgs : (as : List (ArgOf Expr)) → Foreign introduced x (subtermsArgs as) →
    {defined : List String} → x ∉ defined → Finds x (readsArgs as defined) (.name x) (subtermsArgs as)
  | [], _, _, _ => .nil
  | .positional e :: as, h, _, hd | .keyword _ e :: as, h, _, hd | .star e :: as, h, _, hd
  | .doubleStar e :: as, h, _, hd =>
    (mem_reads e h.left hd).append (mem_readsArgs as h.right hd)

theorem mem_readsEntries : (es : List (Expr × Expr)) → Foreign introduced x (subtermsEntries es) →
    {defined : List String} → x ∉ defined →
    Finds x (readsEntries es defined) (.name x) (subtermsEntries es)
  | [], _, _, _ => .nil
  | (k, v) :: es, h, _, hd =>
    (mem_reads k h.left hd).append
      ((mem_reads v h.right.left hd).append (mem_readsEntries es h.right.right hd))

theorem mem_readsClauses : (cs : List (ClauseOf Expr)) → Foreign introduced x (subtermsClauses cs) →
    x ∉ targetNamesList (cs.map (·.target)) → {outer : Option (List String)} → (∀ o ∈ outer, x ∉ o) →
    {defined : List String} → x ∉ defined →
    Passes x (readsClauses cs outer defined) (.name x) (subtermsClauses cs)
  | [], _, _, _, _, _, hd => ⟨.nil, hd⟩
  | ⟨target, iter, ifs⟩ :: cs, h, hx, outer, ho, defined, hd =>
    have hnames := not_mem_of_append hx
    have hiter : x ∉ outer.getD defined := by
      cases outer with
      | none => exact hd
      | some o => exact ho o rfl
    have htarget := mem_readsTarget target h.right.left hnames.1 (mem_reads target h.right.left) hd
    have hnone : ∀ o ∈ (Option.none : Option (List String)), x ∉ o := nofun
    have hfurther := mem_readsClauses cs h.right.right.right hnames.2 hnone htarget.undefined
    ⟨(mem_reads iter h.left hiter).append (htarget.finds.append
      ((mem_readsList ifs h.right.right.left htarget.undefined).append hfurther.finds)),
      hfurther.undefined⟩

theorem mem_readsParams : (ps : List (ParamOf Expr)) → Foreign introduced x (subtermsParams ps) →
    {defined : List String} → x ∉ defined →
    Finds x (readsParams ps defined) (.name x) (subtermsParams ps)
  | [], _, _, _ => .nil
  | ⟨_, _, default, _⟩ :: ps, h, _, hd =>
    (mem_readsOption default h.left hd).append (mem_readsParams ps h.right hd)

/-- A target that does not bind the name reads it like any other expression. What `own` is for a target
that is no name, tuple or list, the caller knows. -/
theorem mem_readsTarget : (e : Expr) → Foreign introduced x e.subterms → x ∉ e.targetNames →
    {own : List String → List String} →
    ({defined : List String} → x ∉ defined → Finds x (own defined) (.name x) e.subterms) →
    {defined : List String} → x ∉ defined →
    Passes x (readsTarget e own defined) (.name x) e.subterms
  | .name n, _, hx, _, _, _, hd =>
    have hn : x ≠ n := List.ne_of_not_mem_cons hx
    ⟨.cons (fun he => hn (Expr.name.inj he)) .nil, Names.not_mem_insert hn hd⟩
  | .tuple items, h, hx, _, _, _, hd | .list items, h, hx, _, _, _, hd =>
    have hitems := mem_readsTargets items h.tail hx hd
    ⟨.cons nofun hitems.finds, hitems.undefined⟩
  | .starred a, h, hx, _, _, _, hd =>
    have hvalue := mem_readsTarget a h.tail hx (mem_reads a h.tail) hd
    ⟨.cons nofun hvalue.finds, hvalue.undefined⟩
  | .int _, _, _, _, hown, _, hd | .float _, _, _, _, hown, _, hd | .str _, _, _, _, hown, _, hd
  | .bool _, _, _, _, hown, _, hd | .none, _, _, _, hown, _, hd | .bin _ _ _, _, _, _, hown, _, hd
  | .unary _ _, _, _, _, hown, _, hd | .logic _ _ _, _, _, _, hown, _, hd
  | .compare _ _, _, _, _, hown, _, hd | .call _ _, _, _, _, hown, _, hd
  | .attribute _ _, _, _, _, hown, _, hd | .subscript _ _, _, _, _, hown, _, hd
  | .slice _ _ _, _, _, _, hown, _, hd | .set _, _, _, _, hown, _, hd | .dict _, _, _, _, hown, _, hd
  | .comp _ _ _ _, _, _, _, hown, _, hd | .ifExp _ _ _, _, _, _, hown, _, hd
  | .lambda _ _, _, _, _, hown, _, hd | .verbatim _, _, _, _, hown, _, hd => ⟨hown hd, hd⟩

theorem mem_readsTargets : (es : List Expr) → Foreign introduced x (subtermsList es) →
    x ∉ targetNamesList es → {defined : List String} → x ∉ defined →
    Passes x (readsTargets es defined) (.name x) (subtermsList es)
  | [], _, _, _, hd => ⟨.nil, hd⟩
  | e :: es, h, hx, _, hd =>
    have hnames := not_mem_of_append hx
    have hfirst := mem_readsTarget e h.left hnames.1 (mem_reads e h.left) hd
    have hrest := mem_readsTargets es h.right hnames.2 hfirst.undefined
    ⟨hfirst.finds.append hrest.finds, hrest.undefined⟩

end

end Expr

/-! ## Statements -/

namespace Stmt

mutual

/-- A name that a statement does not introduce is neither bound nor declared by it. -/
theorem not_mem_bound : (s : Stmt) → Foreign Node.introduced x s.nodes →
    x ∉ bound true s ∧ x ∉ declared s
  | .define ⟨_, _, _, _, _, _⟩, h =>
    ⟨fun hx => h.head (List.mem_cons.mpr (.inl (List.mem_singleton.mp hx))), List.not_mem_nil⟩
  | .assign _ _ _, h | .augAssign _ _ _, h | .importNames _, h | .importFrom _ _, h
  | .verbatim _ _ _, h => ⟨h.head, List.not_mem_nil⟩
  | .globals _, h | .nonlocals _, h => ⟨List.not_mem_nil, h.head⟩
  | .cond _ body orelse, h | .whileLoop _ body orelse, h =>
    have hbody := not_mem_boundList body h.tail.right.left
    have horelse := not_mem_boundList orelse h.tail.right.right
    ⟨List.not_mem_append hbody.1 horelse.1, List.not_mem_append hbody.2 horelse.2⟩
  | .forLoop _ _ body orelse, h =>
    have hbody := not_mem_boundList body h.tail.right.left
    have horelse := not_mem_boundList orelse h.tail.right.right
    ⟨List.not_mem_append h.head (List.not_mem_append hbody.1 horelse.1),
      List.not_mem_append hbody.2 horelse.2⟩
  | .tryBlock body hs orelse final, h =>
    have hbody := not_mem_boundList body h.tail.left
    have hhandlers := not_mem_boundHandlers hs h.tail.right.left h.head
    have horelse := not_mem_boundList orelse h.tail.right.right.left
    have hfinal := not_mem_boundList final h.tail.right.right.right
    ⟨List.not_mem_append hbody.1
        (List.not_mem_append hhandlers.1 (List.not_mem_append horelse.1 hfinal.1)),
      List.not_mem_append hbody.2
        (List.not_mem_append hhandlers.2 (List.not_mem_append horelse.2 hfinal.2))⟩
  | .ret _, _ | .expr _, _ | .raise _ _, _ | .assert _ _, _ | .pass, _ | .break, _ | .continue, _ =>
    ⟨List.not_mem_nil, List.not_mem_nil⟩

theorem not_mem_boundList : (b : List Stmt) → Foreign Node.introduced x (nodesList b) →
    x ∉ boundList true b ∧ x ∉ declaredList b
  | [], _ => ⟨List.not_mem_nil, List.not_mem_nil⟩
  | s :: ss, h =>
    have hs := not_mem_bound s h.left
    have hss := not_mem_boundList ss h.right
    ⟨List.not_mem_append hs.1 hss.1, List.not_mem_append hs.2 hss.2⟩

theorem not_mem_boundHandlers : (hs : List (HandlerOf Stmt)) →
    Foreign Node.introduced x (nodesHandlers hs) → x ∉ hs.flatMap (·.name.toList) →
    x ∉ boundHandlers true hs ∧ x ∉ declaredHandlers hs
  | [], _, _ => ⟨List.not_mem_nil, List.not_mem_nil⟩
  | ⟨_, _, body⟩ :: hs, h, hx =>
    have hnames := not_mem_of_append hx
    have hbody := not_mem_boundList body h.right.left
    have hrest := not_mem_boundHandlers hs h.right.right hnames.2
    ⟨List.not_mem_append hnames.1 (List.not_mem_append hbody.1 hrest.1),
      List.not_mem_append hbody.2 hrest.2⟩

end

mutual

/-- A name that is neither defined nor introduced by the statement is found exactly if it occurs, and it
is not defined afterwards. -/
theorem mem_reach {locals : List String} (hlocals : x ∉ locals) : (s : Stmt) →
    Foreign Node.introduced x s.nodes → {defined : List String} → x ∉ defined →
    Passes x (reach locals s defined) (.expr (.name x)) s.nodes
  | .define ⟨_, params, body, decorators, _, _⟩, h, _, hd =>
    have hnames := List.ne_and_not_mem_of_not_mem_cons h.head
    have hbound := not_mem_boundList body h.tail.right.right
    have hdefined := Names.not_mem_insert hnames.1 hd
    have hstart := Names.not_mem_union (List.not_mem_append hnames.2 hbound.2)
      (Names.not_mem_union hdefined hlocals)
    have hbody := mem_reachList (Names.not_mem_union hbound.1 hstart) body h.tail.right.right hstart
    ⟨.cons nofun (.assoc (((Expr.mem_readsList decorators h.tail.left.exprs hd).nodes.append
        (Expr.mem_readsParams params h.tail.right.left.exprs hd).nodes).append hbody.finds)),
      hdefined⟩
  | .ret v, h, _, hd => ⟨.cons nofun (Expr.mem_readsOption v h.tail.exprs hd).nodes, hd⟩
  | .assign ts v _, h, _, hd =>
    have htargets := Expr.mem_readsTargets ts h.tail.exprs.right h.head hd
    ⟨.cons nofun ((Expr.mem_reads v h.tail.exprs.left hd).append htargets.finds).nodes,
      htargets.undefined⟩
  | .augAssign t _ v, h, _, hd =>
    have hread := Expr.mem_reads t h.tail.exprs.left hd
    have htarget := Expr.mem_readsTarget t h.tail.exprs.left h.head
      (Expr.mem_reads t h.tail.exprs.left) hd
    have hboth := hread.append (Expr.mem_reads v h.tail.exprs.right hd)
    -- The target is read once as an operand and once as a target.
    have hagain := hboth.again fun hx =>
      List.mem_append_left _ (hread.mpr (htarget.finds.mp hx))
    ⟨.cons nofun hagain.regroup.nodes, htarget.undefined⟩
  | .expr e, h, _, hd => ⟨.cons nofun (Expr.mem_reads e h.tail.exprs hd).nodes, hd⟩
  | .cond t body orelse, h, _, hd =>
    have hyes := mem_reachList hlocals body h.tail.right.left hd
    have hno := mem_reachList hlocals orelse h.tail.right.right hd
    ⟨.cons nofun ((Expr.mem_reads t h.tail.left.exprs hd).nodes.append (hyes.finds.append hno.finds)),
      Names.not_mem_union hyes.undefined (Names.not_mem_union hno.undefined hd)⟩
  | .forLoop t i body orelse, h, _, hd =>
    have htarget := Expr.mem_readsTarget t h.tail.left.exprs.right h.head
      (Expr.mem_reads t h.tail.left.exprs.right) hd
    have hbound := not_mem_boundList body h.tail.right.left
    have hinner := mem_reachList hlocals body h.tail.right.left
      (Names.not_mem_union hbound.1 htarget.undefined)
    have hafter := mem_reachList hlocals orelse h.tail.right.right hinner.undefined
    have hhead := (Expr.mem_reads i h.tail.left.exprs.left hd).append htarget.finds
    ⟨.cons nofun (hhead.nodes.append (hinner.finds.append hafter.finds)).regroup,
      Names.not_mem_union hafter.undefined hd⟩
  | .whileLoop t body orelse, h, _, hd =>
    have hstart := Names.not_mem_union (not_mem_boundList body h.tail.right.left).1 hd
    have hinner := mem_reachList hlocals body h.tail.right.left hstart
    have hafter := mem_reachList hlocals orelse h.tail.right.right hinner.undefined
    ⟨.cons nofun ((Expr.mem_reads t h.tail.left.exprs hstart).nodes.append
        (hinner.finds.append hafter.finds)),
      Names.not_mem_union hafter.undefined hd⟩
  | .tryBlock body hs orelse final, h, _, hd =>
    have htried := mem_reachList hlocals body h.tail.left hd
    have hhandled := mem_reachHandlers hlocals
      (Names.not_mem_union (not_mem_boundList body h.tail.left).1 hd) hs h.tail.right.left h.head
    have hother := mem_reachList hlocals orelse h.tail.right.right.left htried.undefined
    have hlast := mem_reachList hlocals final h.tail.right.right.right
      (Names.not_mem_union hother.undefined
        (Names.not_mem_union hhandled.undefined htried.undefined))
    ⟨.cons nofun (htried.finds.append
        (hhandled.finds.append (hother.finds.append hlast.finds))),
      Names.not_mem_union hlast.undefined hd⟩
  | .raise e c, h, _, hd =>
    ⟨.cons nofun ((Expr.mem_readsOption e h.tail.exprs.left hd).append
      (Expr.mem_readsOption c h.tail.exprs.right hd)).nodes, hd⟩
  | .assert t m, h, _, hd =>
    ⟨.cons nofun ((Expr.mem_reads t h.tail.exprs.left hd).append
      (Expr.mem_readsOption m h.tail.exprs.right hd)).nodes, hd⟩
  | .importNames _, h, _, hd | .importFrom _ _, h, _, hd | .globals _, h, _, hd | .nonlocals _, h, _, hd
  | .verbatim _ _ _, h, _, hd => ⟨.cons nofun .nil, Names.not_mem_union h.head hd⟩
  | .pass, _, _, hd | .break, _, _, hd | .continue, _, _, hd => ⟨.cons nofun .nil, hd⟩

theorem mem_reachList {locals : List String} (hlocals : x ∉ locals) : (b : List Stmt) →
    Foreign Node.introduced x (nodesList b) → {defined : List String} → x ∉ defined →
    Passes x (reachList locals b defined) (.expr (.name x)) (nodesList b)
  | [], _, _, hd => ⟨.nil, hd⟩
  | s :: ss, h, _, hd =>
    have hfirst := mem_reach hlocals s h.left hd
    have hrest := mem_reachList hlocals ss h.right hfirst.undefined
    ⟨hfirst.finds.append hrest.finds, hrest.undefined⟩

theorem mem_reachHandlers {locals : List String} (hlocals : x ∉ locals) {defined : List String}
    (hd : x ∉ defined) : (hs : List (HandlerOf Stmt)) → Foreign Node.introduced x (nodesHandlers hs) →
    x ∉ hs.flatMap (·.name.toList) →
    Passes x (reachHandlers locals defined hs) (.expr (.name x)) (nodesHandlers hs)
  | [], _, _ => ⟨.nil, List.not_mem_nil⟩
  | ⟨type, _, body⟩ :: hs, h, hx =>
    have hnames := not_mem_of_append hx
    have hone := mem_reachList hlocals body h.right.left (Names.not_mem_union hnames.1 hd)
    have hrest := mem_reachHandlers hlocals hd hs h.right.right hnames.2
    ⟨(Expr.mem_readsOption type h.left.exprs hd).nodes.append (hone.finds.append hrest.finds),
      Names.not_mem_union hone.undefined hrest.undefined⟩

end

end Stmt

/-! ## Modules -/

theorem Block.mem_names_iff {b : Block} : x ∈ Block.names b ↔ .expr (.name x) ∈ Block.nodes b := by
  rw [Block.names, Names.mem_ofList, Block.nameOccurrences, Block.exprs, List.filterMap_filterMap,
    List.mem_filterMap]
  constructor
  · rintro ⟨n, hn, hname⟩
    obtain ⟨e, he, hname⟩ := Option.bind_eq_some_iff.mp hname
    cases n with
    | stmt s => cases he
    | expr e' =>
      cases he
      cases e with
      | name m => exact Option.some.inj hname ▸ hn
      | _ => cases hname
  · exact fun h => ⟨_, h, rfl⟩

/-- A name that is bound before any statement runs or that something in the module introduces may be
read without being reported. Every other name is reported exactly if it occurs in the module. -/
theorem Module.mem_unboundNames_iff {m : Module} (hbuiltin : isBuiltin x = false)
    (hforeign : ∀ n ∈ Block.nodes m.body, x ∉ n.introduced) :
    x ∈ m.unboundNames ↔ x ∈ Block.names m.body := by
  have hglobals : x ∉ m.globals := by
    rw [Module.globals, Names.mem_ofList, Block.boundNames, Names.mem_append]
    exact not_or.mpr ⟨List.not_mem_nil, (Stmt.not_mem_boundList m.body hforeign).1⟩
  have hreach := (Stmt.mem_reachList hglobals m.body hforeign hglobals).finds
  rw [Module.unboundNames, Names.mem_ofList, List.mem_filter, hbuiltin, Block.mem_names_iff]
  exact (and_iff_left rfl).trans hreach

/-- A function that reads a name in the type of a handler, after a loop whose `else` binds others. -/
theorem Module.mem_unboundNames_handlerType :
    let m : Module := ⟨[.define { name := "f", params := [⟨"a", .regular, none, none⟩], body :=
      [.forLoop (.name "b") (.name "a") [.pass] [.assign [.name "c"] (.name "b") none],
       .tryBlock [.ret (some (.call (.name "a") [.positional (.name "c")]))]
         [⟨some (.name "Missing"), some "e", [.raise (some (.name "e")) none]⟩] [] []] }]⟩
    isBuiltin "Missing" = false ∧ (∀ n ∈ Block.nodes m.body, "Missing" ∉ n.introduced) ∧
      "Missing" ∈ Block.names m.body ∧ ("Missing" ∈ m.unboundNames ↔ "Missing" ∈ Block.names m.body) :=
  ⟨by decide, by decide, by decide, mem_unboundNames_iff (by decide) (by decide)⟩

end Concord
