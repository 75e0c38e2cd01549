import Mathlib.Data.List.Basic
import Concord.Tree.Walk

/-!
# Parts of parts

The parts of a tree are listed with everything inside of them: the parts of a part are parts of the tree
(`Stmt.closed_nodesList`).
-/

namespace Concord

/-- A list of parts with everything that is inside of them. -/
def Closed {α : Type} (inside : α → List α) (xs : List α) : Prop := ∀ x ∈ xs, inside x ⊆ xs

namespace Closed

variable {α : Type} {inside : α → List α} {xs ys : List α} {x : α}

theorem nil : Closed inside [] := fun _ hx => nomatch hx

theorem append (hxs : Closed inside xs) (hys : Closed inside ys) : Closed inside (xs ++ ys) := by
  intro x hx
  rcases List.mem_append.mp hx with hx | hx
  · exact List.Subset.trans (hxs x hx) (List.subset_append_left xs ys)
  · exact List.Subset.trans (hys x hx) (List.subset_append_right xs ys)

theorem cons (hx : inside x = x :: xs) (hxs : Closed inside xs) : Closed inside (x :: xs) := by
  intro y hy
  rcases List.mem_cons.mp hy with rfl | hy
  · rw [hx]
    exact List.Subset.refl _
  · exact List.Subset.trans (hxs y hy) (List.subset_cons_self _ _)

end Closed

namespace Expr

mutual

theorem closed_subterms : (e : Expr) → Closed subterms e.subterms
  | .bin _ l r | .logic _ l r | .subscript l r => .cons rfl ((closed_subterms l).append (closed_subterms r))
  | .unary _ a | .attribute a _ | .starred a => .cons rfl (closed_subterms a)
  | .compare l links => .cons rfl ((closed_subterms l).append (closed_subtermsLinks links))
  | .call f args => .cons rfl ((closed_subterms f).append (closed_subtermsArgs args))
  | .slice a b c =>
    .cons rfl ((closed_subtermsOption a).append
      ((closed_subtermsOption b).append (closed_subtermsOption c)))
  | .list items | .tuple items | .set items => .cons rfl (closed_subtermsList items)
  | .dict entries => .cons rfl (closed_subtermsEntries entries)
  | .comp _ e v clauses =>
    .cons rfl ((closed_subterms e).append
      ((closed_subtermsOption v).append (closed_subtermsClauses clauses)))
  | .ifExp t a b =>
    .cons rfl ((closed_subterms t).append ((closed_subterms a).append (closed_subterms b)))
  | .lambda ps b => .cons rfl ((closed_subtermsParams ps).append (closed_subterms b))
  | .name _ | .int _ | .float _ | .str _ | .bool _ | .none | .verbatim _ => .cons rfl .nil

theorem closed_subtermsOption : (o : Option Expr) → Closed subterms (subtermsOption o)
  | Option.none => .nil
  | some e => closed_subterms e

theorem closed_subtermsList : (es : List Expr) → Closed subterms (subtermsList es)
  | [] => .nil
  | e :: es => (closed_subterms e).append (closed_subtermsList es)

theorem closed_subtermsLinks : (ls : List (CmpOp × Expr)) → Closed subterms (subtermsLinks ls)
  | [] => .nil
  | (_, e) :: ls => (closed_subterms e).append (closed_subtermsLinks ls)

theorem closed_subtermsArgs : (as : List (ArgOf Expr)) → Closed subterms (subtermsArgs as)
  | [] => .nil
  | .positional e :: as | .keyword _ e :: as | .star e :: as | .doubleStar e :: as =>
    (closed_subterms e).append (closed_subtermsArgs as)

theorem closed_subtermsEntries : (es : List (Expr × Expr)) → Closed subterms (subtermsEntries es)
  | [] => .nil
  | (k, v) :: es =>
    (closed_subterms k).append ((closed_subterms v).append (closed_subtermsEntries es))

theorem closed_subtermsClauses : (cs : List (ClauseOf Expr)) → Closed subterms (subtermsClauses cs)
  | [] => .nil
  | ⟨target, iter, ifs⟩ :: cs =>
    (closed_subterms iter).append ((closed_subterms target).append
      ((closed_subtermsList ifs).append (closed_subtermsClauses cs)))

theorem closed_subtermsParams : (ps : List (ParamOf Expr)) → Closed subterms (subtermsParams ps)
  | [] => .nil
  | ⟨_, _, default, _⟩ :: ps => (closed_subtermsOption default).append (closed_subtermsParams ps)

end

theorem mem_subterms_self (e : Expr) : e ∈ e.subterms := by
  cases e <;> exact List.mem_cons_self

end Expr

namespace Node

/-- A part of a tree with everything inside. -/
def inside : Node → List Node
  | .expr e => Stmt.exprNodes e.subterms
  | .stmt s => s.nodes

end Node

namespace Stmt

theorem closed_exprNodes {es : List Expr} (h : Closed Expr.subterms es) :
    Closed Node.inside (exprNodes es) := by
  intro x hx
  obtain ⟨e, he, rfl⟩ := List.mem_map.mp hx
  exact List.map_subset _ (h e he)

mutual

theorem closed_nodes : (s : Stmt) → Closed Node.inside s.nodes
  | .define ⟨_, params, body, decorators, _, _⟩ =>
    .cons rfl ((closed_exprNodes (Expr.closed_subtermsList decorators)).append
      ((closed_exprNodes (Expr.closed_subtermsParams params)).append (closed_nodesList body)))
  | .ret v => .cons rfl (closed_exprNodes (Expr.closed_subtermsOption v))
  | .assign ts v _ =>
    .cons rfl (closed_exprNodes ((Expr.closed_subterms v).append (Expr.closed_subtermsList ts)))
  | .augAssign t _ v =>
    .cons rfl (closed_exprNodes ((Expr.closed_subterms t).append (Expr.closed_subterms v)))
  | .expr e => .cons rfl (closed_exprNodes (Expr.closed_subterms e))
  | .cond t body orelse | .whileLoop t body orelse =>
    .cons rfl ((closed_exprNodes (Expr.closed_subterms t)).append
      ((closed_nodesList body).append (closed_nodesList orelse)))
  | .forLoop t i body orelse =>
    .cons rfl ((closed_exprNodes ((Expr.closed_subterms i).append (Expr.closed_subterms t))).append
      ((closed_nodesList body).append (closed_nodesList orelse)))
  | .tryBlock body hs orelse final =>
    .cons rfl ((closed_nodesList body).append ((closed_nodesHandlers hs).append
      ((closed_nodesList orelse).append (closed_nodesList final))))
  | .raise e c =>
    .cons rfl (closed_exprNodes ((Expr.closed_subtermsOption e).append (Expr.closed_subtermsOption c)))
  | .assert t m =>
    .cons rfl (closed_exprNodes ((Expr.closed_subterms t).append (Expr.closed_subtermsOption m)))
  | .importNames _ | .importFrom _ _ | .globals _ | .nonlocals _ | .pass | .break | .continue
  | .verbatim _ _ _ => .cons rfl (closed_exprNodes .nil)

theorem closed_nodesList : (b : List Stmt) → Closed Node.inside (nodesList b)
  | [] => closed_exprNodes .nil
  | s :: ss => (closed_nodes s).append (closed_nodesList ss)

theorem closed_nodesHandlers : (hs : List (HandlerOf Stmt)) → Closed Node.inside (nodesHandlers hs)
  | [] => closed_exprNodes .nil
  | ⟨type, _, body⟩ :: hs =>
    (closed_exprNodes (Expr.closed_subtermsOption type)).append
      ((closed_nodesList body).append (closed_nodesHandlers hs))

end

end Stmt

end Concord
