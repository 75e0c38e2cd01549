import Mathlib.Data.List.Basic
import Mathlib.Data.List.Count
import Concord.Proofs.Profile.Distance

/-!
# Facets that count the same thing

Several facets count the same constructs, each by its own walk: over the nodes of the functions, over the
positions of their blocks, or down the tree with a level. All of these walks enter every block once, so they
meet the same statements (`Block.map_sites`, `Block.length_exitsList`), and the counts agree.

The number of paths is capped in every block and after every function; capping it once at the end gives the
same number, since numbers that differ only beyond the cap stay alike in sums and products
(`Paths.SameCapped`).

Main statements: `Module.profile_counts_agree`, `Module.paths_capped_once`.
-/

namespace Concord

variable {p : Stmt → Bool}

/-! ## Positions -/

namespace Stmt

/-- The statement at a position. -/
def atSite (site : Block × Nat) : Option Stmt := site.1[site.2]?

@[simp] theorem filterMap_stmt?_exprNodes (es : List Expr) :
    (exprNodes es).filterMap Node.stmt? = [] := by
  rw [exprNodes, List.filterMap_map, List.filterMap_eq_nil_iff]
  intro e _
  rfl

/-- A statement comes before everything inside it. -/
theorem filterMap_stmt?_nodes (s : Stmt) :
    s.nodes.filterMap Node.stmt? = s :: (s.nodes.filterMap Node.stmt?).tail := by
  cases s <;> rfl

mutual

theorem map_sites : (s : Stmt) →
    (s.sites (Block.holdsAt p)).map atSite = ((s.nodes.filterMap Node.stmt?).tail.filter p).map some
  | .define ⟨_, _, body, _, _, _⟩ => by
    simp [sites, nodes, Node.stmt?, map_sitesFrom body List.drop_zero]
  | .cond _ body orelse | .whileLoop _ body orelse | .forLoop _ _ body orelse => by
    simp [sites, nodes, Node.stmt?, map_sitesFrom body List.drop_zero, map_sitesFrom orelse List.drop_zero]
  | .tryBlock body hs orelse final => by
    simp [sites, nodes, Node.stmt?, map_sitesFrom body List.drop_zero, map_sitesHandlers hs,
      map_sitesFrom orelse List.drop_zero, map_sitesFrom final List.drop_zero]
  | .ret _ | .assign _ _ _ | .augAssign _ _ _ | .expr _ | .raise _ _ | .assert _ _ | .importNames _
  | .importFrom _ _ | .globals _ | .nonlocals _ | .pass | .break | .continue | .verbatim _ _ _ => by
    simp [sites, nodes, Node.stmt?]

theorem map_sitesFrom : (ss : List Stmt) → ∀ {block : Block} {i : Nat}, block.drop i = ss →
    (sitesFrom (Block.holdsAt p) block ss i).map atSite =
      (((nodesList ss).filterMap Node.stmt?).filter p).map some
  | [], _, _, _ => rfl
  | s :: ss, block, i, h => by
    have hhere : block[i]? = some s := by
      rw [← List.head?_drop, h]
      rfl
    have hnext : block.drop (i + 1) = ss := by
      rw [← List.tail_drop, h]
      rfl
    rw [sitesFrom, nodesList, List.filterMap_append, filterMap_stmt?_nodes s]
    simp only [List.map_append, List.cons_append, List.filter_cons, List.filter_append,
      map_sites s, map_sitesFrom ss hnext, Block.holdsAt, hhere, Option.any_some]
    split
    · simp [atSite, hhere]
    · simp

theorem map_sitesHandlers : (hs : List (HandlerOf Stmt)) →
    (sitesHandlers (Block.holdsAt p) hs).map atSite =
      (((nodesHandlers hs).filterMap Node.stmt?).filter p).map some
  | [] => rfl
  | ⟨_, _, body⟩ :: hs => by
    simp [sitesHandlers, nodesHandlers, map_sitesFrom body List.drop_zero, map_sitesHandlers hs]

end

end Stmt

/-- The positions of a predicate on statements are the statements that satisfy it, in the same order. -/
theorem Block.map_sites (b : Block) :
    (Block.sites (Block.holdsAt p) b).map Stmt.atSite = ((Block.stmts b).filter p).map some :=
  Stmt.map_sitesFrom b rfl

theorem Block.length_sites (b : Block) :
    (Block.sites (Block.holdsAt p) b).length = (Block.stmts b).countP p := by
  rw [← List.length_map Stmt.atSite, Block.map_sites, List.length_map, List.countP_eq_length_filter]

/-! ## Exits -/

namespace Paths

open Stmt

mutual

theorem length_exits : (s : Stmt) → ∀ depth,
    (exits depth s).length = (s.nodes.filterMap Node.stmt?).countP isExit
  | .define ⟨_, _, body, _, _, _⟩, depth => by
    simp [exits, nodes, Node.stmt?, isExit, isReturn, isRaise, length_exitsList body]
  | .cond _ body orelse, depth | .whileLoop _ body orelse, depth
  | .forLoop _ _ body orelse, depth => by
    simp [exits, nodes, Node.stmt?, isExit, isReturn, isRaise, length_exitsList body,
      length_exitsList orelse]
  | .tryBlock body hs orelse final, depth => by
    simp [exits, nodes, Node.stmt?, isExit, isReturn, isRaise, length_exitsList body,
      length_exitsHandlers hs, length_exitsList orelse, length_exitsList final]
  | .ret _, depth | .assign _ _ _, depth | .augAssign _ _ _, depth | .expr _, depth
  | .raise _ _, depth | .assert _ _, depth | .importNames _, depth | .importFrom _ _, depth
  | .globals _, depth | .nonlocals _, depth | .pass, depth | .break, depth | .continue, depth
  | .verbatim _ _ _, depth => by
    simp [exits, nodes, Node.stmt?, isExit, isReturn, isRaise]

theorem length_exitsList : (ss : List Stmt) → ∀ depth,
    (exitsList depth ss).length = ((nodesList ss).filterMap Node.stmt?).countP isExit
  | [], _ => rfl
  | s :: ss, depth => by
    simp [exitsList, nodesList, length_exits s, length_exitsList ss]

theorem length_exitsHandlers : (hs : List (HandlerOf Stmt)) → ∀ depth,
    (exitsHandlers depth hs).length = ((nodesHandlers hs).filterMap Node.stmt?).countP isExit
  | [], _ => rfl
  | ⟨_, _, body⟩ :: hs, depth => by
    simp [exitsHandlers, nodesHandlers, length_exitsList body, length_exitsHandlers hs]

end

end Paths

/-! ## Paths -/

namespace Paths

mutual

/-- The number of paths through a statement, whatever its size: those of either branch of a conditional,
those of the body of a loop and the one that does not enter it, those of a `try` body and of its
handlers. -/
def total : Stmt → Nat
  | .cond _ body orelse => totalBlock body + totalBlock orelse
  | .forLoop _ _ body _ | .whileLoop _ body _ => totalBlock body + 1
  | .tryBlock body hs _ _ => totalBlock body + totalHandlers hs
  | .define _ | .ret _ | .assign _ _ _ | .augAssign _ _ _ | .expr _ | .raise _ _ | .assert _ _
  | .importNames _ | .importFrom _ _ | .globals _ | .nonlocals _ | .pass | .break | .continue
  | .verbatim _ _ _ => 1

/-- The number of paths through a block: every statement multiplies it. -/
def totalBlock : List Stmt → Nat
  | [] => 1
  | s :: ss => total s * totalBlock ss

/-- The number of paths through the bodies of handlers. -/
def totalHandlers : List (HandlerOf Stmt) → Nat
  | [] => 0
  | ⟨_, _, body⟩ :: hs => totalBlock body + totalHandlers hs

end

/-! ### Numbers that are the same up to the cap -/

/-- Two numbers are reported alike: they are equal, or both reach the cap. -/
def SameCapped (a b : Nat) : Prop := min cap a = min cap b

namespace SameCapped

variable {a a' b b' : Nat}

theorem trans {c : Nat} (hab : SameCapped a b) (hbc : SameCapped b c) : SameCapped a c :=
  Eq.trans hab hbc

theorem eq_or_le (h : SameCapped a b) : a = b ∨ cap ≤ a ∧ cap ≤ b := by
  unfold SameCapped at h
  omega

theorem add (ha : SameCapped a a') (hb : SameCapped b b') : SameCapped (a + b) (a' + b') := by
  unfold SameCapped at *
  omega

theorem mul (ha : SameCapped a a') (hb : SameCapped b b') : SameCapped (a * b) (a' * b') := by
  -- A factor that reaches the cap lets the product reach it, unless the other factor is 0.
  have hleft {m m' n : Nat} (h : SameCapped m m') : SameCapped (m * n) (m' * n) := by
    rcases h.eq_or_le with rfl | ⟨hm, hm'⟩
    · rfl
    · rcases Nat.eq_zero_or_pos n with rfl | hn
      · rfl
      · rw [SameCapped, Nat.min_eq_left (Nat.le_trans hm (Nat.le_mul_of_pos_right m hn)),
          Nat.min_eq_left (Nat.le_trans hm' (Nat.le_mul_of_pos_right m' hn))]
  have hright : SameCapped (a' * b) (a' * b') := by
    rw [Nat.mul_comm a' b, Nat.mul_comm a' b']
    exact hleft hb
  exact (hleft ha).trans hright

/-- A number that is cut off at the cap or above it is reported like the number itself. -/
theorem min_left {c : Nat} (hc : cap ≤ c) (n : Nat) : SameCapped (min n c) n := by
  unfold SameCapped
  omega

theorem plus (ha : SameCapped a a') (hb : SameCapped b b') : SameCapped (Paths.plus a b) (a' + b') :=
  (min_left (by decide) _).trans (ha.add hb)

theorem times (ha : SameCapped a a') (hb : SameCapped b b') : SameCapped (Paths.times a b) (a' * b') :=
  (min_left (by decide) _).trans (ha.mul hb)

end SameCapped

mutual

theorem sameCapped_ofStmt : (s : Stmt) → SameCapped (ofStmt s) (total s)
  | .cond _ body orelse => by
    rw [ofStmt, total]
    exact (sameCapped_ofBlock_one body).plus (sameCapped_ofBlock_one orelse)
  | .forLoop _ _ body _ | .whileLoop _ body _ => by
    rw [ofStmt, total]
    exact (sameCapped_ofBlock_one body).plus rfl
  | .tryBlock body hs _ _ => by
    rw [ofStmt, total]
    exact sameCapped_ofHandlers (sameCapped_ofBlock_one body) hs
  | .define _ | .ret _ | .assign _ _ _ | .augAssign _ _ _ | .expr _ | .raise _ _ | .assert _ _
  | .importNames _ | .importFrom _ _ | .globals _ | .nonlocals _ | .pass | .break | .continue
  | .verbatim _ _ _ => rfl

theorem sameCapped_ofBlock {a a' : Nat} (h : SameCapped a a') : (ss : List Stmt) →
    SameCapped (ofBlock a ss) (a' * totalBlock ss)
  | [] => by
    rw [ofBlock, totalBlock, Nat.mul_one]
    exact h
  | s :: ss => by
    rw [ofBlock, totalBlock, ← Nat.mul_assoc]
    have hstep := (SameCapped.min_left (Nat.le_refl cap) _).trans (h.times (sameCapped_ofStmt s))
    exact sameCapped_ofBlock hstep ss

theorem sameCapped_ofBlock_one (ss : List Stmt) : SameCapped (ofBlock 1 ss) (totalBlock ss) := by
  have h := sameCapped_ofBlock (a := 1) rfl ss
  rwa [Nat.one_mul] at h

theorem sameCapped_ofHandlers {a a' : Nat} (h : SameCapped a a') : (hs : List (HandlerOf Stmt)) →
    SameCapped (ofHandlers a hs) (a' + totalHandlers hs)
  | [] => by
    rw [ofHandlers, totalHandlers, Nat.add_zero]
    exact h
  | ⟨_, _, body⟩ :: hs => by
    rw [ofHandlers, totalHandlers, ← Nat.add_assoc]
    exact sameCapped_ofHandlers (h.plus (sameCapped_ofBlock_one body)) hs

end

/-- Every statement caps the number, so the block itself reports no more than the cap. -/
theorem ofBlock_le_cap {a : Nat} (h : a ≤ cap) (ss : List Stmt) : ofBlock a ss ≤ cap := by
  induction ss generalizing a with
  | nil => exact h
  | cons s ss ih =>
    rw [ofBlock]
    exact ih (Nat.min_le_right _ _)

/-- The number of paths through a block is the one without caps, capped once. -/
theorem ofBlock_eq_min (ss : List Stmt) : ofBlock 1 ss = min cap (totalBlock ss) := by
  rw [← sameCapped_ofBlock_one ss, Nat.min_eq_right (ofBlock_le_cap (by decide) ss)]

/-- A sum over functions that is capped at every step is the sum of all, capped once. -/
theorem foldl_eq_min (fs : List Function) {a b : Nat} (hab : a = min cap b) :
    (fs.map fun f => ofBlock 1 f.body).foldl (fun acc n => min (plus acc n) cap) a =
      min cap (b + (fs.map fun f => totalBlock f.body).sum) := by
  induction fs generalizing a b with
  | nil => exact hab
  | cons f fs ih =>
    have hacc : SameCapped a b := by
      rw [hab]
      exact Nat.min_eq_right (Nat.min_le_left _ _)
    rw [List.map_cons, List.foldl_cons, List.map_cons, List.sum_cons, ← Nat.add_assoc, Nat.min_comm]
    exact ih (hacc.plus (sameCapped_ofBlock_one f.body))

end Paths

/-! ## Operators -/

theorem BinOp.symbol_injective : Function.Injective BinOp.symbol := by
  intro o o' h
  cases o <;> cases o' <;> first | rfl | exact absurd h (by decide)

theorem Expr.isBin_eq (op : BinOp) (e : Expr) :
    Expr.isBin op e = ((Expr.binOp? e).map (· == op)).getD false := by
  cases e <;> rfl

namespace Module

/-- Statements that satisfy one of two predicates which exclude each other. -/
theorem countStmts_add (m : Module) {q r : Stmt → Bool} (hor : ∀ s, p s = (q s || r s))
    (hnot : ∀ s, ¬ (q s = true ∧ r s = true)) :
    m.countStmts q + m.countStmts r = m.countStmts p := by
  unfold countStmts
  induction m.functionStmts with
  | nil => rfl
  | cons s ss ih =>
    have hs := hor s
    have hn := hnot s
    simp only [List.countP_cons]
    cases hq : q s <;> cases hr : r s <;> simp_all <;> omega

theorem functionStmts_eq (m : Module) :
    m.functionStmts = m.functions.flatMap fun f => Block.stmts f.body := by
  rw [functionStmts, functionNodes, List.filterMap_flatMap]
  rfl

/-- Counting positions is counting statements. -/
theorem length_functionSites (m : Module) (p : Stmt → Bool) :
    (m.functionSites (Block.holdsAt p)).length = m.countStmts p := by
  rw [functionSites, countStmts, functionStmts_eq, List.length_flatMap, List.countP_flatMap]
  congr 1
  apply List.map_congr_left
  intro f _
  exact Block.length_sites f.body

/-- Every return and every raise has one signature. -/
theorem length_signatures (m : Module) :
    (m.functions.flatMap fun f => Paths.exitsList 1 f.body).length = m.countStmts Stmt.isExit := by
  rw [countStmts, functionStmts_eq, List.length_flatMap, List.countP_flatMap]
  congr 1
  apply List.map_congr_left
  intro f _
  exact Paths.length_exitsList f.body 1

theorem count_binOp (m : Module) (op : BinOp) :
    (m.functionExprs.filterMap Expr.binOp?).count op = m.countExprs (Expr.isBin op) := by
  rw [List.count, List.countP_filterMap, countExprs]
  congr 1
  funext e
  exact (Expr.isBin_eq op e).symm

/-- The table of operators gives the number of occurrences, 0 if an operator is not listed. -/
theorem lookup_operatorCounts (m : Module) (op : BinOp) :
    (m.operatorCounts.lookup op.symbol).getD 0 = m.countOp op := by
  have hcount : ((m.functionExprs.filterMap Expr.binOp? ++ m.augOps).map BinOp.symbol).count
      op.symbol = m.countOp op := by
    rw [List.count_map_of_injective _ _ BinOp.symbol_injective, List.count_append, count_binOp]
    rfl
  unfold operatorCounts
  by_cases hmem : op.symbol ∈ (m.functionExprs.filterMap Expr.binOp? ++ m.augOps).map BinOp.symbol
  · rw [List.lookup_graph _ (Names.mem_ofList.mpr hmem)]
    exact hcount
  · rw [List.count_eq_zero.mpr hmem] at hcount
    rw [List.lookup_eq_none_iff.mpr, ← hcount]
    · rfl
    · intro e he
      obtain ⟨s, hs, rfl⟩ := List.mem_map.mp he
      rw [Names.mem_ofList] at hs
      rw [bne_iff_ne]
      rintro rfl
      exact hmem hs

/-- Facets that count the same thing agree, in the profile of every module in either mode. -/
theorem profile_counts_agree (mode : Mode) (m : Module) :
    ∃ flow paths effects ends operators numbers growth recursion,
      (m.profile mode).get? .controlFlow = some (.controlFlow flow) ∧
      (m.profile mode).get? .executionPaths = some (.executionPaths paths) ∧
      (m.profile mode).get? .sideEffects = some (.sideEffects effects) ∧
      (m.profile mode).get? .termination = some (.termination ends) ∧
      (m.profile mode).get? .algebraicStructure = some (.algebraicStructure operators) ∧
      (m.profile mode).get? .numericalBehavior = some (.numericalBehavior numbers) ∧
      (m.profile mode).get? .complexity = some (.complexity growth) ∧
      (m.profile mode).get? .recursionSchema = some (.recursionSchema recursion) ∧
      flow.returns = paths.returnPoints ∧
      effects.raises = paths.raisePoints ∧
      ends.boundedLoops + ends.unboundedLoops = flow.loops ∧
      (operators.operators.lookup "/").getD 0 = numbers.trueDivisions ∧
      (operators.operators.lookup "//").getD 0 = numbers.floorDivisions ∧
      (operators.operators.lookup "%").getD 0 = numbers.modulos ∧
      (operators.operators.lookup "**").getD 0 = numbers.powers ∧
      growth.recursiveCalls = recursion.recursiveCalls ∧
      (mode = .enhanced → ∃ signatures, paths.pathSignatures = some signatures ∧
        signatures.length = paths.returnPoints + paths.raisePoints) := by
  refine ⟨_, _, _, _, _, _, _, _, m.get?_profile mode _, m.get?_profile mode _, m.get?_profile mode _,
    m.get?_profile mode _, m.get?_profile mode _, m.get?_profile mode _, m.get?_profile mode _,
    m.get?_profile mode _, ?_⟩
  -- All of these facets are read off the normal form.
  generalize m.normalize = normal
  refine ⟨(length_functionSites normal Stmt.isReturn).symm, (length_functionSites normal Stmt.isRaise).symm,
    ?_, lookup_operatorCounts normal .div, lookup_operatorCounts normal .floorDiv,
    lookup_operatorCounts normal .mod, lookup_operatorCounts normal .pow, rfl, ?_⟩
  · show (normal.functionSites _).length + (normal.functionSites _).length = normal.countStmts Stmt.isLoop
    rw [length_functionSites, length_functionSites]
    apply countStmts_add
    · intro s
      cases s <;> rfl
    · intro s
      cases s <;> simp [Termination.isBounded, Termination.isUnbounded]
  · rintro rfl
    refine ⟨_, rfl, ?_⟩
    show _ = (normal.functionSites _).length + (normal.functionSites _).length
    rw [length_signatures, length_functionSites, length_functionSites]
    symm
    apply countStmts_add
    · intro s
      rfl
    · intro s
      cases s <;> simp [Stmt.isReturn, Stmt.isRaise]

/-- Capping the number of paths in every block and after every function reports what capping it once
reports. -/
theorem paths_capped_once :
    (∀ block, Paths.ofBlock 1 block = min 1024 (Paths.totalBlock block)) ∧
    ∀ enhanced m, (Module.executionPaths enhanced m).pathCount =
      min 1024 (m.functions.map fun f => Paths.totalBlock f.body).sum := by
  refine ⟨Paths.ofBlock_eq_min, fun enhanced m => ?_⟩
  have hsum := Paths.foldl_eq_min m.functions (a := 0) (b := 0) rfl
  rwa [Nat.zero_add] at hsum

end Module

end Concord
