import Concord.Proofs.Tree.Substitution
import Concord.Strategy.Flow

/-!
# Elements that are read through an index

A loop over the indices of a sequence that only uses its index to read elements can run over the
elements: the reads become a name (`Iteration.read`). The uses of the index are counted, and so are the
elements that are read through it; where they are as many, no use of the index is left
(`Iteration.notMem_index_map`).
-/

namespace Concord

/-- The names in a loop over the elements of a sequence that ran over its indices. The name of the
elements is another one. -/
structure Iteration where
  sequence : String
  index : String
  element : String
  element_ne_index : element ≠ index
  element_ne_sequence : element ≠ sequence

namespace Iteration

variable (L : Iteration)

/-- An element that is read through the index. -/
def isElement (e : Expr) : Bool := Idiom.isElement L.sequence L.index e

/-- An element that is read through the index becomes a name. -/
def read (e : Expr) : Expr := if L.isElement e then .name L.element else e

/-- How often the index is used. -/
def uses (es : List Expr) : Nat := es.countP (·.isName L.index)

/-- How many uses of the index an element has. -/
def weight : Nat := if L.sequence = L.index then 2 else 1

/-- How many uses of the index belong to elements. -/
def covered (es : List Expr) : Nat := L.weight * es.countP L.isElement

variable {L}

/-! ## Reads in an expression -/

theorem isName_map {n : String} (hn : L.element ≠ n) (e : Expr) :
    (e.map L.read).isName n = e.isName n := by
  cases e with
  | subscript a i =>
    rw [Expr.map, read]
    split
    · exact beq_false_of_ne hn
    · rfl
  | _ => rfl

theorem map_subscript (a i : Expr) : (Expr.subscript a i).map L.read =
    if L.isElement (.subscript a i) then .name L.element
    else .subscript (a.map L.read) (i.map L.read) := by
  have hsame : L.isElement (.subscript (a.map L.read) (i.map L.read)) =
      L.isElement (.subscript a i) := by
    simp only [isElement, Idiom.isElement, isName_map L.element_ne_sequence,
      isName_map L.element_ne_index]
  rw [Expr.map, read, hsame]

theorem eq_name_of_isName {e : Expr} {n : String} (h : e.isName n = true) : e = .name n := by
  cases e with
  | name m => exact congrArg Expr.name (beq_iff_eq.mp h)
  | _ => cases h

theorem eq_of_isElement {a i : Expr} (h : L.isElement (.subscript a i) = true) :
    a = .name L.sequence ∧ i = .name L.index := by
  simp only [isElement, Idiom.isElement, Bool.and_eq_true] at h
  exact ⟨eq_name_of_isName h.1, eq_name_of_isName h.2⟩

/-! ## Counting the uses of the index -/

section

variable (es ds : List Expr)

@[simp] theorem uses_append : L.uses (es ++ ds) = L.uses es + L.uses ds := List.countP_append

@[simp] theorem covered_append : L.covered (es ++ ds) = L.covered es + L.covered ds := by
  rw [covered, List.countP_append, Nat.mul_add]
  rfl

@[simp] theorem uses_nil : L.uses [] = 0 := rfl

@[simp] theorem covered_nil : L.covered [] = 0 := rfl

@[simp] theorem uses_cons (e : Expr) : L.uses (e :: es) = L.uses es + (e.isName L.index).toNat := by
  rw [uses, List.countP_cons]
  cases e.isName L.index <;> rfl

@[simp] theorem covered_cons (e : Expr) :
    L.covered (e :: es) = L.covered es + L.weight * (L.isElement e).toNat := by
  rw [covered, List.countP_cons, Nat.mul_add]
  cases L.isElement e <;> rfl

end

mutual

/-- Every use of the index is left, or belongs to an element. -/
theorem uses_map : (e : Expr) →
    L.uses (e.map L.read).subterms + L.covered e.subterms = L.uses e.subterms
  | .subscript a i => by
    have ha := uses_map a
    have hi := uses_map i
    rw [map_subscript]
    split
    · next h =>
      obtain ⟨rfl, rfl⟩ := eq_of_isElement h
      have helement : (L.element == L.index) = false := beq_false_of_ne L.element_ne_index
      by_cases hsequence : L.sequence = L.index <;>
        simp [Expr.subterms, Expr.isName, isElement, Idiom.isElement, weight, helement, hsequence]
    · next h =>
      simp only [Expr.subterms, uses_cons, covered_cons, uses_append, covered_append, Expr.isName, h,
        Bool.toNat_false]
      omega
  | .bin _ l r | .logic _ l r => by
    have hl := uses_map l
    have hr := uses_map r
    simp [Expr.map, read, isElement, Idiom.isElement, Expr.subterms, Expr.isName]
    omega
  | .unary _ a | .attribute a _ | .starred a => by
    have ha := uses_map a
    simp [Expr.map, read, isElement, Idiom.isElement, Expr.subterms, Expr.isName]
    omega
  | .compare l links => by
    have hl := uses_map l
    have hlinks := uses_mapLinks links
    simp [Expr.map, read, isElement, Idiom.isElement, Expr.subterms, Expr.isName]
    omega
  | .call g args => by
    have hg := uses_map g
    have hargs := uses_mapArgs args
    simp [Expr.map, read, isElement, Idiom.isElement, Expr.subterms, Expr.isName]
    omega
  | .slice a b c => by
    have ha := uses_mapOption a
    have hb := uses_mapOption b
    have hc := uses_mapOption c
    simp [Expr.map, read, isElement, Idiom.isElement, Expr.subterms, Expr.isName]
    omega
  | .list items | .tuple items | .set items => by
    have hitems := uses_mapList items
    simp [Expr.map, read, isElement, Idiom.isElement, Expr.subterms, Expr.isName]
    omega
  | .dict entries => by
    have hentries := uses_mapEntries entries
    simp [Expr.map, read, isElement, Idiom.isElement, Expr.subterms, Expr.isName]
    omega
  | .comp _ e v cs => by
    have he := uses_map e
    have hv := uses_mapOption v
    have hcs := uses_mapClauses cs
    simp [Expr.map, read, isElement, Idiom.isElement, Expr.subterms, Expr.isName]
    omega
  | .ifExp t a b => by
    have ht := uses_map t
    have ha := uses_map a
    have hb := uses_map b
    simp [Expr.map, read, isElement, Idiom.isElement, Expr.subterms, Expr.isName]
    omega
  | .lambda ps b => by
    have hps := uses_mapParams ps
    have hb := uses_map b
    simp [Expr.map, read, isElement, Idiom.isElement, Expr.subterms, Expr.isName]
    omega
  | .name _ | .int _ | .float _ | .str _ | .bool _ | .none | .verbatim _ => rfl

theorem uses_mapOption : (o : Option Expr) →
    L.uses (Expr.subtermsOption (Expr.mapOption L.read o)) + L.covered (Expr.subtermsOption o) =
      L.uses (Expr.subtermsOption o)
  | Option.none => rfl
  | some e => uses_map e

theorem uses_mapList : (es : List Expr) →
    L.uses (Expr.subtermsList (Expr.mapList L.read es)) + L.covered (Expr.subtermsList es) =
      L.uses (Expr.subtermsList es)
  | [] => rfl
  | e :: es => by
    have he := uses_map e
    have hes := uses_mapList es
    simp only [Expr.mapList, Expr.subtermsList, uses_append, covered_append]
    omega

theorem uses_mapLinks : (ls : List (CmpOp × Expr)) →
    L.uses (Expr.subtermsLinks (Expr.mapLinks L.read ls)) + L.covered (Expr.subtermsLinks ls) =
      L.uses (Expr.subtermsLinks ls)
  | [] => rfl
  | (_, e) :: ls => by
    have he := uses_map e
    have hls := uses_mapLinks ls
    simp only [Expr.mapLinks, Expr.subtermsLinks, uses_append, covered_append]
    omega

theorem uses_mapArgs : (as : List Arg) →
    L.uses (Expr.subtermsArgs (Expr.mapArgs L.read as)) + L.covered (Expr.subtermsArgs as) =
      L.uses (Expr.subtermsArgs as)
  | [] => rfl
  | .positional e :: as | .keyword _ e :: as | .star e :: as | .doubleStar e :: as => by
    have he := uses_map e
    have has := uses_mapArgs as
    simp only [Expr.mapArgs, Expr.subtermsArgs, uses_append, covered_append]
    omega

theorem uses_mapEntries : (es : List (Expr × Expr)) →
    L.uses (Expr.subtermsEntries (Expr.mapEntries L.read es)) + L.covered (Expr.subtermsEntries es) =
      L.uses (Expr.subtermsEntries es)
  | [] => rfl
  | (k, v) :: es => by
    have hk := uses_map k
    have hv := uses_map v
    have hes := uses_mapEntries es
    simp only [Expr.mapEntries, Expr.subtermsEntries, uses_append, covered_append]
    omega

theorem uses_mapClauses : (cs : List Clause) →
    L.uses (Expr.subtermsClauses (Expr.mapClauses L.read cs)) + L.covered (Expr.subtermsClauses cs) =
      L.uses (Expr.subtermsClauses cs)
  | [] => rfl
  | ⟨t, i, ifs⟩ :: cs => by
    have ht := uses_map t
    have hi := uses_map i
    have hifs := uses_mapList ifs
    have hcs := uses_mapClauses cs
    simp only [Expr.mapClauses, Expr.subtermsClauses, uses_append, covered_append]
    omega

theorem uses_mapParams : (ps : List Param) →
    L.uses (Expr.subtermsParams (Expr.mapParams L.read ps)) + L.covered (Expr.subtermsParams ps) =
      L.uses (Expr.subtermsParams ps)
  | [] => rfl
  | ⟨_, _, default, _⟩ :: ps => by
    have hdefault := uses_mapOption default
    have hps := uses_mapParams ps
    simp only [Expr.mapParams, Expr.subtermsParams, uses_append, covered_append]
    omega

end

/-! ## Reads in a block -/

/-- The expressions among parts of a program. -/
def exprs (xs : List Node) : List Expr := xs.filterMap Node.expr?

@[simp] theorem exprs_exprNodes (es : List Expr) : exprs (Stmt.exprNodes es) = es := by
  rw [exprs, Stmt.exprNodes, List.filterMap_map]
  exact List.filterMap_some

@[simp] theorem exprs_append (xs ys : List Node) : exprs (xs ++ ys) = exprs xs ++ exprs ys :=
  List.filterMap_append

@[simp] theorem exprs_stmt (s : Stmt) (xs : List Node) : exprs (.stmt s :: xs) = exprs xs := rfl

mutual

theorem uses_mapStmt : (s : Stmt) →
    L.uses (exprs (s.map id L.read).nodes) + L.covered (exprs s.nodes) = L.uses (exprs s.nodes)
  | .define ⟨_, params, body, decorators, _, _⟩ => by
    have hdecorators := uses_mapList (L := L) decorators
    have hparams := uses_mapParams (L := L) params
    have hbody := uses_mapBlock body
    simp only [Stmt.map, id, Stmt.nodes, exprs_stmt, exprs_append, exprs_exprNodes,
      uses_append, covered_append]
    omega
  | .ret v => by
    simp only [Stmt.map, id, Stmt.nodes, exprs_stmt, exprs_exprNodes]
    exact uses_mapOption v
  | .assign ts v _ => by
    have hts := uses_mapList (L := L) ts
    have hv := uses_map (L := L) v
    simp only [Stmt.map, id, Stmt.nodes, exprs_stmt, exprs_exprNodes, uses_append, covered_append]
    omega
  | .augAssign t _ v => by
    have ht := uses_map (L := L) t
    have hv := uses_map (L := L) v
    simp only [Stmt.map, id, Stmt.nodes, exprs_stmt, exprs_exprNodes, uses_append, covered_append]
    omega
  | .expr e => by
    simp only [Stmt.map, id, Stmt.nodes, exprs_stmt, exprs_exprNodes]
    exact uses_map e
  | .cond t body orelse | .whileLoop t body orelse => by
    have ht := uses_map (L := L) t
    have hbody := uses_mapBlock body
    have horelse := uses_mapBlock orelse
    simp only [Stmt.map, id, Stmt.nodes, exprs_stmt, exprs_append, exprs_exprNodes,
      uses_append, covered_append]
    omega
  | .forLoop t i body orelse => by
    have ht := uses_map (L := L) t
    have hi := uses_map (L := L) i
    have hbody := uses_mapBlock body
    have horelse := uses_mapBlock orelse
    simp only [Stmt.map, id, Stmt.nodes, exprs_stmt, exprs_append, exprs_exprNodes,
      uses_append, covered_append]
    omega
  | .tryBlock body hs orelse final => by
    have hbody := uses_mapBlock body
    have hhs := uses_mapHandlers hs
    have horelse := uses_mapBlock orelse
    have hfinal := uses_mapBlock final
    simp only [Stmt.map, id, Stmt.nodes, exprs_stmt, exprs_append, uses_append,
      covered_append]
    omega
  | .raise e c => by
    have he := uses_mapOption (L := L) e
    have hc := uses_mapOption (L := L) c
    simp only [Stmt.map, id, Stmt.nodes, exprs_stmt, exprs_exprNodes, uses_append, covered_append]
    omega
  | .assert t m => by
    have ht := uses_map (L := L) t
    have hm := uses_mapOption (L := L) m
    simp only [Stmt.map, id, Stmt.nodes, exprs_stmt, exprs_exprNodes, uses_append, covered_append]
    omega
  | .importNames _ | .importFrom _ _ | .globals _ | .nonlocals _ | .pass | .break | .continue
  | .verbatim _ _ _ => rfl

/-- Every use of the index in a block is left, or belongs to an element. -/
theorem uses_mapBlock : (b : List Stmt) →
    L.uses (exprs (Stmt.nodesList (Stmt.mapList id L.read b))) + L.covered (exprs (Stmt.nodesList b)) =
      L.uses (exprs (Stmt.nodesList b))
  | [] => rfl
  | s :: rest => by
    have hs := uses_mapStmt s
    have hrest := uses_mapBlock rest
    simp only [Stmt.mapList, Stmt.nodesList, exprs_append, uses_append, covered_append]
    omega

theorem uses_mapHandlers : (hs : List (HandlerOf Stmt)) →
    L.uses (exprs (Stmt.nodesHandlers (Stmt.mapHandlers id L.read hs))) +
      L.covered (exprs (Stmt.nodesHandlers hs)) = L.uses (exprs (Stmt.nodesHandlers hs))
  | [] => rfl
  | ⟨type, _, body⟩ :: hs => by
    have htype := uses_mapOption (L := L) type
    have hbody := uses_mapBlock body
    have hhs := uses_mapHandlers hs
    simp only [Stmt.mapHandlers, Stmt.nodesHandlers, exprs_append, exprs_exprNodes, uses_append,
      covered_append]
    omega

end

theorem count_eq (p : Expr → Bool) (body : Block) :
    Block.count p body = (exprs (Stmt.nodesList body)).countP p :=
  (List.countP_eq_length_filter ..).symm

section

variable {body : Block} (h : Block.count L.isElement body = Block.count (·.isName L.index) body)
include h

/-- Where all uses of the index are elements that are read through it, none is left. -/
theorem notMem_index_map :
    ∀ x ∈ Stmt.nodesList (Stmt.mapList id L.read body), x ≠ .expr (.name L.index) := by
  rw [count_eq, count_eq] at h
  have hmap := uses_mapBlock (L := L) body
  have hnone : L.uses (exprs (Stmt.nodesList (Stmt.mapList id L.read body))) = 0 := by
    unfold covered weight uses at hmap
    unfold uses
    split at hmap <;> omega
  rintro x hx rfl
  have hmem : Expr.name L.index ∈ exprs (Stmt.nodesList (Stmt.mapList id L.read body)) :=
    List.mem_filterMap.mpr ⟨_, hx, rfl⟩
  have hfree := List.countP_eq_zero.mp hnone _ hmem
  simp [Expr.isName] at hfree

/-- The index is another name than the sequence, or an element has two uses of it. -/
theorem sequence_ne_index (hread : Block.count L.isElement body ≠ 0) : L.sequence ≠ L.index := by
  intro hsame
  rw [count_eq] at hread
  rw [count_eq, count_eq] at h
  have hmap := uses_mapBlock (L := L) body
  unfold covered weight uses at hmap
  rw [if_pos hsame] at hmap
  omega

end

/-! ## Where nothing is read -/

/-- Without a use of the index, nothing is read through it. -/
theorem read_eq_self {es ds : List Expr} (hcount : L.uses ds + L.covered es = L.uses es)
    (h : ∀ x ∈ es, x ≠ .name L.index) : ∀ x ∈ es, L.read x = x := by
  have huses : L.uses es = 0 := by
    refine List.countP_eq_zero.mpr fun x hx hname => h x hx (eq_name_of_isName hname)
  have helements : es.countP L.isElement = 0 := by
    unfold covered weight at hcount
    split at hcount <;> omega
  intro x hx
  exact if_neg (List.countP_eq_zero.mp helements x hx)

theorem map_eq_self {e : Expr} (h : ∀ x ∈ e.subterms, x ≠ .name L.index) : e.map L.read = e :=
  Expr.map_eq_self e (read_eq_self (uses_map e) h)

theorem ne_index_of_avoids {x : Expr} (h : Node.avoids [L.index] (.expr x) = true) :
    x ≠ .name L.index := by
  rintro rfl
  simp [Node.avoids, Node.mentioned] at h

/-- A statement that does not mention the index stays as it is. -/
theorem mapStmt_eq_self {s : Stmt} (h : ∀ x ∈ s.nodes, x.avoids [L.index] = true) :
    s.map id L.read = s := by
  have hread := read_eq_self (uses_mapStmt (L := L) s) fun x hx => by
    obtain ⟨y, hy, hname⟩ := List.mem_filterMap.mp hx
    cases y with
    | stmt s => cases hname
    | expr e =>
      cases hname
      exact ne_index_of_avoids (h _ hy)
  refine Stmt.map_eq_self s fun x hx => ?_
  cases x with
  | stmt s => trivial
  | expr e => exact hread e (List.mem_filterMap.mpr ⟨_, hx, rfl⟩)

theorem isStarred_map (e : Expr) : (e.map L.read).isStarred = e.isStarred := by
  cases e with
  | subscript a i =>
    rw [map_subscript]
    split <;> rfl
  | _ => rfl

theorem map_ne_slice {e : Expr} (h : ∀ l u s, e ≠ .slice l u s) :
    ∀ l u s, e.map L.read ≠ .slice l u s := by
  intro l u s
  cases e with
  | subscript a i =>
    rw [map_subscript]
    split <;> nofun
  | slice l u s => exact absurd rfl (h l u s)
  | _ => nofun

end Iteration

/-! ## What the body of the loop may be -/

namespace Node

/-- What the part is assigned to. -/
def targets : Node → List Expr
  | .stmt (.assign ts _ _) => ts
  | .stmt (.augAssign t _ _) | .stmt (.forLoop t _ _ _) => [t]
  | _ => []

/-- Elements are read where the loop runs: functions made in it do not mention the index, comprehensions
that mention it bind neither it nor the sequence, handlers and declarations do not take it away, and no
loop in it runs over a target with an element. -/
def confines (sequence index : String) : Node → Bool
  | .expr (.lambda ps body) =>
    (Expr.subterms (.lambda ps body)).all fun e => avoids [index] (.expr e)
  | .expr (.comp kind e v clauses) =>
    (Expr.subterms (.comp kind e v clauses)).all (fun e => avoids [index] (.expr e)) ||
      clauses.all fun c => c.target.subterms.all fun e => avoids [sequence, index] (.expr e)
  | .stmt (.define f) => (Stmt.nodes (.define f)).all (avoids [index])
  | .stmt (.forLoop target _ _ _) => !target.subterms.any (Idiom.isElement sequence index)
  | .stmt (.tryBlock body handlers orelse final) =>
    avoids [index] (.stmt (.tryBlock body handlers orelse final))
  | .stmt (.globals names) => avoids [index] (.stmt (.globals names))
  | .stmt (.nonlocals names) => avoids [index] (.stmt (.nonlocals names))
  | _ => true

end Node

namespace Iteration

variable (L : Iteration)

/-- The names that mean different things in the two loops. -/
def hidden : List String := [L.index, L.element]

/-- The names that an element is read with. -/
def names : List String := [L.sequence, L.index, L.element]

/-- The part may stand in the loop. -/
structure Admits (x : Node) : Prop where
  confines : x.confines L.sequence L.index = true
  fresh : x.avoids [L.element] = true
  writes : ∀ y ∈ Expr.subtermsList x.targets, L.isElement y = false

variable {L}

theorem avoids_hidden {x : Node} (hindex : x.avoids [L.index] = true)
    (helement : x.avoids [L.element] = true) : x.avoids L.hidden = true := by
  simp only [Node.avoids_iff, hidden, List.mem_cons, List.not_mem_nil, or_false, not_or] at *
  exact fun n hn => ⟨hindex n hn, helement n hn⟩

/-- An expression that is not the index itself mentions neither name. -/
theorem Admits.avoids {e : Expr} (h : L.Admits (.expr e)) (he : e ≠ .name L.index) :
    Node.avoids L.hidden (.expr e) = true := by
  refine avoids_hidden ?_ h.fresh
  cases e with
  | name n =>
    have hne : n ≠ L.index := fun hn => he (congrArg Expr.name hn)
    simpa [Node.avoids, Node.mentioned] using hne
  | lambda ps body =>
    have hconfines := h.confines
    rw [Node.confines, Expr.subterms, List.all_cons, Bool.and_eq_true] at hconfines
    exact hconfines.1
  | _ => rfl

/-- Targets in the body mention neither name. -/
theorem Admits.targets {x : Node} (h : L.Admits x)
    (hinside : ∀ y ∈ Expr.subtermsList x.targets, L.Admits (.expr y))
    (hfree : ∀ y ∈ Expr.subtermsList (Expr.mapList L.read x.targets), y ≠ .name L.index) :
    Expr.mapList L.read x.targets = x.targets ∧
      ∀ y ∈ Expr.subtermsList x.targets, Node.avoids L.hidden (.expr y) = true := by
  have hsame : Expr.mapList L.read x.targets = x.targets :=
    Expr.mapList_eq_self _ fun y hy => if_neg (by simp [h.writes y hy])
  rw [hsame] at hfree
  exact ⟨hsame, fun y hy => (hinside y hy).avoids (hfree y hy)⟩

theorem Admits.target {x : Node} (h : L.Admits x) {t : Expr} (ht : x.targets = [t])
    (hinside : ∀ y ∈ t.subterms, L.Admits (.expr y))
    (hfree : ∀ y ∈ (t.map L.read).subterms, y ≠ .name L.index) :
    t.map L.read = t ∧ ∀ y ∈ t.subterms, Node.avoids L.hidden (.expr y) = true := by
  have hlist (e : Expr) : Expr.subtermsList [e] = e.subterms := List.append_nil _
  have htargets := h.targets
  rw [ht, Expr.mapList, Expr.mapList, hlist, hlist] at htargets
  obtain ⟨hsame, havoids⟩ := htargets hinside hfree
  exact ⟨List.head_eq_of_cons_eq hsame, havoids⟩

/-! ## Expressions among the parts of a statement -/

theorem free_exprNodes {es : List Expr} {n : String} :
    (∀ x ∈ Stmt.exprNodes es, x ≠ .expr (.name n)) ↔ ∀ e ∈ es, e ≠ .name n := by
  simp only [Stmt.exprNodes, List.forall_mem_map, ne_eq, Node.expr.injEq]

theorem admits_exprNodes {es : List Expr} :
    (∀ x ∈ Stmt.exprNodes es, L.Admits x) ↔ ∀ e ∈ es, L.Admits (.expr e) :=
  List.forall_mem_map

end Iteration

end Concord
