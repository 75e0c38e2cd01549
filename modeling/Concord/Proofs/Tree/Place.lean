import Concord.Proofs.Tree.Parts
import Concord.Tree.Edit

/-!
# Places in a tree

Every part of a tree is made up of its direct parts and of what stays when each of them is replaced by
a placeholder. A `Layout` gives both, for expressions, statements and the lists that occur in them. The
walk lists a part before its direct parts and everything inside of those (`Node.inside_eq`), so a place is
given by the matches that the walk meets before it.

`Node.Swapped` says that two rows of parts are alike but for one expression at one place: on the way down
to that place every part keeps all but one of its direct parts, and keeps what stays without them.
-/

namespace Concord

open Stmt (exprNodes)

/-! ## Direct parts -/

/-- How things of a kind are made up: their direct parts in the order of the walk, and what stays with a
placeholder for every direct part. -/
structure Layout (ν α : Type) where
  parts : α → List ν
  bare : α → α

namespace Layout

/-- An expression as a part, of which nothing stays. -/
def whole : Layout Node Expr where
  parts e := [.expr e]
  bare _ := .none

def option : Layout Node (Option Expr) where
  parts o := exprNodes o.toList
  bare o := o.map fun _ => .none

def list : Layout Node (List Expr) where
  parts es := exprNodes es
  bare es := es.map fun _ => .none

def links : Layout Node (List (CmpOp × Expr)) where
  parts ls := ls.map fun l => .expr l.2
  bare ls := ls.map fun l => (l.1, .none)

def args : Layout Node (List Arg) where
  parts as := as.map fun a => .expr a.value
  bare as := as.map fun
    | .positional _ => .positional .none
    | .keyword n _ => .keyword n .none
    | .star _ => .star .none
    | .doubleStar _ => .doubleStar .none

def entries : Layout Node (List (Expr × Expr)) where
  parts es := es.flatMap fun e => [.expr e.1, .expr e.2]
  bare es := es.map fun _ => (.none, .none)

def clauses : Layout Node (List Clause) where
  parts cs := cs.flatMap fun c => .expr c.iter :: .expr c.target :: exprNodes c.ifs
  bare cs := cs.map fun c => ⟨.none, .none, list.bare c.ifs⟩

/-- The parts of parameters are their defaults. -/
def params : Layout Node (List Param) where
  parts ps := ps.flatMap fun q => option.parts q.default
  bare ps := ps.map fun q => { q with default := option.bare q.default }

/-- An expression that is taken apart. -/
def expr : Layout Node Expr where
  parts
    | .bin _ l r | .logic _ l r | .subscript l r => [.expr l, .expr r]
    | .unary _ a | .attribute a _ | .starred a => [.expr a]
    | .compare l ls => .expr l :: links.parts ls
    | .call f as => .expr f :: args.parts as
    | .slice a b c => option.parts a ++ (option.parts b ++ option.parts c)
    | .list items | .tuple items | .set items => list.parts items
    | .dict es => entries.parts es
    | .comp _ e v cs => .expr e :: (option.parts v ++ clauses.parts cs)
    | .ifExp t a b => [.expr t, .expr a, .expr b]
    | .lambda ps b => params.parts ps ++ [.expr b]
    | .name _ | .int _ | .float _ | .str _ | .bool _ | .none | .verbatim _ => []
  bare
    | .bin op _ _ => .bin op .none .none
    | .unary op _ => .unary op .none
    | .logic op _ _ => .logic op .none .none
    | .compare _ ls => .compare .none (links.bare ls)
    | .call _ as => .call .none (args.bare as)
    | .attribute _ n => .attribute .none n
    | .subscript _ _ => .subscript .none .none
    | .slice a b c => .slice (option.bare a) (option.bare b) (option.bare c)
    | .list items => .list (list.bare items)
    | .tuple items => .tuple (list.bare items)
    | .set items => .set (list.bare items)
    | .dict es => .dict (entries.bare es)
    | .comp k _ v cs => .comp k .none (option.bare v) (clauses.bare cs)
    | .ifExp _ _ _ => .ifExp .none .none .none
    | .lambda ps _ => .lambda (params.bare ps) .none
    | .starred _ => .starred .none
    | e => e

/-- A statement as a part, of which nothing stays. -/
def wholeStmt : Layout Node Stmt where
  parts s := [.stmt s]
  bare _ := .pass

def block : Layout Node Block where
  parts b := b.map .stmt
  bare b := b.map fun _ => .pass

def handlers : Layout Node (List Handler) where
  parts hs := hs.flatMap fun h => option.parts h.type ++ block.parts h.body
  bare hs := hs.map fun h => ⟨option.bare h.type, h.name, block.bare h.body⟩

/-- A statement that is taken apart. -/
def stmt : Layout Node Stmt where
  parts
    | .define f => list.parts f.decorators ++ (params.parts f.params ++ block.parts f.body)
    | .ret v => option.parts v
    | .assign ts v _ => .expr v :: list.parts ts
    | .augAssign t _ v => [.expr t, .expr v]
    | .expr e => [.expr e]
    | .cond t body orelse | .whileLoop t body orelse =>
      .expr t :: (block.parts body ++ block.parts orelse)
    | .forLoop t i body orelse => .expr i :: .expr t :: (block.parts body ++ block.parts orelse)
    | .tryBlock body hs orelse final =>
      block.parts body ++ (handlers.parts hs ++ (block.parts orelse ++ block.parts final))
    | .raise e c => option.parts e ++ option.parts c
    | .assert t m => .expr t :: option.parts m
    | .importNames _ | .importFrom _ _ | .globals _ | .nonlocals _ | .pass | .break | .continue
    | .verbatim _ _ _ => []
  bare
    | .define f => .define { f with
        decorators := list.bare f.decorators
        params := params.bare f.params
        body := block.bare f.body }
    | .ret v => .ret (option.bare v)
    | .assign ts _ a => .assign (list.bare ts) .none a
    | .augAssign _ op _ => .augAssign .none op .none
    | .expr _ => .expr .none
    | .cond _ body orelse => .cond .none (block.bare body) (block.bare orelse)
    | .whileLoop _ body orelse => .whileLoop .none (block.bare body) (block.bare orelse)
    | .forLoop _ _ body orelse => .forLoop .none .none (block.bare body) (block.bare orelse)
    | .tryBlock body hs orelse final =>
      .tryBlock (block.bare body) (handlers.bare hs) (block.bare orelse) (block.bare final)
    | .raise e c => .raise (option.bare e) (option.bare c)
    | .assert _ m => .assert .none (option.bare m)
    | s => s

end Layout

namespace Node

/-- The direct parts of a part, in the order of the walk. -/
def parts : Node → List Node
  | .expr e => Layout.expr.parts e
  | .stmt s => Layout.stmt.parts s

/-- What stays of a part without its direct parts. -/
def bare : Node → Node
  | .expr e => .expr (Layout.expr.bare e)
  | .stmt s => .stmt (Layout.stmt.bare s)

end Node

/-! ## The walk by direct parts -/

namespace Layout

open Expr

theorem inside_option (o : Option Expr) :
    (option.parts o).flatMap Node.inside = exprNodes (subtermsOption o) := by
  cases o <;> simp [option, subtermsOption, exprNodes, Node.inside]

theorem inside_list (es : List Expr) :
    (list.parts es).flatMap Node.inside = exprNodes (subtermsList es) := by
  induction es with
  | nil => rfl
  | cons e es ih =>
    simp only [list, exprNodes] at ih
    simp [list, subtermsList, exprNodes, Node.inside, ih]

theorem inside_links (ls : List (CmpOp × Expr)) :
    (links.parts ls).flatMap Node.inside = exprNodes (subtermsLinks ls) := by
  induction ls with
  | nil => rfl
  | cons l ls ih =>
    simp only [links, exprNodes] at ih
    simp [links, subtermsLinks, exprNodes, Node.inside, ih]

theorem inside_args (as : List Arg) :
    (args.parts as).flatMap Node.inside = exprNodes (subtermsArgs as) := by
  induction as with
  | nil => rfl
  | cons a as ih =>
    have hcons : (args.parts (a :: as)).flatMap Node.inside =
        exprNodes a.value.subterms ++ (args.parts as).flatMap Node.inside := rfl
    rw [hcons, ih]
    cases a <;> simp [subtermsArgs, exprNodes, ArgOf.value]

theorem inside_entries (es : List (Expr × Expr)) :
    (entries.parts es).flatMap Node.inside = exprNodes (subtermsEntries es) := by
  induction es with
  | nil => rfl
  | cons e es ih =>
    simp only [entries, exprNodes] at ih
    simp [entries, subtermsEntries, exprNodes, Node.inside, ih]

theorem inside_clauses (cs : List Clause) :
    (clauses.parts cs).flatMap Node.inside = exprNodes (subtermsClauses cs) := by
  induction cs with
  | nil => rfl
  | cons c cs ih =>
    have hifs := inside_list c.ifs
    simp only [clauses, list, exprNodes] at ih hifs
    simp [clauses, subtermsClauses, exprNodes, Node.inside, ih, hifs]

theorem inside_params (ps : List Param) :
    (params.parts ps).flatMap Node.inside = exprNodes (subtermsParams ps) := by
  induction ps with
  | nil => rfl
  | cons q ps ih =>
    have hdefault := inside_option q.default
    simp only [params, exprNodes] at ih hdefault
    simp [params, subtermsParams, exprNodes, ih, hdefault]

theorem inside_block (b : Block) : (block.parts b).flatMap Node.inside = Stmt.nodesList b := by
  induction b with
  | nil => rfl
  | cons s b ih =>
    simp only [block] at ih
    simp [block, Stmt.nodesList, Node.inside, ih]

theorem inside_handlers (hs : List Handler) :
    (handlers.parts hs).flatMap Node.inside = Stmt.nodesHandlers hs := by
  induction hs with
  | nil => rfl
  | cons h hs ih =>
    have htype := inside_option h.type
    have hbody := inside_block h.body
    simp only [handlers] at ih
    simp [handlers, Stmt.nodesHandlers, ih, htype, hbody]

end Layout

/-- The walk lists a part, and then its direct parts with everything inside of them. -/
theorem Node.inside_eq (n : Node) : n.inside = n :: n.parts.flatMap Node.inside := by
  cases n with
  | expr e =>
    cases e <;>
      simp [Node.inside, Node.parts, Layout.expr, Expr.subterms, exprNodes, Layout.inside_option,
        Layout.inside_list, Layout.inside_links, Layout.inside_args, Layout.inside_entries,
        Layout.inside_clauses, Layout.inside_params]
  | stmt s =>
    cases s <;>
      simp [Node.inside, Node.parts, Layout.stmt, Stmt.nodes, exprNodes, Layout.inside_option,
        Layout.inside_list, Layout.inside_params, Layout.inside_block, Layout.inside_handlers]

/-! ## One expression for another -/

namespace Node

/-- The expressions of a walk that satisfy `p`. -/
def hits (p : Expr → Bool) (walk : List Node) : List Expr := (walk.filterMap expr?).filter p

@[simp] theorem hits_append (p : Expr → Bool) (ms ns : List Node) :
    hits p (ms ++ ns) = hits p ms ++ hits p ns := by
  simp [hits]

/-- The rows `ns` and `ns'` are alike but for one match of `p`, which is `old` in the one and `new` in the
other; the walk of `ns` meets as many matches before it as the number says. -/
inductive Swapped (p : Expr → Bool) (old new : Expr) : Nat → List Node → List Node → Prop
  | here (hp : p old = true) (before after : List Node) :
    Swapped p old new (hits p (before.flatMap inside)).length (before ++ .expr old :: after)
      (before ++ .expr new :: after)
  | inside (before after : List Node) {n n' : Node} (hbare : n'.bare = n.bare) {k : Nat}
    (h : Swapped p old new k n.parts n'.parts) :
    Swapped p old new (k + (hits p (before.flatMap inside ++ [n])).length) (before ++ n :: after)
      (before ++ n' :: after)

namespace Swapped

variable {p : Expr → Bool} {old new : Expr} {k : Nat} {ns ns' : List Node}

theorem append (h : Swapped p old new k ns ns') (after : List Node) :
    Swapped p old new k (ns ++ after) (ns' ++ after) := by
  cases h with
  | here hp before after' =>
    rw [List.append_assoc, List.append_assoc]
    exact here hp before (after' ++ after)
  | inside before after' hbare h =>
    rw [List.append_assoc, List.append_assoc]
    exact inside before (after' ++ after) hbare h

theorem behind (h : Swapped p old new k ns ns') (first : List Node) :
    Swapped p old new (k + (hits p (first.flatMap Node.inside)).length) (first ++ ns) (first ++ ns') := by
  cases h with
  | here hp before after =>
    rw [← List.append_assoc, ← List.append_assoc, Nat.add_comm, ← List.length_append, ← hits_append,
      ← List.flatMap_append]
    exact here hp (first ++ before) after
  | inside before after hbare h =>
    rw [← List.append_assoc, ← List.append_assoc, Nat.add_assoc, Nat.add_comm _ (hits p _).length,
      ← List.length_append, ← hits_append, ← List.append_assoc, ← List.flatMap_append]
    exact inside (first ++ before) after hbare h

theorem within {n n' : Node} (hbare : n'.bare = n.bare) (h : Swapped p old new k n.parts n'.parts) :
    Swapped p old new (k + (hits p [n]).length) [n] [n'] :=
  inside [] [] hbare h

/-- Another expression at some place makes another row. -/
theorem ne (h : Swapped p old new k ns ns') (hne : new ≠ old) : ns' ≠ ns := by
  induction h with
  | here hp before after =>
    intro he
    exact hne (Node.expr.inj (List.cons.inj (List.append_cancel_left he)).1)
  | inside before after hbare h ih =>
    intro he
    exact ih (congrArg parts (List.cons.inj (List.append_cancel_left he)).1)

end Swapped

end Node

/-! ## One block for another -/

namespace Layout

/-- A block as a part, of which nothing stays. -/
def wholeBlock : Layout Block Block where
  parts b := [b]
  bare _ := []

def bodies : Layout Block (List Handler) where
  parts hs := hs.map (·.body)
  bare hs := hs.map fun h => ⟨h.type, h.name, []⟩

/-- A statement that the blocks in it are taken out of. -/
def blocks : Layout Block Stmt where
  parts s := s.childBlocks
  bare
    | .define f => .define { f with body := [] }
    | .cond t _ _ => .cond t [] []
    | .forLoop t i _ _ => .forLoop t i [] []
    | .whileLoop t _ _ => .whileLoop t [] []
    | .tryBlock _ hs _ _ => .tryBlock [] (bodies.bare hs) [] []
    | s => s

end Layout

namespace Stmt

variable {p : Block → Nat → Bool}

theorem sitesHandlers_eq (hs : List Handler) :
    sitesHandlers p hs = (Layout.bodies.parts hs).flatMap (Block.sites p) := by
  induction hs with
  | nil => rfl
  | cons h hs ih =>
    rw [sitesHandlers, ih]
    rfl

/-- The positions in a statement are those of the blocks in it. -/
theorem sites_eq (s : Stmt) : s.sites p = s.childBlocks.flatMap (Block.sites p) := by
  cases s with
  | define | cond | forLoop | whileLoop => simp [sites, childBlocks, Block.sites]
  | tryBlock body hs orelse final =>
    simp only [sites, sitesHandlers_eq, Layout.bodies, childBlocks, Block.sites, List.flatMap_cons,
      List.flatMap_append, List.flatMap_nil, List.append_nil]
  | _ => rfl

theorem sitesFrom_append (block : Block) (ss ts : List Stmt) (i : Nat) :
    sitesFrom p block (ss ++ ts) i = sitesFrom p block ss i ++ sitesFrom p block ts (i + ss.length) := by
  induction ss generalizing i with
  | nil => rfl
  | cons s ss ih =>
    simp only [List.cons_append, sitesFrom, ih, List.append_assoc, List.length_cons, Nat.add_assoc,
      Nat.add_comm 1]

end Stmt

namespace Block

/-- A position, if it satisfies `p`. -/
def site (p : Block → Nat → Bool) (b : Block) (i : Nat) : List (Block × Nat) :=
  if p b i then [(b, i)] else []

/-- The rows `bs` and `bs'` of blocks are alike but for one block, which is `old` in the one and `new` in
the other. Its position `i` satisfies `p`, and as many positions before that one do as the number
says. -/
inductive Swapped (p : Block → Nat → Bool) (old : Block) (i : Nat) (new : Block) :
    Nat → List Block → List Block → Prop
  | here (hp : p old i = true) (before after : List Block) :
    Swapped p old i new
      (before.flatMap (sites p) ++ Stmt.sitesFrom p old (old.take i) 0).length
      (before ++ old :: after) (before ++ new :: after)
  | inside (before after : List Block) (front rest : Block) {s s' : Stmt}
    (hbare : Layout.blocks.bare s' = Layout.blocks.bare s) {k : Nat}
    (h : Swapped p old i new k s.childBlocks s'.childBlocks) :
    Swapped p old i new
      (k + (before.flatMap (sites p) ++ (Stmt.sitesFrom p (front ++ s :: rest) front 0 ++
        site p (front ++ s :: rest) front.length)).length)
      (before ++ (front ++ s :: rest) :: after) (before ++ (front ++ s' :: rest) :: after)

namespace Swapped

variable {p : Block → Nat → Bool} {old new : Block} {i k : Nat} {bs bs' : List Block}

theorem append (h : Swapped p old i new k bs bs') (after : List Block) :
    Swapped p old i new k (bs ++ after) (bs' ++ after) := by
  cases h with
  | here hp before after' =>
    rw [List.append_assoc, List.append_assoc]
    exact here hp before (after' ++ after)
  | inside before after' front rest hbare h =>
    rw [List.append_assoc, List.append_assoc]
    exact inside before (after' ++ after) front rest hbare h

theorem behind (h : Swapped p old i new k bs bs') (first : List Block) :
    Swapped p old i new (k + (first.flatMap (sites p)).length) (first ++ bs) (first ++ bs') := by
  cases h with
  | here hp before after =>
    rw [← List.append_assoc, ← List.append_assoc, Nat.add_comm, ← List.length_append,
      ← List.append_assoc, ← List.flatMap_append]
    exact here hp (first ++ before) after
  | inside before after front rest hbare h =>
    rw [← List.append_assoc first, ← List.append_assoc first, Nat.add_assoc,
      Nat.add_comm _ (first.flatMap (sites p)).length, ← List.length_append,
      ← List.append_assoc (first.flatMap _), ← List.flatMap_append]
    exact inside (first ++ before) after front rest hbare h

theorem holds (h : Swapped p old i new k bs bs') : p old i = true := by
  induction h with
  | here hp => exact hp
  | inside _ _ _ _ _ _ ih => exact ih

/-- Another block at some place makes another row. -/
theorem ne (h : Swapped p old i new k bs bs') (hne : new ≠ old) : bs' ≠ bs := by
  induction h with
  | here hp before after =>
    intro he
    exact hne (List.cons.inj (List.append_cancel_left he)).1
  | inside before after front rest hbare h ih =>
    intro he
    have hblock := (List.cons.inj (List.append_cancel_left he)).1
    exact ih (congrArg Stmt.childBlocks (List.cons.inj (List.append_cancel_left hblock)).1)

end Swapped

end Block

end Concord
