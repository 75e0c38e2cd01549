import Concord.Tree.Walk

/-!
# Editing a tree

`Expr.map` and `Stmt.map` rebuild a tree with every node changed; renaming and substitution are
instances. `Block.replaceNth` changes one expression and `Block.editNth` one position of a block,
each found by its number among the matches of a predicate in the order of `Concord.Tree.Walk`.
-/

namespace Concord

/-- What a search for one match of a predicate gives: the edited tree, or the number of matches
that are still to be passed by. -/
inductive Nth (α : Type) where
  | hit (result : α)
  | miss (left : Nat)

namespace Nth

variable {α β : Type}

/-- Change the edited tree. -/
def map (f : α → β) : Nth α → Nth β
  | .hit a => .hit (f a)
  | .miss k => .miss k

/-- Go on searching where the first search found nothing. -/
def orElse (x : Nth α) (next : Nat → Nth α) : Nth α :=
  match x with
  | .hit a => .hit a
  | .miss k => next k

/-- The edited tree, if the match was found. -/
def toOption : Nth α → Option α
  | .hit a => some a
  | .miss _ => none

end Nth

namespace Expr

section Map

variable (f : Expr → Expr)

mutual

/-- Rebuild an expression from the inside out, applying `f` to every node. -/
def map : Expr → Expr
  | .bin op l r => f (.bin op (map l) (map r))
  | .unary op a => f (.unary op (map a))
  | .logic op l r => f (.logic op (map l) (map r))
  | .compare l links => f (.compare (map l) (mapLinks links))
  | .call g args => f (.call (map g) (mapArgs args))
  | .attribute a n => f (.attribute (map a) n)
  | .subscript a i => f (.subscript (map a) (map i))
  | .slice a b c => f (.slice (mapOption a) (mapOption b) (mapOption c))
  | .list items => f (.list (mapList items))
  | .tuple items => f (.tuple (mapList items))
  | .set items => f (.set (mapList items))
  | .dict entries => f (.dict (mapEntries entries))
  | .comp k e v cs => f (.comp k (map e) (mapOption v) (mapClauses cs))
  | .ifExp t a b => f (.ifExp (map t) (map a) (map b))
  | .lambda ps b => f (.lambda (mapParams ps) (map b))
  | .starred a => f (.starred (map a))
  | .name n => f (.name n)
  | .int v => f (.int v)
  | .float v => f (.float v)
  | .str lit => f (.str lit)
  | .bool b => f (.bool b)
  | .none => f .none
  | .verbatim t => f (.verbatim t)

/-- `map` under an option. -/
def mapOption : Option Expr → Option Expr
  | Option.none => Option.none
  | some e => some (map e)

/-- `map` along a list. -/
def mapList : List Expr → List Expr
  | [] => []
  | e :: es => map e :: mapList es

/-- `map` on the right operands of a comparison. -/
def mapLinks : List (CmpOp × Expr) → List (CmpOp × Expr)
  | [] => []
  | (o, e) :: ls => (o, map e) :: mapLinks ls

/-- `map` on arguments. -/
def mapArgs : List (ArgOf Expr) → List (ArgOf Expr)
  | [] => []
  | .positional e :: as => .positional (map e) :: mapArgs as
  | .keyword n e :: as => .keyword n (map e) :: mapArgs as
  | .star e :: as => .star (map e) :: mapArgs as
  | .doubleStar e :: as => .doubleStar (map e) :: mapArgs as

/-- `map` on the entries of a dictionary display. -/
def mapEntries : List (Expr × Expr) → List (Expr × Expr)
  | [] => []
  | (k, v) :: es => (map k, map v) :: mapEntries es

/-- `map` on comprehension clauses. -/
def mapClauses : List (ClauseOf Expr) → List (ClauseOf Expr)
  | [] => []
  | ⟨target, iter, ifs⟩ :: cs => ⟨map target, map iter, mapList ifs⟩ :: mapClauses cs

/-- `map` on parameter defaults. -/
def mapParams : List (ParamOf Expr) → List (ParamOf Expr)
  | [] => []
  | ⟨n, k, default, a⟩ :: ps => ⟨n, k, mapOption default, a⟩ :: mapParams ps

end

end Map

/-- Replace every occurrence of the identifier `id` by `replacement`. The replacement is not
searched again. -/
def substitute (e : Expr) (id : String) (replacement : Expr) : Expr :=
  e.map fun
    | .name n => if n = id then replacement else .name n
    | e => e

section ReplaceNth

variable (p : Expr → Bool) (f : Expr → Expr)

/-- Apply `f` to `e` if it is the match numbered `k`, and otherwise look inside. -/
def atNth (e : Expr) (k : Nat) (inside : Nat → Nth Expr) : Nth Expr :=
  if p e then
    match k with
    | 0 => .hit (f e)
    | k + 1 => inside k
  else inside k

mutual

/-- Apply `f` to the match of `p` numbered `k` in the order of `subterms`. -/
def replaceNth : Expr → Nat → Nth Expr
  | .bin op l r, k => atNth p f (.bin op l r) k fun k =>
    ((replaceNth l k).map (.bin op · r)).orElse fun k => (replaceNth r k).map (.bin op l ·)
  | .unary op a, k => atNth p f (.unary op a) k fun k => (replaceNth a k).map (.unary op ·)
  | .logic op l r, k => atNth p f (.logic op l r) k fun k =>
    ((replaceNth l k).map (.logic op · r)).orElse fun k => (replaceNth r k).map (.logic op l ·)
  | .compare l links, k => atNth p f (.compare l links) k fun k =>
    ((replaceNth l k).map (.compare · links)).orElse fun k =>
      (replaceLinks links k).map (.compare l ·)
  | .call g args, k => atNth p f (.call g args) k fun k =>
    ((replaceNth g k).map (.call · args)).orElse fun k => (replaceArgs args k).map (.call g ·)
  | .attribute a n, k => atNth p f (.attribute a n) k fun k =>
    (replaceNth a k).map (.attribute · n)
  | .subscript a i, k => atNth p f (.subscript a i) k fun k =>
    ((replaceNth a k).map (.subscript · i)).orElse fun k => (replaceNth i k).map (.subscript a ·)
  | .slice a b c, k => atNth p f (.slice a b c) k fun k =>
    ((replaceOption a k).map (.slice · b c)).orElse fun k =>
      ((replaceOption b k).map (.slice a · c)).orElse fun k =>
        (replaceOption c k).map (.slice a b ·)
  | .list items, k => atNth p f (.list items) k fun k => (replaceList items k).map .list
  | .tuple items, k => atNth p f (.tuple items) k fun k => (replaceList items k).map .tuple
  | .set items, k => atNth p f (.set items) k fun k => (replaceList items k).map .set
  | .dict entries, k => atNth p f (.dict entries) k fun k =>
    (replaceEntries entries k).map .dict
  | .comp kind e v cs, k => atNth p f (.comp kind e v cs) k fun k =>
    ((replaceNth e k).map (.comp kind · v cs)).orElse fun k =>
      ((replaceOption v k).map (.comp kind e · cs)).orElse fun k =>
        (replaceClauses cs k).map (.comp kind e v ·)
  | .ifExp t a b, k => atNth p f (.ifExp t a b) k fun k =>
    ((replaceNth t k).map (.ifExp · a b)).orElse fun k =>
      ((replaceNth a k).map (.ifExp t · b)).orElse fun k => (replaceNth b k).map (.ifExp t a ·)
  | .lambda ps b, k => atNth p f (.lambda ps b) k fun k =>
    ((replaceParams ps k).map (.lambda · b)).orElse fun k => (replaceNth b k).map (.lambda ps ·)
  | .starred a, k => atNth p f (.starred a) k fun k => (replaceNth a k).map .starred
  | .name n, k => atNth p f (.name n) k .miss
  | .int v, k => atNth p f (.int v) k .miss
  | .float v, k => atNth p f (.float v) k .miss
  | .str lit, k => atNth p f (.str lit) k .miss
  | .bool b, k => atNth p f (.bool b) k .miss
  | .none, k => atNth p f .none k .miss
  | .verbatim t, k => atNth p f (.verbatim t) k .miss

/-- `replaceNth` under an option. -/
def replaceOption : Option Expr → Nat → Nth (Option Expr)
  | Option.none, k => .miss k
  | some e, k => (replaceNth e k).map some

/-- `replaceNth` along a list. -/
def replaceList : List Expr → Nat → Nth (List Expr)
  | [], k => .miss k
  | e :: es, k =>
    ((replaceNth e k).map (· :: es)).orElse fun k => (replaceList es k).map (e :: ·)

/-- `replaceNth` among the right operands of a comparison. -/
def replaceLinks : List (CmpOp × Expr) → Nat → Nth (List (CmpOp × Expr))
  | [], k => .miss k
  | (o, e) :: ls, k =>
    ((replaceNth e k).map fun e => (o, e) :: ls).orElse fun k => (replaceLinks ls k).map ((o, e) :: ·)

/-- `replaceNth` among arguments. -/
def replaceArgs : List (ArgOf Expr) → Nat → Nth (List (ArgOf Expr))
  | [], k => .miss k
  | .positional e :: as, k =>
    ((replaceNth e k).map (.positional · :: as)).orElse fun k =>
      (replaceArgs as k).map (.positional e :: ·)
  | .keyword n e :: as, k =>
    ((replaceNth e k).map (.keyword n · :: as)).orElse fun k =>
      (replaceArgs as k).map (.keyword n e :: ·)
  | .star e :: as, k =>
    ((replaceNth e k).map (.star · :: as)).orElse fun k => (replaceArgs as k).map (.star e :: ·)
  | .doubleStar e :: as, k =>
    ((replaceNth e k).map (.doubleStar · :: as)).orElse fun k =>
      (replaceArgs as k).map (.doubleStar e :: ·)

/-- `replaceNth` among the entries of a dictionary display. -/
def replaceEntries : List (Expr × Expr) → Nat → Nth (List (Expr × Expr))
  | [], k => .miss k
  | (x, v) :: es, k =>
    ((replaceNth x k).map fun x => (x, v) :: es).orElse fun k =>
      ((replaceNth v k).map fun v => (x, v) :: es).orElse fun k =>
        (replaceEntries es k).map ((x, v) :: ·)

/-- `replaceNth` among comprehension clauses. -/
def replaceClauses : List (ClauseOf Expr) → Nat → Nth (List (ClauseOf Expr))
  | [], k => .miss k
  | ⟨target, iter, ifs⟩ :: cs, k =>
    ((replaceNth iter k).map (⟨target, ·, ifs⟩ :: cs)).orElse fun k =>
      ((replaceNth target k).map (⟨·, iter, ifs⟩ :: cs)).orElse fun k =>
        ((replaceList ifs k).map (⟨target, iter, ·⟩ :: cs)).orElse fun k =>
          (replaceClauses cs k).map (⟨target, iter, ifs⟩ :: ·)

/-- `replaceNth` among parameter defaults. -/
def replaceParams : List (ParamOf Expr) → Nat → Nth (List (ParamOf Expr))
  | [], k => .miss k
  | ⟨n, kind, default, a⟩ :: ps, k =>
    ((replaceOption default k).map (⟨n, kind, ·, a⟩ :: ps)).orElse fun k =>
      (replaceParams ps k).map (⟨n, kind, default, a⟩ :: ·)

end

end ReplaceNth

end Expr

namespace Stmt

section Map

variable (g : Stmt → Stmt) (f : Expr → Expr)

mutual

/-- Rebuild a statement from the inside out, applying `g` to every statement and `f` to every
expression in it. -/
def map : Stmt → Stmt
  | .define ⟨name, params, body, decorators, returns, isAsync⟩ =>
    g (.define ⟨name, Expr.mapParams f params, mapList body, Expr.mapList f decorators, returns,
      isAsync⟩)
  | .ret v => g (.ret (Expr.mapOption f v))
  | .assign ts v a => g (.assign (Expr.mapList f ts) (v.map f) a)
  | .augAssign t op v => g (.augAssign (t.map f) op (v.map f))
  | .expr e => g (.expr (e.map f))
  | .cond t body orelse => g (.cond (t.map f) (mapList body) (mapList orelse))
  | .whileLoop t body orelse => g (.whileLoop (t.map f) (mapList body) (mapList orelse))
  | .forLoop t i body orelse => g (.forLoop (t.map f) (i.map f) (mapList body) (mapList orelse))
  | .tryBlock body hs orelse final =>
    g (.tryBlock (mapList body) (mapHandlers hs) (mapList orelse) (mapList final))
  | .raise e c => g (.raise (Expr.mapOption f e) (Expr.mapOption f c))
  | .assert t m => g (.assert (t.map f) (Expr.mapOption f m))
  | .importNames ns => g (.importNames ns)
  | .importFrom m ns => g (.importFrom m ns)
  | .globals ns => g (.globals ns)
  | .nonlocals ns => g (.nonlocals ns)
  | .pass => g .pass
  | .break => g .break
  | .continue => g .continue
  | .verbatim k t b => g (.verbatim k t b)

/-- `map` along a block. -/
def mapList : List Stmt → List Stmt
  | [] => []
  | s :: ss => map s :: mapList ss

/-- `map` on exception handlers. -/
def mapHandlers : List (HandlerOf Stmt) → List (HandlerOf Stmt)
  | [] => []
  | ⟨type, name, body⟩ :: hs => ⟨Expr.mapOption f type, name, mapList body⟩ :: mapHandlers hs

end

end Map

section ReplaceNth

variable (p : Expr → Bool) (f : Expr → Expr)

mutual

/-- Apply `f` to the expression numbered `k` among the matches of `p` in the order of `nodes`. -/
def replaceNth : Stmt → Nat → Nth Stmt
  | .define ⟨name, params, body, decorators, returns, isAsync⟩, k =>
    ((Expr.replaceList p f decorators k).map
      (.define ⟨name, params, body, ·, returns, isAsync⟩)).orElse fun k =>
    ((Expr.replaceParams p f params k).map
      (.define ⟨name, ·, body, decorators, returns, isAsync⟩)).orElse fun k =>
    (replaceList body k).map (.define ⟨name, params, ·, decorators, returns, isAsync⟩)
  | .ret v, k => (Expr.replaceOption p f v k).map .ret
  | .assign ts v a, k =>
    ((v.replaceNth p f k).map (.assign ts · a)).orElse fun k =>
      (Expr.replaceList p f ts k).map (.assign · v a)
  | .augAssign t op v, k =>
    ((t.replaceNth p f k).map (.augAssign · op v)).orElse fun k =>
      (v.replaceNth p f k).map (.augAssign t op ·)
  | .expr e, k => (e.replaceNth p f k).map .expr
  | .cond t body orelse, k =>
    ((t.replaceNth p f k).map (.cond · body orelse)).orElse fun k =>
      ((replaceList body k).map (.cond t · orelse)).orElse fun k =>
        (replaceList orelse k).map (.cond t body ·)
  | .whileLoop t body orelse, k =>
    ((t.replaceNth p f k).map (.whileLoop · body orelse)).orElse fun k =>
      ((replaceList body k).map (.whileLoop t · orelse)).orElse fun k =>
        (replaceList orelse k).map (.whileLoop t body ·)
  | .forLoop t i body orelse, k =>
    ((i.replaceNth p f k).map (.forLoop t · body orelse)).orElse fun k =>
      ((t.replaceNth p f k).map (.forLoop · i body orelse)).orElse fun k =>
        ((replaceList body k).map (.forLoop t i · orelse)).orElse fun k =>
          (replaceList orelse k).map (.forLoop t i body ·)
  | .tryBlock body hs orelse final, k =>
    ((replaceList body k).map (.tryBlock · hs orelse final)).orElse fun k =>
      ((replaceHandlers hs k).map (.tryBlock body · orelse final)).orElse fun k =>
        ((replaceList orelse k).map (.tryBlock body hs · final)).orElse fun k =>
          (replaceList final k).map (.tryBlock body hs orelse ·)
  | .raise e c, k =>
    ((Expr.replaceOption p f e k).map (.raise · c)).orElse fun k =>
      (Expr.replaceOption p f c k).map (.raise e ·)
  | .assert t m, k =>
    ((t.replaceNth p f k).map (.assert · m)).orElse fun k =>
      (Expr.replaceOption p f m k).map (.assert t ·)
  | .importNames _, k | .importFrom _ _, k | .globals _, k | .nonlocals _, k | .pass, k
  | .break, k | .continue, k | .verbatim _ _ _, k => .miss k

/-- `replaceNth` along a block. -/
def replaceList : List Stmt → Nat → Nth (List Stmt)
  | [], k => .miss k
  | s :: ss, k =>
    ((replaceNth s k).map (· :: ss)).orElse fun k => (replaceList ss k).map (s :: ·)

/-- `replaceNth` among exception handlers. -/
def replaceHandlers : List (HandlerOf Stmt) → Nat → Nth (List (HandlerOf Stmt))
  | [], k => .miss k
  | ⟨type, name, body⟩ :: hs, k =>
    ((Expr.replaceOption p f type k).map (⟨·, name, body⟩ :: hs)).orElse fun k =>
      ((replaceList body k).map (⟨type, name, ·⟩ :: hs)).orElse fun k =>
        (replaceHandlers hs k).map (⟨type, name, body⟩ :: ·)

end

end ReplaceNth

section Sites

variable (p : Block → Nat → Bool)

mutual

/-- The positions inside the blocks of a statement that satisfy `p`, each with its block. -/
def sites : Stmt → List (Block × Nat)
  | .define ⟨_, _, body, _, _, _⟩ => sitesFrom body body 0
  | .cond _ body orelse => sitesFrom body body 0 ++ sitesFrom orelse orelse 0
  | .forLoop _ _ body orelse => sitesFrom body body 0 ++ sitesFrom orelse orelse 0
  | .whileLoop _ body orelse => sitesFrom body body 0 ++ sitesFrom orelse orelse 0
  | .tryBlock body hs orelse final =>
    sitesFrom body body 0 ++
      (sitesHandlers hs ++ (sitesFrom orelse orelse 0 ++ sitesFrom final final 0))
  | .ret _ | .assign _ _ _ | .augAssign _ _ _ | .expr _ | .raise _ _ | .assert _ _
  | .importNames _ | .importFrom _ _ | .globals _ | .nonlocals _ | .pass | .break | .continue
  | .verbatim _ _ _ => []

/-- The positions of `block` from `i` on, where its rest `ss` starts: the position itself before
those inside its statement. -/
def sitesFrom (block : Block) : List Stmt → Nat → List (Block × Nat)
  | [], _ => []
  | s :: ss, i =>
    (if p block i then [(block, i)] else []) ++ (sites s ++ sitesFrom block ss (i + 1))

/-- `sites` in the bodies of exception handlers. -/
def sitesHandlers : List (HandlerOf Stmt) → List (Block × Nat)
  | [] => []
  | ⟨_, _, body⟩ :: hs => sitesFrom body body 0 ++ sitesHandlers hs

end

variable (edit : Block → Nat → Option Block)

/-- Apply `edit` at position `i` if it is the match numbered `k`, and otherwise look further. -/
def atNthSite (block : Block) (i k : Nat) (further : Nat → Nth (Option Block)) :
    Nth (Option Block) :=
  if p block i then
    match k with
    | 0 => .hit (edit block i)
    | k + 1 => further k
  else further k

mutual

/-- Apply `edit` to the position numbered `k` among `sites`; the result is missing when the edit
declines. -/
def editNth : Stmt → Nat → Nth (Option Stmt)
  | .define ⟨name, params, body, decorators, returns, isAsync⟩, k =>
    (editFrom body body 0 k).map
      (Option.map (.define ⟨name, params, ·, decorators, returns, isAsync⟩))
  | .cond t body orelse, k =>
    ((editFrom body body 0 k).map (Option.map (.cond t · orelse))).orElse fun k =>
      (editFrom orelse orelse 0 k).map (Option.map (.cond t body ·))
  | .forLoop t i body orelse, k =>
    ((editFrom body body 0 k).map (Option.map (.forLoop t i · orelse))).orElse fun k =>
      (editFrom orelse orelse 0 k).map (Option.map (.forLoop t i body ·))
  | .whileLoop t body orelse, k =>
    ((editFrom body body 0 k).map (Option.map (.whileLoop t · orelse))).orElse fun k =>
      (editFrom orelse orelse 0 k).map (Option.map (.whileLoop t body ·))
  | .tryBlock body hs orelse final, k =>
    ((editFrom body body 0 k).map (Option.map (.tryBlock · hs orelse final))).orElse fun k =>
      ((editHandlers hs k).map (Option.map (.tryBlock body · orelse final))).orElse fun k =>
        ((editFrom orelse orelse 0 k).map (Option.map (.tryBlock body hs · final))).orElse fun k =>
          (editFrom final final 0 k).map (Option.map (.tryBlock body hs orelse ·))
  | .ret _, k | .assign _ _ _, k | .augAssign _ _ _, k | .expr _, k | .raise _ _, k
  | .assert _ _, k | .importNames _, k | .importFrom _ _, k | .globals _, k | .nonlocals _, k
  | .pass, k | .break, k | .continue, k | .verbatim _ _ _, k => .miss k

/-- `editNth` at the positions of `block` from `i` on, where its rest `ss` starts. -/
def editFrom (block : Block) : List Stmt → Nat → Nat → Nth (Option Block)
  | [], _, k => .miss k
  | s :: ss, i, k => atNthSite p edit block i k fun k =>
    ((editNth s k).map (Option.map (block.set i ·))).orElse fun k =>
      editFrom block ss (i + 1) k

/-- `editNth` in the bodies of exception handlers. -/
def editHandlers : List (HandlerOf Stmt) → Nat → Nth (Option (List (HandlerOf Stmt)))
  | [], k => .miss k
  | ⟨type, name, body⟩ :: hs, k =>
    ((editFrom body body 0 k).map (Option.map (⟨type, name, ·⟩ :: hs))).orElse fun k =>
      (editHandlers hs k).map (Option.map (⟨type, name, body⟩ :: ·))

end

end Sites

end Stmt

namespace Block

/-- Apply `f` to the expression numbered `k` among those of a block that satisfy `p`; `none` when
there are not that many. -/
def replaceNth? (p : Expr → Bool) (f : Expr → Expr) (b : Block) (k : Nat) : Option Block :=
  (Stmt.replaceList p f b k).toOption

/-- The positions of a block and of the blocks nested in it that satisfy `p`, in pre-order. -/
def sites (p : Block → Nat → Bool) (b : Block) : List (Block × Nat) := Stmt.sitesFrom p b b 0

/-- Apply `edit` to the position numbered `k` among `sites`; `none` when there are not that many or
the edit declines. -/
def editNth? (p : Block → Nat → Bool) (edit : Block → Nat → Option Block) (b : Block) (k : Nat) :
    Option Block :=
  (Stmt.editFrom p edit b b 0 k).toOption.join

end Block

/-! ### Renaming -/

/-- The name `n` after renaming `source` to `target`. -/
def renamed (source target n : String) : String := if n = source then target else n

/-- Rename the parameter itself, not its default. -/
def ParamOf.rename {ε : Type} (source target : String) (p : ParamOf ε) : ParamOf ε :=
  { p with name := renamed source target p.name }

/-- Rename the name of a handler, not what is inside it. -/
def HandlerOf.rename {σ : Type} (source target : String) (h : HandlerOf σ) : HandlerOf σ :=
  { h with name := h.name.map (renamed source target) }

/-- Rename a name, or the parameters of a lambda. -/
def Expr.renameNode (source target : String) : Expr → Expr
  | .name n => .name (renamed source target n)
  | .lambda ps b => .lambda (ps.map (·.rename source target)) b
  | e => e

/-- Rename the names that a statement itself binds or declares. -/
def Stmt.renameNode (source target : String) : Stmt → Stmt
  | .define f =>
    .define { f with
      name := renamed source target f.name
      params := f.params.map (·.rename source target) }
  | .globals ns => .globals (ns.map (renamed source target))
  | .nonlocals ns => .nonlocals (ns.map (renamed source target))
  | .tryBlock body hs orelse final =>
    .tryBlock body (hs.map (·.rename source target)) orelse final
  | s => s

/-- Rename an identifier throughout a block: names, parameters, nested functions, handler names and
declarations. -/
def Block.rename (source target : String) (b : Block) : Block :=
  Stmt.mapList (Stmt.renameNode source target) (Expr.renameNode source target) b

end Concord
