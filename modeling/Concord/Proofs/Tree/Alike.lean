import Concord.Tree.Basic
import Mathlib.Data.List.Forall2
import Mathlib.Data.List.Nodup

/-!
# Trees that are alike up to local names

Two programs that differ in the names of local variables only. The scopes around a position are listed
as ribs, the innermost first: a rib pairs the names that a scope binds in the first program with those
that it binds in the second. A name then means the same in both if the ribs pair it with the other, or
if both are spelled alike and no local variable has that name.

All names that local variables may have are collected in one list, `locals`. Around a position no name
is bound twice, so a variable that has no value yet is never mistaken for one of another scope.
-/

namespace Concord

/-- The names that a scope binds in two programs, in pairs. -/
abbrev Rib := List (String × String)

/-- The scopes around a position, innermost first. -/
abbrev Ribs := List Rib

namespace Ribs

/-- The names bound around a position in the first program. -/
def lefts (ρ : Ribs) : List String := ρ.flatten.map Prod.fst

/-- The names bound around a position in the second program. -/
def rights (ρ : Ribs) : List String := ρ.flatten.map Prod.snd

variable (locals : List String)

/-- A name of the first program means the same as a name of the second: both stand for one variable of
the scopes around, or for no local variable at all. -/
def Tied (ρ : Ribs) (a b : String) : Prop := (a, b) ∈ ρ.flatten ∨ a = b ∧ a ∉ locals

/-- No name is bound twice, and only names of local variables are bound. -/
structure Proper (ρ : Ribs) : Prop where
  lefts_nodup : ρ.lefts.Nodup
  rights_nodup : ρ.rights.Nodup
  lefts_local : ∀ n ∈ ρ.lefts, n ∈ locals
  rights_local : ∀ n ∈ ρ.rights, n ∈ locals

variable {locals} {ρ : Ribs} {a b a' b' : String}

theorem mem_lefts (h : (a, b) ∈ ρ.flatten) : a ∈ ρ.lefts := List.mem_map_of_mem h

theorem mem_rights (h : (a, b) ∈ ρ.flatten) : b ∈ ρ.rights := List.mem_map_of_mem h

theorem lefts_cons (r : Rib) (ρ : Ribs) : lefts (r :: ρ) = r.map Prod.fst ++ ρ.lefts := by
  rw [lefts, List.flatten_cons, List.map_append, ← lefts]

theorem rights_cons (r : Rib) (ρ : Ribs) : rights (r :: ρ) = r.map Prod.snd ++ ρ.rights := by
  rw [rights, List.flatten_cons, List.map_append, ← rights]

theorem mem_of_mem_tail {p : String × String} (h : p ∈ ρ.tail.flatten) : p ∈ ρ.flatten := by
  cases ρ with
  | nil => exact h
  | cons r ρ => exact List.mem_append_right _ h

theorem lefts_tail (ρ : Ribs) : ∀ n ∈ lefts ρ.tail, n ∈ ρ.lefts := by
  intro n hn
  obtain ⟨p, hp, rfl⟩ := List.mem_map.mp hn
  exact mem_lefts (mem_of_mem_tail hp)

theorem rights_tail (ρ : Ribs) : ∀ n ∈ rights ρ.tail, n ∈ ρ.rights := by
  intro n hn
  obtain ⟨p, hp, rfl⟩ := List.mem_map.mp hn
  exact mem_rights (mem_of_mem_tail hp)

theorem proper_nil : Proper locals [] where
  lefts_nodup := List.nodup_nil
  rights_nodup := List.nodup_nil
  lefts_local := nofun
  rights_local := nofun

namespace Proper

/-- Pairs do not overlap. -/
theorem pair_inj (h : Proper locals ρ) (hab : (a, b) ∈ ρ.flatten) (hab' : (a', b') ∈ ρ.flatten) :
    a = a' ↔ b = b' := by
  constructor
  · intro he
    exact congrArg Prod.snd (List.inj_on_of_nodup_map h.lefts_nodup hab hab' he)
  · intro he
    exact congrArg Prod.fst (List.inj_on_of_nodup_map h.rights_nodup hab hab' he)

end Proper

namespace Tied

/-- Names that are not local mean the same only if they are spelled alike. -/
theorem eq_of_left (h : Tied locals ρ a b) (hρ : Proper locals ρ) (ha : a ∉ locals) : a = b := by
  rcases h with h | h
  · exact absurd (hρ.lefts_local a (mem_lefts h)) ha
  · exact h.1

theorem eq_of_right (h : Tied locals ρ a b) (hρ : Proper locals ρ) (hb : b ∉ locals) : a = b := by
  rcases h with h | h
  · exact absurd (hρ.rights_local b (mem_rights h)) hb
  · exact h.1

/-- Meaning the same is one to one. -/
theorem inj (h : Tied locals ρ a b) (h' : Tied locals ρ a' b') (hρ : Proper locals ρ) :
    a = a' ↔ b = b' := by
  rcases h with h | ⟨rfl, ha⟩
  · rcases h' with h' | ⟨rfl, ha'⟩
    · exact hρ.pair_inj h h'
    · have hleft := hρ.lefts_local a (mem_lefts h)
      have hright := hρ.rights_local b (mem_rights h)
      exact ⟨fun he => absurd (he ▸ hleft) ha', fun he => absurd (he ▸ hright) ha'⟩
  · constructor
    · intro he
      exact he.trans (h'.eq_of_left hρ (he ▸ ha))
    · intro he
      exact he.trans (h'.eq_of_right hρ (he ▸ ha)).symm

/-- A name bound by the innermost scope means nothing outside; any other name means there what it means
inside. -/
theorem outside (h : Tied locals ρ a b) (hρ : Proper locals ρ) :
    Tied locals ρ.tail a b ∨ a ∈ locals ∧ a ∉ lefts ρ.tail ∧ b ∈ locals ∧ b ∉ rights ρ.tail := by
  cases ρ with
  | nil => exact .inl h
  | cons r ρ =>
    rcases h with h | h
    · rw [List.flatten_cons, List.mem_append] at h
      rcases h with h | h
      · right
        have hlefts := hρ.lefts_nodup
        have hrights := hρ.rights_nodup
        rw [lefts_cons] at hlefts
        rw [rights_cons] at hrights
        refine ⟨hρ.lefts_local a ?_, ?_, hρ.rights_local b ?_, ?_⟩
        · exact mem_lefts (List.mem_append_left _ h)
        · exact List.disjoint_of_nodup_append hlefts (List.mem_map_of_mem h)
        · exact mem_rights (List.mem_append_left _ h)
        · exact List.disjoint_of_nodup_append hrights (List.mem_map_of_mem h)
      · exact .inl (.inl h)
    · exact .inl (.inr h)

end Tied

end Ribs

/-! ## Expressions -/

/-- Parameters of the same kind, whose names, if they bind any, are a pair of the rib. -/
def Param.Paired (r : Rib) (p q : Param) : Prop :=
  p.kind = q.kind ∧ (p.kind.isSeparator = false → (p.name, q.name) ∈ r)

namespace Expr

variable (locals : List String)

mutual

/-- Expressions that are alike up to the names of the scopes around and of their own scopes. All parts
of a comprehension are taken in its scope, where they are evaluated. The names of keyword arguments are
never those of local variables. -/
inductive Alike : Ribs → Expr → Expr → Prop
  | name {ρ : Ribs} {a b : String} (h : ρ.Tied locals a b) : Alike ρ (.name a) (.name b)
  | int (ρ : Ribs) (v : Int) : Alike ρ (.int v) (.int v)
  | float (ρ : Ribs) (v : Float) : Alike ρ (.float v) (.float v)
  | str (ρ : Ribs) (lit : StrLit) : Alike ρ (.str lit) (.str lit)
  | bool (ρ : Ribs) (b : Bool) : Alike ρ (.bool b) (.bool b)
  | none (ρ : Ribs) : Alike ρ .none .none
  | verbatim (ρ : Ribs) (text : String) : Alike ρ (.verbatim text) (.verbatim text)
  | bin {ρ : Ribs} {op : BinOp} {l l' r r' : Expr} (hl : Alike ρ l l') (hr : Alike ρ r r') :
    Alike ρ (.bin op l r) (.bin op l' r')
  | unary {ρ : Ribs} {op : UnaryOp} {e e' : Expr} (h : Alike ρ e e') :
    Alike ρ (.unary op e) (.unary op e')
  | logic {ρ : Ribs} {op : BoolOp} {l l' r r' : Expr} (hl : Alike ρ l l') (hr : Alike ρ r r') :
    Alike ρ (.logic op l r) (.logic op l' r')
  | compare {ρ : Ribs} {l l' : Expr} {links links' : List (CmpOp × Expr)} (hl : Alike ρ l l')
    (hlinks : AlikeLinks ρ links links') : Alike ρ (.compare l links) (.compare l' links')
  | call {ρ : Ribs} {f f' : Expr} {args args' : List (ArgOf Expr)} (hf : Alike ρ f f')
    (hargs : AlikeArgs ρ args args') : Alike ρ (.call f args) (.call f' args')
  | attribute {ρ : Ribs} {e e' : Expr} {attr : String} (h : Alike ρ e e') :
    Alike ρ (.attribute e attr) (.attribute e' attr)
  | subscript {ρ : Ribs} {e e' i i' : Expr} (he : Alike ρ e e') (hi : Alike ρ i i') :
    Alike ρ (.subscript e i) (.subscript e' i')
  | slice {ρ : Ribs} {l l' u u' s s' : Option Expr} (hl : AlikeOption ρ l l')
    (hu : AlikeOption ρ u u') (hs : AlikeOption ρ s s') : Alike ρ (.slice l u s) (.slice l' u' s')
  | list {ρ : Ribs} {es es' : List Expr} (h : AlikeList ρ es es') : Alike ρ (.list es) (.list es')
  | tuple {ρ : Ribs} {es es' : List Expr} (h : AlikeList ρ es es') :
    Alike ρ (.tuple es) (.tuple es')
  | set {ρ : Ribs} {es es' : List Expr} (h : AlikeList ρ es es') : Alike ρ (.set es) (.set es')
  | dict {ρ : Ribs} {es es' : List (Expr × Expr)} (h : AlikeEntries ρ es es') :
    Alike ρ (.dict es) (.dict es')
  | comp {ρ : Ribs} {r : Rib} {kind : CompKind} {e e' : Expr} {v v' : Option Expr}
    {cs cs' : List (ClauseOf Expr)} (hr : Ribs.Proper locals (r :: ρ))
    (hcs : AlikeClauses (r :: ρ) cs cs') (he : Alike (r :: ρ) e e')
    (hv : AlikeOption (r :: ρ) v v') : Alike ρ (.comp kind e v cs) (.comp kind e' v' cs')
  | ifExp {ρ : Ribs} {t t' a a' b b' : Expr} (ht : Alike ρ t t') (ha : Alike ρ a a')
    (hb : Alike ρ b b') : Alike ρ (.ifExp t a b) (.ifExp t' a' b')
  | lambda {ρ : Ribs} {r : Rib} {ps ps' : List (ParamOf Expr)} {b b' : Expr}
    (hps : AlikeParams ρ ps ps') (hr : Ribs.Proper locals (r :: ρ))
    (hpaired : List.Forall₂ (Param.Paired r) ps ps') (hb : Alike (r :: ρ) b b') :
    Alike ρ (.lambda ps b) (.lambda ps' b')
  | starred {ρ : Ribs} {e e' : Expr} (h : Alike ρ e e') : Alike ρ (.starred e) (.starred e')

/-- `Alike` for expressions that may be missing. -/
inductive AlikeOption : Ribs → Option Expr → Option Expr → Prop
  | none (ρ : Ribs) : AlikeOption ρ .none .none
  | some {ρ : Ribs} {e e' : Expr} (h : Alike ρ e e') : AlikeOption ρ (.some e) (.some e')

/-- `Alike` along lists. -/
inductive AlikeList : Ribs → List Expr → List Expr → Prop
  | nil (ρ : Ribs) : AlikeList ρ [] []
  | cons {ρ : Ribs} {e e' : Expr} {es es' : List Expr} (h : Alike ρ e e')
    (hs : AlikeList ρ es es') : AlikeList ρ (e :: es) (e' :: es')

/-- `Alike` for the right operands of comparisons. -/
inductive AlikeLinks : Ribs → List (CmpOp × Expr) → List (CmpOp × Expr) → Prop
  | nil (ρ : Ribs) : AlikeLinks ρ [] []
  | cons {ρ : Ribs} {op : CmpOp} {e e' : Expr} {ls ls' : List (CmpOp × Expr)} (h : Alike ρ e e')
    (hs : AlikeLinks ρ ls ls') : AlikeLinks ρ ((op, e) :: ls) ((op, e') :: ls')

/-- `Alike` for arguments. -/
inductive AlikeArgs : Ribs → List (ArgOf Expr) → List (ArgOf Expr) → Prop
  | nil (ρ : Ribs) : AlikeArgs ρ [] []
  | positional {ρ : Ribs} {e e' : Expr} {as as' : List (ArgOf Expr)} (h : Alike ρ e e')
    (hs : AlikeArgs ρ as as') : AlikeArgs ρ (.positional e :: as) (.positional e' :: as')
  | keyword {ρ : Ribs} {n : String} {e e' : Expr} {as as' : List (ArgOf Expr)} (hn : n ∉ locals)
    (h : Alike ρ e e') (hs : AlikeArgs ρ as as') :
    AlikeArgs ρ (.keyword n e :: as) (.keyword n e' :: as')
  | star {ρ : Ribs} {e e' : Expr} {as as' : List (ArgOf Expr)} (h : Alike ρ e e')
    (hs : AlikeArgs ρ as as') : AlikeArgs ρ (.star e :: as) (.star e' :: as')
  | doubleStar {ρ : Ribs} {e e' : Expr} {as as' : List (ArgOf Expr)} (h : Alike ρ e e')
    (hs : AlikeArgs ρ as as') : AlikeArgs ρ (.doubleStar e :: as) (.doubleStar e' :: as')

/-- `Alike` for the entries of dictionary displays. -/
inductive AlikeEntries : Ribs → List (Expr × Expr) → List (Expr × Expr) → Prop
  | nil (ρ : Ribs) : AlikeEntries ρ [] []
  | cons {ρ : Ribs} {k k' v v' : Expr} {es es' : List (Expr × Expr)} (hk : Alike ρ k k')
    (hv : Alike ρ v v') (hs : AlikeEntries ρ es es') :
    AlikeEntries ρ ((k, v) :: es) ((k', v') :: es')

/-- `Alike` for the clauses of comprehensions. -/
inductive AlikeClauses : Ribs → List (ClauseOf Expr) → List (ClauseOf Expr) → Prop
  | nil (ρ : Ribs) : AlikeClauses ρ [] []
  | cons {ρ : Ribs} {t t' i i' : Expr} {ifs ifs' : List Expr} {cs cs' : List (ClauseOf Expr)}
    (hi : Alike ρ i i') (ht : Alike ρ t t') (hifs : AlikeList ρ ifs ifs')
    (hs : AlikeClauses ρ cs cs') : AlikeClauses ρ (⟨t, i, ifs⟩ :: cs) (⟨t', i', ifs'⟩ :: cs')

/-- `Alike` for parameter defaults. -/
inductive AlikeParams : Ribs → List (ParamOf Expr) → List (ParamOf Expr) → Prop
  | nil (ρ : Ribs) : AlikeParams ρ [] []
  | cons {ρ : Ribs} {n n' : String} {kind kind' : ParamKind} {d d' : Option Expr}
    {note note' : Option String} {ps ps' : List (ParamOf Expr)} (h : AlikeOption ρ d d')
    (hs : AlikeParams ρ ps ps') :
    AlikeParams ρ (⟨n, kind, d, note⟩ :: ps) (⟨n', kind', d', note'⟩ :: ps')

end

variable {locals} {ρ : Ribs} {es es' : List Expr}

theorem AlikeList.length_eq (h : AlikeList locals ρ es es') : es.length = es'.length := by
  induction es generalizing es' with
  | nil =>
    cases h
    rfl
  | cons e es ih =>
    cases h with
    | cons _ hs => rw [List.length_cons, List.length_cons, ih hs]

/-- Starred expressions are in the same places. -/
theorem AlikeList.starred_eq (h : AlikeList locals ρ es es') :
    es.any (· matches .starred _) = es'.any (· matches .starred _) := by
  induction es generalizing es' with
  | nil =>
    cases h
    rfl
  | cons e es ih =>
    cases h with
    | cons h hs =>
      rw [List.any_cons, List.any_cons, ih hs]
      cases h <;> rfl

end Expr

/-! ## Statements -/

namespace Stmt

variable (locals : List String)

mutual

/-- Statements that are alike up to the names of the scopes around and of their own scopes. Functions
have the same name in both programs, names that are declared global are those of no local variable, and
names that are declared nonlocal are bound outside the innermost scope. Handlers do not name the
exception. What is never evaluated does not matter. -/
inductive Alike : Ribs → Stmt → Stmt → Prop
  | define {ρ : Ribs} {r : Rib} {name : String} {ps ps' : List Param} {body body' : List Stmt}
    {ds ds' : List Expr} {returns returns' : Option String} {isAsync : Bool}
    (hname : ρ.Tied locals name name) (hds : ds.isEmpty = ds'.isEmpty)
    (hps : Expr.AlikeParams locals ρ ps ps') (hr : Ribs.Proper locals (r :: ρ))
    (hpaired : List.Forall₂ (Param.Paired r) ps ps') (hbody : AlikeList (r :: ρ) body body') :
    Alike ρ (.define ⟨name, ps, body, ds, returns, isAsync⟩)
      (.define ⟨name, ps', body', ds', returns', isAsync⟩)
  | ret {ρ : Ribs} {v v' : Option Expr} (h : Expr.AlikeOption locals ρ v v') :
    Alike ρ (.ret v) (.ret v')
  | assign {ρ : Ribs} {ts ts' : List Expr} {v v' : Expr} {note note' : Option String}
    (hts : Expr.AlikeList locals ρ ts ts') (hv : Expr.Alike locals ρ v v') :
    Alike ρ (.assign ts v note) (.assign ts' v' note')
  | augAssign {ρ : Ribs} {t t' : Expr} {op : BinOp} {v v' : Expr} (ht : Expr.Alike locals ρ t t')
    (hv : Expr.Alike locals ρ v v') : Alike ρ (.augAssign t op v) (.augAssign t' op v')
  | expr {ρ : Ribs} {e e' : Expr} (h : Expr.Alike locals ρ e e') : Alike ρ (.expr e) (.expr e')
  | cond {ρ : Ribs} {t t' : Expr} {body body' orelse orelse' : List Stmt}
    (ht : Expr.Alike locals ρ t t') (hbody : AlikeList ρ body body')
    (horelse : AlikeList ρ orelse orelse') : Alike ρ (.cond t body orelse) (.cond t' body' orelse')
  | forLoop {ρ : Ribs} {t t' i i' : Expr} {body body' orelse orelse' : List Stmt}
    (ht : Expr.Alike locals ρ t t') (hi : Expr.Alike locals ρ i i') (hbody : AlikeList ρ body body')
    (horelse : AlikeList ρ orelse orelse') :
    Alike ρ (.forLoop t i body orelse) (.forLoop t' i' body' orelse')
  | whileLoop {ρ : Ribs} {t t' : Expr} {body body' orelse orelse' : List Stmt}
    (ht : Expr.Alike locals ρ t t') (hbody : AlikeList ρ body body')
    (horelse : AlikeList ρ orelse orelse') :
    Alike ρ (.whileLoop t body orelse) (.whileLoop t' body' orelse')
  | tryBlock {ρ : Ribs} {body body' orelse orelse' final final' : List Stmt}
    {hs hs' : List (HandlerOf Stmt)} (hbody : AlikeList ρ body body') (hhs : AlikeHandlers ρ hs hs')
    (horelse : AlikeList ρ orelse orelse') (hfinal : AlikeList ρ final final') :
    Alike ρ (.tryBlock body hs orelse final) (.tryBlock body' hs' orelse' final')
  | raise {ρ : Ribs} {e e' c c' : Option Expr} (h : Expr.AlikeOption locals ρ e e') :
    Alike ρ (.raise e c) (.raise e' c')
  | assert {ρ : Ribs} {t t' : Expr} {m m' : Option Expr} (ht : Expr.Alike locals ρ t t')
    (hm : Expr.AlikeOption locals ρ m m') : Alike ρ (.assert t m) (.assert t' m')
  | importNames (ρ : Ribs) (ns ns' : List Alias) : Alike ρ (.importNames ns) (.importNames ns')
  | importFrom (ρ : Ribs) (source source' : String) (ns ns' : List Alias) :
    Alike ρ (.importFrom source ns) (.importFrom source' ns')
  | globals {ρ : Ribs} {ns : List String} (h : ∀ n ∈ ns, n ∉ locals) :
    Alike ρ (.globals ns) (.globals ns)
  | nonlocals {ρ : Ribs} {ns ns' : List String}
    (h : List.Forall₂ (fun n n' => (n, n') ∈ ρ.tail.flatten) ns ns') :
    Alike ρ (.nonlocals ns) (.nonlocals ns')
  | pass (ρ : Ribs) : Alike ρ .pass .pass
  | break (ρ : Ribs) : Alike ρ .break .break
  | continue (ρ : Ribs) : Alike ρ .continue .continue
  | verbatim (ρ : Ribs) (kind text : String) (binds : List String) :
    Alike ρ (.verbatim kind text binds) (.verbatim kind text binds)

/-- `Alike` along blocks. -/
inductive AlikeList : Ribs → List Stmt → List Stmt → Prop
  | nil (ρ : Ribs) : AlikeList ρ [] []
  | cons {ρ : Ribs} {s s' : Stmt} {ss ss' : List Stmt} (h : Alike ρ s s')
    (hs : AlikeList ρ ss ss') : AlikeList ρ (s :: ss) (s' :: ss')

/-- `Alike` for exception handlers. -/
inductive AlikeHandlers : Ribs → List (HandlerOf Stmt) → List (HandlerOf Stmt) → Prop
  | nil (ρ : Ribs) : AlikeHandlers ρ [] []
  | cons {ρ : Ribs} {type type' : Option Expr} {body body' : List Stmt}
    {hs hs' : List (HandlerOf Stmt)} (htype : Expr.AlikeOption locals ρ type type')
    (hbody : AlikeList ρ body body') (hhs : AlikeHandlers ρ hs hs') :
    AlikeHandlers ρ (⟨type, .none, body⟩ :: hs) (⟨type', .none, body'⟩ :: hs')

end

variable {locals}

theorem AlikeList.isEmpty_eq {ρ : Ribs} {b b' : List Stmt} (h : AlikeList locals ρ b b') :
    b.isEmpty = b'.isEmpty := by
  cases h <;> rfl

end Stmt

/-- Modules that are alike up to local names. -/
def Module.Alike (locals : List String) (m m' : Module) : Prop :=
  Stmt.AlikeList locals [] m.body m'.body

end Concord
