import Concord.Source.Cursor
import Concord.Proofs.Tree.Parts
import Concord.Tree.Literal

/-!
# Trees whose text reads back

Not every tree is read back from its printed text: text kept as written is not looked into, a tuple
nested in a target loses its parentheses, so does a tuple of one index, and `&` under `^` is written
as if it bound tighter. `Expr.Printable` rules these out, together with shapes that no reader gives
(an empty set display, a comparison without operators, a negative literal). The condition is local:
`Expr.Regular` looks at one node and the kinds of the nodes right below it.
-/

namespace Concord

open Source (keywords)

/-- A word that reads as a name wherever a name may stand. -/
def IsName (n : String) : Prop :=
  (∃ c cs, n.toList = c :: cs ∧ Identifier.isStart c = true ∧ cs.all Identifier.isContinue = true) ∧
    keywords.contains n = false ∧ n ≠ "await"

namespace Expr

/-- Whether the expression is a slice. -/
def isSlice : Expr → Bool
  | .slice _ _ _ => true
  | _ => false

/-- Whether the expression is an `&` operation. -/
def isBitAnd : Expr → Bool
  | .bin .bitAnd _ _ => true
  | _ => false

/-- An expression that may stand as an operand: no slice, no spread, no kept text. -/
def isPlain : Expr → Bool
  | .slice _ _ _ | .starred _ | .verbatim _ => false
  | .tuple items => items.all (!·.isSlice)
  | _ => true

/-- An element of a display: an operand, or one spread by an asterisk. -/
def isItem : Expr → Bool
  | .starred _ => true
  | e => e.isPlain

theorem isItem_cases {e : Expr} (h : e.isItem = true) : (∃ a, e = .starred a) ∨ e.isPlain = true := by
  cases e with
  | starred a => exact .inl ⟨a, rfl⟩
  | _ => exact .inr h

/-- One index of a subscript: an operand or a slice. -/
def isIndex (e : Expr) : Bool := e.isPlain || e.isSlice

/-- What stands between the brackets of a subscript: one index or several, but no tuple of one. -/
def isSubscript : Expr → Bool
  | .tuple [] => true
  | .tuple [_] => false
  | .tuple items => items.all fun i => i.isIndex
  | e => e.isIndex

/-- A name, an attribute or a subscript. -/
def isSimpleTarget : Expr → Bool
  | .name _ | .attribute _ _ | .subscript _ _ => true
  | _ => false

mutual

/-- A target that may stand inside another: a tuple may not, unless it is empty. -/
def isInnerTarget : Expr → Bool
  | .name _ | .attribute _ _ | .subscript _ _ | .tuple [] => true
  | .starred a => a.isSimpleTarget
  | .list items => areInnerTargets items
  | _ => false

/-- `isInnerTarget` along a list. -/
def areInnerTargets : List Expr → Bool
  | [] => true
  | e :: es => isInnerTarget e && areInnerTargets es

end

/-- A target of an assignment, a loop or a comprehension. -/
def isTarget : Expr → Bool
  | .tuple items => areInnerTargets items
  | e => e.isInnerTarget

end Expr

/-- A parameter as it is read: only an ordinary one has a default, and separators have no name. -/
def ParamOf.Regular (p : Param) : Prop :=
  match p.kind with
  | .regular => IsName p.name ∧ p.default.all (·.isPlain) = true
  | .varArgs | .kwArgs => IsName p.name ∧ p.default = none
  | .keywordOnly | .positionalOnly => p.name = "" ∧ p.default = none ∧ p.typeNote = none

/-- An argument as it is read. -/
def ArgOf.Regular (a : Arg) : Prop :=
  a.value.isPlain = true ∧ match a with
    | .keyword n _ => IsName n
    | _ => True

namespace Expr

/-- One node of a tree whose text reads back. -/
def Regular : Expr → Prop
  | .name n => IsName n
  | .int v => 0 ≤ v ∧ v ≤ Literal.maxInt
  | .float x => Literal.readFloat? (Literal.writeFloat x).toList = some x
  | .str lit => lit.raw = true → StrLit.fitsRaw lit.value.toList = true ∧ '\x00' ∉ lit.value.toList
  | .bool _ | .none => True
  | .bin o l r =>
    l.isPlain = true ∧ r.isPlain = true ∧
      (o = .bitXor → l.isBitAnd = false ∧ r.isBitAnd = false)
  | .unary _ a => a.isPlain = true
  | .logic _ l r => l.isPlain = true ∧ r.isPlain = true
  | .compare l links => l.isPlain = true ∧ links ≠ [] ∧ ∀ x ∈ links, x.2.isPlain = true
  | .call f args => f.isPlain = true ∧ ∀ a ∈ args, a.Regular
  | .attribute a n => a.isPlain = true ∧ IsName n
  | .subscript a i => a.isPlain = true ∧ i.isSubscript = true
  | .slice a b c =>
    a.all (·.isPlain) = true ∧ b.all (·.isPlain) = true ∧ c.all (·.isPlain) = true
  | .list items => ∀ i ∈ items, i.isItem = true
  | .tuple items => ∀ i ∈ items, i.isItem = true ∨ i.isSlice = true
  | .set items => items ≠ [] ∧ ∀ i ∈ items, i.isItem = true
  | .dict entries => ∀ x ∈ entries, x.1.isPlain = true ∧ x.2.isPlain = true
  | .comp kind e v clauses =>
    e.isPlain = true ∧ v.all (·.isPlain) = true ∧ v.isSome = (kind == .dict) ∧ clauses ≠ [] ∧
      ∀ c ∈ clauses, c.target.isTarget = true ∧ c.iter.isPlain = true ∧
        ∀ i ∈ c.ifs, i.isPlain = true
  | .ifExp t a b => t.isPlain = true ∧ a.isPlain = true ∧ b.isPlain = true
  | .lambda ps b => b.isPlain = true ∧ ∀ p ∈ ps, p.Regular ∧ p.typeNote = Option.none
  | .starred a => a.isPlain = true
  | .verbatim _ => False

/-- Every node of the expression is regular. -/
def Printable (e : Expr) : Prop := ∀ x ∈ e.subterms, x.Regular

attribute [local simp] subterms Regular

theorem Printable.regular {e : Expr} (h : e.Printable) : e.Regular := h e e.mem_subterms_self

/-! ## Printable parts -/

theorem regular_subtermsOption {o : Option Expr} :
    (∀ x ∈ subtermsOption o, x.Regular) ↔ ∀ e ∈ o, e.Printable := by
  cases o <;> simp [subtermsOption, Printable]

theorem regular_subtermsList {es : List Expr} :
    (∀ x ∈ subtermsList es, x.Regular) ↔ ∀ e ∈ es, e.Printable := by
  induction es with
  | nil => simp [subtermsList]
  | cons e es ih => simp only [subtermsList, List.forall_mem_append, ih, List.forall_mem_cons,
      Printable]

theorem regular_subtermsLinks {ls : List (CmpOp × Expr)} :
    (∀ x ∈ subtermsLinks ls, x.Regular) ↔ ∀ l ∈ ls, l.2.Printable := by
  induction ls with
  | nil => simp [subtermsLinks]
  | cons l ls ih =>
    obtain ⟨o, e⟩ := l
    simp only [subtermsLinks, List.forall_mem_append, ih, List.forall_mem_cons, Printable]

theorem regular_subtermsArgs {as : List Arg} :
    (∀ x ∈ subtermsArgs as, x.Regular) ↔ ∀ a ∈ as, a.value.Printable := by
  induction as with
  | nil => simp [subtermsArgs]
  | cons a as ih =>
    cases a <;> simp only [subtermsArgs, List.forall_mem_append, ih, List.forall_mem_cons,
      Printable, ArgOf.value]

theorem regular_subtermsEntries {es : List (Expr × Expr)} :
    (∀ x ∈ subtermsEntries es, x.Regular) ↔ ∀ e ∈ es, e.1.Printable ∧ e.2.Printable := by
  induction es with
  | nil => simp [subtermsEntries]
  | cons e es ih =>
    obtain ⟨k, v⟩ := e
    simp only [subtermsEntries, List.forall_mem_append, ih, List.forall_mem_cons, Printable,
      and_assoc]

theorem regular_subtermsClauses {cs : List Clause} :
    (∀ x ∈ subtermsClauses cs, x.Regular) ↔
      ∀ c ∈ cs, c.iter.Printable ∧ c.target.Printable ∧ ∀ e ∈ c.ifs, e.Printable := by
  induction cs with
  | nil => simp [subtermsClauses]
  | cons c cs ih =>
    obtain ⟨target, iter, ifs⟩ := c
    simp only [subtermsClauses, List.forall_mem_append, ih, List.forall_mem_cons,
      regular_subtermsList, Printable, and_assoc]

theorem regular_subtermsParams {ps : List Param} :
    (∀ x ∈ subtermsParams ps, x.Regular) ↔ ∀ p ∈ ps, ∀ e ∈ p.default, e.Printable := by
  induction ps with
  | nil => simp [subtermsParams]
  | cons p ps ih =>
    obtain ⟨name, kind, default, typeNote⟩ := p
    simp only [subtermsParams, List.forall_mem_append, ih, List.forall_mem_cons,
      regular_subtermsOption]

section Parts

variable {e a b c : Expr}

theorem printable_bin {o : BinOp} :
    (Expr.bin o a b).Printable ↔ (Expr.bin o a b).Regular ∧ a.Printable ∧ b.Printable := by
  simp only [Printable, subterms, List.forall_mem_cons, List.forall_mem_append]

theorem printable_unary {o : UnaryOp} :
    (Expr.unary o a).Printable ↔ a.isPlain = true ∧ a.Printable := by
  simp only [Printable, subterms, List.forall_mem_cons, Regular]

theorem printable_logic {o : BoolOp} :
    (Expr.logic o a b).Printable ↔
      (a.isPlain = true ∧ b.isPlain = true) ∧ a.Printable ∧ b.Printable := by
  simp only [Printable, subterms, List.forall_mem_cons, List.forall_mem_append, Regular]

theorem printable_compare {links : List (CmpOp × Expr)} :
    (Expr.compare a links).Printable ↔
      (Expr.compare a links).Regular ∧ a.Printable ∧ ∀ l ∈ links, l.2.Printable := by
  simp only [← regular_subtermsLinks]
  simp only [Printable, subterms, List.forall_mem_cons, List.forall_mem_append]

theorem printable_call {args : List Arg} :
    (Expr.call a args).Printable ↔
      (Expr.call a args).Regular ∧ a.Printable ∧ ∀ x ∈ args, x.value.Printable := by
  simp only [← regular_subtermsArgs]
  simp only [Printable, subterms, List.forall_mem_cons, List.forall_mem_append]

theorem printable_attribute {n : String} :
    (Expr.attribute a n).Printable ↔ (a.isPlain = true ∧ IsName n) ∧ a.Printable := by
  simp only [Printable, subterms, List.forall_mem_cons, Regular]

theorem printable_subscript :
    (Expr.subscript a b).Printable ↔
      (a.isPlain = true ∧ b.isSubscript = true) ∧ a.Printable ∧ b.Printable := by
  simp only [Printable, subterms, List.forall_mem_cons, List.forall_mem_append, Regular]

theorem printable_slice {x y z : Option Expr} :
    (Expr.slice x y z).Printable ↔ (Expr.slice x y z).Regular ∧
      (∀ e ∈ x, e.Printable) ∧ (∀ e ∈ y, e.Printable) ∧ ∀ e ∈ z, e.Printable := by
  simp only [← regular_subtermsOption]
  simp only [Printable, subterms, List.forall_mem_cons, List.forall_mem_append]

theorem printable_list {items : List Expr} :
    (Expr.list items).Printable ↔
      (∀ i ∈ items, i.isItem = true) ∧ ∀ i ∈ items, i.Printable := by
  simp only [← regular_subtermsList]
  simp only [Printable, subterms, List.forall_mem_cons, Regular]

theorem printable_tuple {items : List Expr} :
    (Expr.tuple items).Printable ↔
      (∀ i ∈ items, i.isItem = true ∨ i.isSlice = true) ∧ ∀ i ∈ items, i.Printable := by
  simp only [← regular_subtermsList]
  simp only [Printable, subterms, List.forall_mem_cons, Regular]

theorem printable_set {items : List Expr} :
    (Expr.set items).Printable ↔
      (items ≠ [] ∧ ∀ i ∈ items, i.isItem = true) ∧ ∀ i ∈ items, i.Printable := by
  simp only [← regular_subtermsList]
  simp only [Printable, subterms, List.forall_mem_cons, Regular]

theorem printable_dict {entries : List (Expr × Expr)} :
    (Expr.dict entries).Printable ↔ (Expr.dict entries).Regular ∧
      ∀ x ∈ entries, x.1.Printable ∧ x.2.Printable := by
  simp only [← regular_subtermsEntries]
  simp only [Printable, subterms, List.forall_mem_cons]

theorem printable_comp {kind : CompKind} {v : Option Expr} {clauses : List Clause} :
    (Expr.comp kind e v clauses).Printable ↔ (Expr.comp kind e v clauses).Regular ∧
      e.Printable ∧ (∀ x ∈ v, x.Printable) ∧
        ∀ c ∈ clauses, c.iter.Printable ∧ c.target.Printable ∧ ∀ i ∈ c.ifs, i.Printable := by
  simp only [← regular_subtermsOption, ← regular_subtermsClauses]
  simp only [Printable, subterms, List.forall_mem_cons, List.forall_mem_append]

theorem printable_ifExp :
    (Expr.ifExp a b c).Printable ↔ (a.isPlain = true ∧ b.isPlain = true ∧ c.isPlain = true) ∧
      a.Printable ∧ b.Printable ∧ c.Printable := by
  simp only [Printable, subterms, List.forall_mem_cons, List.forall_mem_append, Regular]

theorem printable_lambda {ps : List Param} :
    (Expr.lambda ps b).Printable ↔ (Expr.lambda ps b).Regular ∧
      (∀ p ∈ ps, ∀ e ∈ p.default, e.Printable) ∧ b.Printable := by
  simp only [← regular_subtermsParams]
  simp only [Printable, subterms, List.forall_mem_cons, List.forall_mem_append]

theorem printable_starred :
    (Expr.starred a).Printable ↔ a.isPlain = true ∧ a.Printable := by
  simp only [Printable, subterms, List.forall_mem_cons, Regular]

end Parts

end Expr

end Concord
