import Concord.Proofs.Idiom.Expression
import Concord.Proofs.Tree.Parts

/-!
# Idioms of statements on normal forms

An idiom of statements compares names: the target of an assignment with the names in the next return, an
accumulator with the names in its loop, an index and a sequence with the names in the body. In a normal
form the comparison has the same result if no lambda, comprehension or nested function inside binds the
name anew (`Idiom.Clear`), as scopes tell all other names apart.

Main statements: `Idiom.isReturnChain_stmtList` and `Idiom.isPrint_stmtList`, and
`Idiom.seesBlockShape_of_mem` for the idioms of statements that do not compare names.
-/

namespace Concord

open Normal Scopes

/-! ## Names that are not bound anew -/

namespace Node

/-- The left operands of products. -/
def factors : Node → List Expr
  | .expr (.bin .mul l _) => [l]
  | _ => []

/-- Names, each with a block that reads it as it is read around it: the locals of a nested function with its
body, and the sequence whose indices a loop goes through with the body of the loop. -/
def constants : Node → List (String × Block)
  | .stmt (.define f) => (Stmt.boundList false f.body).map (·, f.body)
  | .stmt (.forLoop _ iter body _) => (Idiom.rangeOfLength? iter).toList.map (·, body)
  | _ => []

/-- Names do not mislead at a part of a tree: none is spelled like a placeholder, no scope binds a function
that idioms ask for by name, no operand without calls that is multiplied opens a scope, and no scope binds
a local of the function around it or a sequence whose indices are gone through. -/
structure Lucid (x : Node) : Prop where
  plain : ∀ n ∈ x.mentioned ++ x.imported ++ x.opened, isReserved n = false
  callees : ∀ n ∈ x.opened, n ∉ Idiom.callees
  factors : ∀ l ∈ x.factors, l.isPure = true → Idiom.introducesScope l = false
  constants : ∀ c ∈ x.constants, ∀ y ∈ Stmt.nodesList c.2, c.1 ∉ y.opened

instance (x : Node) : Decidable x.Lucid :=
  decidable_of_iff
    ((∀ n ∈ x.mentioned ++ x.imported ++ x.opened, isReserved n = false) ∧
      (∀ n ∈ x.opened, n ∉ Idiom.callees) ∧
      (∀ l ∈ x.factors, l.isPure = true → Idiom.introducesScope l = false) ∧
      ∀ c ∈ x.constants, ∀ y ∈ Stmt.nodesList c.2, c.1 ∉ y.opened)
    ⟨fun ⟨h₁, h₂, h₃, h₄⟩ => ⟨h₁, h₂, h₃, h₄⟩, fun h => ⟨h.plain, h.callees, h.factors, h.constants⟩⟩

end Node

namespace Idiom

variable {S : Scopes} {k j : Nat} {n acc : String}

/-- No part in a list binds the name anew, and none mentions a name that is spelled like a placeholder. -/
def Apart (n : String) (xs : List Node) : Prop :=
  ∀ x ∈ xs, (∀ m ∈ x.mentioned, isReserved m = false) ∧ n ∉ x.opened

theorem Apart.mono {xs ys : List Node} (h : Apart n ys) (hsub : xs ⊆ ys) : Apart n xs :=
  fun x hx => h x (hsub hx)

/-- Parts at which names do not mislead, and names that none of them binds anew. -/
structure ClearIn (xs : List Node) (ns : List String) : Prop where
  lucid : ∀ x ∈ xs, x.Lucid
  locals : ∀ n ∈ ns, ∀ x ∈ xs, n ∉ x.opened

theorem ClearIn.mono {xs ys : List Node} {ms ns : List String} (h : ClearIn ys ns) (hxs : xs ⊆ ys)
    (hms : ms ⊆ ns) : ClearIn xs ms where
  lucid x hx := h.lucid x (hxs hx)
  locals n hn x hx := h.locals n (hms hn) x (hxs hx)

/-- A block whose own names are not bound anew inside. -/
abbrev Clear (b : Block) : Prop := ClearIn (Stmt.nodesList b) (Stmt.boundList false b)

theorem Clear.apart {b : Block} (h : Clear b) (hn : n ∈ Stmt.boundList false b) :
    Apart n (Stmt.nodesList b) := by
  intro x hx
  refine ⟨fun m hm => (h.lucid x hx).plain m ?_, h.locals n hn x hx⟩
  exact List.mem_append_left _ (List.mem_append_left _ hm)

/-! ## Names in the normal form of an expression -/

theorem isName_seen {e e' : Expr} {spared : List String} (hmem : n ∈ spared) (hn : isReserved n = false)
    (he : ∀ m ∈ (Node.expr e).mentioned, isReserved m = false) (h : Seen S spared e e') :
    e'.isName (S.rename n) = e.isName n := by
  obtain ⟨R, k, hR, rfl⟩ := h
  cases e with
  | name m =>
    show (R.rename m == S.rename n) = (m == n)
    rw [Bool.eq_iff_iff, beq_iff_eq, beq_iff_eq]
    exact hR.rename_eq_iff hmem hn (he m List.mem_cons_self)
  | comp kind e v cs => cases cs <;> rfl
  | _ => rfl

theorem subterms_apart {e : Expr} (hS : Placeholders.Between 0 k S.flatten)
    (h : Apart n (Stmt.exprNodes e.subterms)) :
    List.Forall₂ (fun x x' => (∀ m ∈ (Node.expr x).mentioned, isReserved m = false) ∧ Seen S [n] x x')
      e.subterms (expr S e k).1.subterms := by
  have hsub := List.forall_mem_map.mp h
  rw [List.forall₂_and_left]
  refine ⟨fun x hx => (hsub x hx).1, subterms_seen e (fun x hx m hm => ?_) (Within.refl hS [n])⟩
  rw [List.mem_singleton]
  rintro rfl
  exact (hsub x hx).2 hm

theorem contains_eq_any (ns : List Expr) (n : String) :
    (ns.filterMap Expr.asName?).contains n = ns.any (·.isName n) := by
  induction ns with
  | nil => rfl
  | cons e es ih =>
    cases e with
    | name m =>
      rw [List.filterMap_cons_some (by rfl : Expr.asName? (.name m) = some m), List.contains_cons, ih]
      rw [List.any_cons, Expr.isName, BEq.comm]
    | _ => exact ih

/-- Whether an expression mentions a name. -/
theorem contains_expr {e : Expr} (hS : Placeholders.Between 0 k S.flatten) (hn : isReserved n = false)
    (h : Apart n (Stmt.exprNodes e.subterms)) :
    (expr S e k).1.nameOccurrences.contains (S.rename n) = e.nameOccurrences.contains n := by
  unfold Expr.nameOccurrences
  rw [contains_eq_any, contains_eq_any]
  exact any_eq_of_forall₂ (subterms_apart hS h) fun _ _ hx => isName_seen List.mem_cons_self hn hx.1 hx.2

theorem length_filter_eq_of_forall₂ {α β : Type} {r : α → β → Prop} {p : α → Bool} {q : β → Bool}
    {xs : List α} {ys : List β} (h : List.Forall₂ r xs ys) (hr : ∀ x y, r x y → q y = p x) :
    (ys.filter q).length = (xs.filter p).length := by
  induction h with
  | nil => rfl
  | @cons x y _ _ hxy _ ih =>
    rw [List.filter_cons, List.filter_cons, hr _ _ hxy]
    cases p x with
    | false => exact ih
    | true => exact congrArg (· + 1) ih

/-- How often an expression mentions a name. -/
theorem countName_expr {e : Expr} (hS : Placeholders.Between 0 k S.flatten) (hn : isReserved n = false)
    (h : Apart n (Stmt.exprNodes e.subterms)) :
    (expr S e k).1.countName (S.rename n) = e.countName n :=
  length_filter_eq_of_forall₂ (subterms_apart hS h) fun _ _ hx => isName_seen List.mem_cons_self hn hx.1 hx.2

/-- Whether an expression is a name. -/
theorem isName_expr {e : Expr} (hS : Placeholders.Between 0 k S.flatten) (hn : isReserved n = false)
    (he : ∀ m ∈ (Node.expr e).mentioned, isReserved m = false) :
    (expr S e k).1.isName (S.rename n) = e.isName n :=
  isName_seen List.mem_cons_self hn he ⟨S, k, Within.refl hS [n], rfl⟩

/-! ## Statements of a normal form -/

/-- The statement at a position. -/
theorem getElem?_stmtList (S : Scopes) (b : Block) (i k : Nat) :
    ∃ j, k ≤ j ∧ (stmtList S b k).1[i]? = b[i]?.map fun s => (stmt S s j).1 := by
  induction b generalizing i k with
  | nil => exact ⟨k, Nat.le_refl k, rfl⟩
  | cons s ss ih =>
    cases i with
    | zero => exact ⟨k, Nat.le_refl k, rfl⟩
    | succ i =>
      obtain ⟨j, hj, he⟩ := ih i (stmt S s k).2
      exact ⟨j, Nat.le_trans (le_stmt s S k) hj, he⟩

/-- A normal form of a statement. -/
def IsStmtForm (S : Scopes) (s s' : Stmt) : Prop :=
  ∃ k, Placeholders.Between 0 k S.flatten ∧ s' = (stmt S s k).1

theorem forall₂_stmtList (hS : Placeholders.Between 0 k S.flatten) (b : Block) :
    List.Forall₂ (IsStmtForm S) b (stmtList S b k).1 := by
  induction b generalizing k with
  | nil => exact .nil
  | cons s ss ih => exact .cons ⟨k, hS, rfl⟩ (ih ((Within.refl hS []).stmt s).sound)

theorem asNameAssign?_stmt (S : Scopes) (s : Stmt) (k : Nat) :
    (stmt S s k).1.asNameAssign? = s.asNameAssign?.map fun (n, v) => (S.rename n, (expr S v k).1) := by
  cases s with
  | assign ts v a =>
    match ts with
    | [] => rfl
    | [t] =>
      cases t with
      | name n => cases a <;> rfl
      | comp kind e v cs => cases cs <;> rfl
      | _ => rfl
    | t :: _ :: _ =>
      cases t with
      | comp kind e v cs => cases cs <;> rfl
      | _ => rfl
  | _ => rfl

/-- What an assignment to a name mentions. -/
theorem mem_of_asNameAssign? {s : Stmt} {v : Expr} (h : s.asNameAssign? = some (n, v)) :
    n ∈ Stmt.bound false s ∧ Node.expr (.name n) ∈ s.nodes ∧ Stmt.exprNodes v.subterms ⊆ s.nodes := by
  cases s with
  | assign ts w a =>
    match ts, a, h with
    | [.name m], none, h =>
      obtain ⟨rfl, rfl⟩ := Prod.mk.inj (Option.some.inj h)
      refine ⟨by simp [Stmt.bound, Expr.targetNamesList, Expr.targetNames], ?_, ?_⟩
      · simp [Stmt.nodes, Stmt.exprNodes, Expr.subtermsList, Expr.subterms]
      · intro x hx
        rw [Stmt.nodes, Stmt.exprNodes, List.map_append]
        exact List.mem_cons_of_mem _ (List.mem_append_left _ hx)
  | _ => cases h

/-! ## Idioms that see the shape -/

/-- An idiom of statements that does not depend on names. -/
def SeesBlockShape (p : Block → Nat → Bool) : Prop :=
  ∀ (S : Scopes) (b : Block) (k i : Nat), p (stmtList S b k).1 i = p b i

theorem isEmpty_stmtList (S : Scopes) (b : Block) (k : Nat) : (stmtList S b k).1.isEmpty = b.isEmpty := by
  cases b <;> rfl

theorem returnsValue_stmtList (S : Scopes) (b : Block) (k : Nat) :
    returnsValue (stmtList S b k).1 = returnsValue b := by
  match b with
  | [] => rfl
  | [s] =>
    cases s with
    | ret v => cases v <;> rfl
    | _ => rfl
  | s :: _ :: _ =>
    cases s with
    | ret v => cases v <;> rfl
    | _ => rfl

theorem isTerminal_stmt (S : Scopes) (s : Stmt) (k : Nat) : (stmt S s k).1.isTerminal = s.isTerminal := by
  cases s <;> rfl

theorem endsBlock_stmtList (S : Scopes) (b : Block) (k : Nat) :
    (stmtList S b k).1.getLast?.any Stmt.isTerminal = b.getLast?.any Stmt.isTerminal := by
  induction b generalizing k with
  | nil => rfl
  | cons s ss ih =>
    cases ss with
    | nil => exact isTerminal_stmt S s k
    | cons t ts => exact ih (stmt S s k).2

theorem isIfElseReturn_stmtList : SeesBlockShape isIfElseReturn := by
  intro S b k i
  obtain ⟨j, -, hi⟩ := getElem?_stmtList S b i k
  obtain ⟨j', -, hnext⟩ := getElem?_stmtList S b (i + 1) k
  unfold isIfElseReturn
  rw [hi, hnext]
  cases b[i]? with
  | none => rfl
  | some s =>
    cases s with
    | cond t body orelse =>
      show (returnsValue (stmtList S body (expr S t j).2).1 &&
        if (stmtList S orelse _).1.isEmpty then _ else returnsValue (stmtList S orelse _).1) = _
      rw [returnsValue_stmtList, isEmpty_stmtList, returnsValue_stmtList]
      rcases b[i + 1]? with _ | s
      · rfl
      · cases s with
        | ret v => cases v <;> rfl
        | _ => rfl
    | _ => rfl

theorem isReturnConditional_stmtList : SeesBlockShape isReturnConditional := by
  intro S b k i
  obtain ⟨j, -, hi⟩ := getElem?_stmtList S b i k
  unfold isReturnConditional
  rw [hi]
  rcases b[i]? with _ | s
  · rfl
  · cases s with
    | ret v =>
      rcases v with _ | e
      · rfl
      · cases e with
        | comp kind e v cs => cases cs <;> rfl
        | _ => rfl
    | _ => rfl

theorem isElseAfterReturn_stmtList : SeesBlockShape isElseAfterReturn := by
  intro S b k i
  obtain ⟨j, -, hi⟩ := getElem?_stmtList S b i k
  unfold isElseAfterReturn
  rw [hi]
  rcases b[i]? with _ | s
  · rfl
  · cases s with
    | cond t body orelse =>
      show (!(stmtList S orelse _).1.isEmpty && (stmtList S body _).1.getLast?.any Stmt.isTerminal) = _
      rw [isEmpty_stmtList, endsBlock_stmtList]
    | _ => rfl

/-- The idioms of statements that do not depend on names. -/
def blockShapes : List (Block → Nat → Bool) := [isIfElseReturn, isReturnConditional, isElseAfterReturn]

theorem seesBlockShape_of_mem {p : Block → Nat → Bool} (h : p ∈ blockShapes) : SeesBlockShape p := by
  simp only [blockShapes, List.mem_cons, List.not_mem_nil, or_false] at h
  rcases h with rfl | rfl | rfl
  · exact isIfElseReturn_stmtList
  · exact isReturnConditional_stmtList
  · exact isElseAfterReturn_stmtList

/-! ## Printing -/

/-- An idiom of statements that compares names. -/
def SeesBlock (p : Block → Nat → Bool) : Prop :=
  ∀ {S : Scopes} {k : Nat}, Within [] callees S k → ∀ b, Clear b → ∀ i, p (stmtList S b k).1 i = p b i

theorem isPrint_stmtList : SeesBlock isPrint := by
  intro S k hS b _ i
  obtain ⟨j, -, hi⟩ := getElem?_stmtList S b i k
  unfold isPrint
  rw [hi]
  rcases b[i]? with _ | s
  · rfl
  · cases s with
    | expr e =>
      cases e with
      | call g args => exact isName_callee hS (by decide) g j
      | comp kind e v cs => cases cs <;> rfl
      | _ => rfl
    | _ => rfl

/-! ## Chains of assignments -/

/-- An expression that opens no scope binds no name anew. -/
theorem apart_of_level {e : Expr} (he : Unreserved e) (hlevel : Level e.subterms) :
    Apart n (Stmt.exprNodes e.subterms) := by
  refine List.forall_mem_map.mpr fun x hx => ⟨he x hx, ?_⟩
  have hopens := hlevel x hx
  cases x with
  | lambda _ _ | comp _ _ _ _ => cases hopens
  | _ => exact List.not_mem_nil

theorem isInlinable_expr {e : Expr} (hS : Placeholders.Between 0 k S.flatten) (hn : isReserved n = false)
    (he : Unreserved e) : isInlinable (expr S e k).1 (S.rename n) = isInlinable e n := by
  unfold isInlinable
  rw [introducesScope_expr hS, isCallFree_expr hS]
  cases hscope : introducesScope e with
  | true => simp only [Bool.not_true, Bool.and_false, Bool.false_and]
  | false =>
    have hlevel : Level e.subterms := by
      rw [introducesScope_eq] at hscope
      exact fun x hx => Bool.eq_false_iff.mpr (List.any_eq_false.mp hscope x hx)
    rw [countName_expr hS hn (apart_of_level he hlevel), isName_expr hS hn (he e e.mem_subterms_self)]

/-- A statement whose names are not spelled like placeholders, and a normal form of it. -/
def IsPlainForm (S : Scopes) (s s' : Stmt) : Prop :=
  (∀ x ∈ s.nodes, ∀ m ∈ x.mentioned, isReserved m = false) ∧ IsStmtForm S s s'

theorem mem_nodesList {b : Block} {s : Stmt} (hs : s ∈ b) : s.nodes ⊆ Stmt.nodesList b := by
  induction hs with
  | head ss => exact List.subset_append_left _ _
  | tail t _ ih => exact List.Subset.trans ih (List.subset_append_right _ _)

theorem forall₂_plain {b : Block} (hS : Placeholders.Between 0 k S.flatten) (h : Clear b) :
    List.Forall₂ (IsPlainForm S) b (stmtList S b k).1 := by
  refine (List.forall₂_and_left b _).mpr ⟨fun s hs x hx m hm => ?_, forall₂_stmtList hS b⟩
  refine (h.lucid x (mem_nodesList hs hx)).plain m ?_
  exact List.mem_append_left _ (List.mem_append_left _ hm)

/-- The value that a plain statement assigns, and the name. -/
theorem IsPlainForm.asNameAssign? {s s' : Stmt} (h : IsPlainForm S s s') :
    (s.asNameAssign? = none ∧ s'.asNameAssign? = none) ∨
      ∃ m v k, s.asNameAssign? = some (m, v) ∧ s'.asNameAssign? = some (S.rename m, (expr S v k).1) ∧
        Placeholders.Between 0 k S.flatten ∧ isReserved m = false ∧ Unreserved v := by
  obtain ⟨hplain, k, hS, rfl⟩ := h
  rw [asNameAssign?_stmt]
  cases hs : s.asNameAssign? with
  | none => exact .inl ⟨rfl, rfl⟩
  | some assigned =>
    obtain ⟨m, v⟩ := assigned
    obtain ⟨-, hm, hv⟩ := mem_of_asNameAssign? hs
    refine .inr ⟨m, v, k, rfl, rfl, hS, hplain _ hm m List.mem_cons_self, fun x hx => ?_⟩
    exact hplain _ (hv (List.mem_map_of_mem hx))

theorem furtherLinks_forms {before before' : Block} (hn : isReserved n = false)
    (h : List.Forall₂ (IsPlainForm S) before before') :
    furtherLinks (S.rename n) before' = furtherLinks n before := by
  induction h with
  | nil => rfl
  | cons hlater hrest ih =>
    cases hrest with
    | nil => rfl
    | cons hearlier hrest =>
      unfold furtherLinks
      rcases hlater.asNameAssign? with ⟨h, h'⟩ | ⟨_, v, j, h, h', hS, -, hv⟩
      · rw [h, h']
      · rcases hearlier.asNameAssign? with ⟨he, he'⟩ | ⟨m, _, _, he, he', -, hm, -⟩
        · rw [h, h', he, he']
        · rw [h, h', he, he']
          dsimp only
          rw [isInlinable_expr hS hn hv, ih]
          simp only [rename_inj hS hm hn]

theorem returnChainLength_stmtList {b : Block} (hS : Placeholders.Between 0 k S.flatten) (h : Clear b)
    (i : Nat) : returnChainLength (stmtList S b k).1 i = returnChainLength b i := by
  have hforms := forall₂_plain hS h
  have hbefore : List.Forall₂ (IsPlainForm S) (b.take i).reverse ((stmtList S b k).1.take i).reverse :=
    List.forall₂_reverse_iff.mpr (List.forall₂_take i hforms)
  obtain ⟨j, hj, hi⟩ := getElem?_stmtList S b i k
  unfold returnChainLength
  rw [hi]
  cases hs : b[i]? with
  | none => rfl
  | some s =>
    cases s with
    | ret v =>
      rcases v with _ | returned
      · rfl
      · have hreturned : Unreserved returned := by
          intro x hx m hm
          have hmem := mem_nodesList (List.mem_of_getElem? hs)
          refine (h.lucid (.expr x) (hmem ?_)).plain m ?_
          · exact List.mem_cons_of_mem _ (List.mem_map_of_mem hx)
          · exact List.mem_append_left _ (List.mem_append_left _ hm)
        have hform : (stmt S (.ret (some returned)) j).1 = .ret (some (expr S returned j).1) := rfl
        simp only [Option.map_some, hform]
        generalize (b.take i).reverse = before at hbefore
        generalize ((stmtList S b k).1.take i).reverse = before' at hbefore
        cases hbefore with
        | nil => rfl
        | cons hlast hrest =>
          rcases hlast.asNameAssign? with ⟨h, h'⟩ | ⟨m, v, _, h, h', -, hm, -⟩
          · simp only [List.head?_cons, Option.bind_some, h, h']
          · have hSj : Placeholders.Between 0 j S.flatten := ((Within.refl hS []).mono hj).sound
            simp only [List.head?_cons, Option.bind_some, h, h', isInlinable_expr hSj hm hreturned,
              furtherLinks_forms hm (.cons hlast hrest)]
    | _ => rfl

theorem isReturnChain_stmtList : SeesBlock isReturnChain := by
  intro S k hS b h i
  unfold isReturnChain
  rw [returnChainLength_stmtList hS.sound h]

end Idiom

end Concord

/-!
## Loops on normal forms

A loop that builds a value is recognized by a step that adds to an accumulator, and by not mentioning the
accumulator elsewhere. The step in a normal form adds the normal form of what the step in the tree adds
(`Idiom.SeesStep`), and it mentions the accumulator where the tree does.

Main statements: `Idiom.isAccumulatorLoop_stmtList` and `Idiom.isConcatLoop_stmtList`.
-/

namespace Concord

open Normal Scopes

namespace Idiom

variable {S : Scopes} {k j : Nat} {n acc : String}

theorem mem_boundList {b : Block} {s : Stmt} (hs : s ∈ b) {flag : Bool} :
    Stmt.bound flag s ⊆ Stmt.boundList flag b := by
  induction hs with
  | head ss => exact List.subset_append_left _ _
  | tail t _ ih => exact List.Subset.trans ih (List.subset_append_right _ _)

/-! ### Loops that build a value -/

/-- A step of a loop that is found in normal forms, with the normal form of what it adds. -/
structure SeesStep (step : String → Stmt → Option Expr) : Prop where
  form : ∀ {S : Scopes} {k : Nat} {acc : String} {s : Stmt}, Placeholders.Between 0 k S.flatten →
    isReserved acc = false → (∀ x ∈ s.nodes, ∀ m ∈ x.mentioned, isReserved m = false) →
    ∃ j, k ≤ j ∧ step (S.rename acc) (stmt S s k).1 = (step acc s).map fun e => (expr S e j).1
  inside : ∀ {acc : String} {s : Stmt} {e : Expr}, step acc s = some e →
    Stmt.exprNodes e.subterms ⊆ s.nodes

theorem appended?_step : SeesStep appended? where
  form {S k acc s} hS hacc hs := by
    cases s with
    | expr e =>
      cases e with
      | call f args =>
        cases f with
        | «attribute» value attr =>
          match args with
          | [.positional element] =>
            refine ⟨(expr S value k).2, le_expr value S k, ?_⟩
            have hvalue : ∀ m ∈ (Node.expr value).mentioned, isReserved m = false := by
              refine hs _ (List.mem_cons_of_mem _ (List.mem_map_of_mem ?_))
              exact List.mem_cons_of_mem _ (List.mem_append_left _
                (List.mem_cons_of_mem _ (Expr.mem_subterms_self value)))
            show (if attr = "append" && (expr S value k).1.isName (S.rename acc) then _ else _) = _
            rw [isName_expr hS hacc hvalue, appended?]
            split <;> rfl
          | [] | [.keyword _ _] | [.star _] | [.doubleStar _] => exact ⟨k, Nat.le_refl k, rfl⟩
          | a :: b :: _ => cases a <;> cases b <;> exact ⟨k, Nat.le_refl k, rfl⟩
        | comp kind e v cs => cases cs <;> exact ⟨k, Nat.le_refl k, rfl⟩
        | _ => exact ⟨k, Nat.le_refl k, rfl⟩
      | comp kind e v cs => cases cs <;> exact ⟨k, Nat.le_refl k, rfl⟩
      | _ => exact ⟨k, Nat.le_refl k, rfl⟩
    | _ => exact ⟨k, Nat.le_refl k, rfl⟩
  inside {acc s e} h := by
    unfold appended? at h
    split at h
    · split at h
      · cases h
        intro x hx
        simp only [Stmt.nodes, Stmt.exprNodes, Expr.subterms, Expr.subtermsArgs, List.map_cons,
          List.map_append, List.mem_cons, List.mem_append]
        exact .inr (.inr (.inr (.inl hx)))
      · cases h
    · cases h

theorem concatenated?_step : SeesStep concatenated? where
  form {S k acc s} hS hacc hs := by
    cases s with
    | augAssign t op v =>
      refine ⟨(expr S t k).2, le_expr t S k, ?_⟩
      have ht : ∀ m ∈ (Node.expr t).mentioned, isReserved m = false := by
        refine hs _ (List.mem_cons_of_mem _ (List.mem_map_of_mem ?_))
        exact List.mem_append_left _ (Expr.mem_subterms_self t)
      cases op with
      | add =>
        show (if (expr S t k).1.isName (S.rename acc) then _ else _) = _
        rw [isName_expr hS hacc ht, concatenated?]
        split <;> rfl
      | _ => rfl
    | assign ts v a =>
      have hform := asNameAssign?_stmt S (.assign ts v a) k
      change Stmt.asNameAssign? (.assign (exprList S ts (expr S v k).2).1 (expr S v k).1 a) = _ at hform
      show ∃ j, k ≤ j ∧ concatenated? (S.rename acc)
        (.assign (exprList S ts (expr S v k).2).1 (expr S v k).1 a) = _
      unfold concatenated?
      dsimp only
      rw [hform]
      cases h : (Stmt.assign ts v a).asNameAssign? with
      | none => exact ⟨k, Nat.le_refl k, rfl⟩
      | some assigned =>
        obtain ⟨m, w⟩ := assigned
        obtain ⟨-, hname, hvalue⟩ := mem_of_asNameAssign? h
        have hm : isReserved m = false := hs _ hname m List.mem_cons_self
        cases w with
        | bin op l r =>
          refine ⟨(expr S l k).2, le_expr l S k, ?_⟩
          have hl : ∀ m ∈ (Node.expr l).mentioned, isReserved m = false := by
            refine hs _ (hvalue (List.mem_map_of_mem ?_))
            exact List.mem_cons_of_mem _ (List.mem_append_left _ (Expr.mem_subterms_self l))
          cases op with
          | add =>
            show (if S.rename m = S.rename acc && (expr S l k).1.isName (S.rename acc) then _ else _) = _
            rw [isName_expr hS hacc hl]
            simp only [rename_inj hS hm hacc]
            split <;> rfl
          | _ => rfl
        | comp kind e v cs => cases cs <;> exact ⟨k, Nat.le_refl k, rfl⟩
        | _ => exact ⟨k, Nat.le_refl k, rfl⟩
    | _ => exact ⟨k, Nat.le_refl k, rfl⟩
  inside {acc s e} h := by
    unfold concatenated? at h
    split at h
    · split at h
      · cases h
        rw [Stmt.nodes, Stmt.exprNodes, Stmt.exprNodes, List.map_append]
        exact List.subset_cons_of_subset _ (List.subset_append_right _ _)
      · cases h
    · split at h
      · next hassign =>
        split at h
        · cases h
          refine List.Subset.trans ?_ (mem_of_asNameAssign? hassign).2.2
          rw [Stmt.exprNodes, Stmt.exprNodes, Expr.subterms, List.map_cons, List.map_append]
          exact List.subset_cons_of_subset _ (List.subset_append_right _ _)
        · cases h
      · cases h

/-- The element and the condition of a loop body in a normal form. -/
theorem stepOf_stmtList {step : String → Stmt → Option Expr} (hstep : SeesStep step)
    (hS : Placeholders.Between 0 k S.flatten) (hacc : isReserved acc = false) {body : Block}
    (hbody : ∀ x ∈ Stmt.nodesList body, ∀ m ∈ x.mentioned, isReserved m = false) :
    ∃ i j, k ≤ i ∧ k ≤ j ∧ stepOf (step (S.rename acc)) (stmtList S body k).1 =
      (stepOf (step acc) body).map fun (e, c) => ((expr S e i).1, c.map fun c => (expr S c j).1) := by
  -- A body of one statement without a condition around it is a step itself.
  have hsingle (s : Stmt) (hs : s.nodes ⊆ Stmt.nodesList body)
      (hstepOf : ∀ acc, stepOf (step acc) [s] = (step acc s).map (·, none))
      (hstepOf' : ∀ acc, stepOf (step acc) [(stmt S s k).1] = (step acc (stmt S s k).1).map (·, none)) :
      ∃ i j, k ≤ i ∧ k ≤ j ∧ stepOf (step (S.rename acc)) [(stmt S s k).1] =
        (stepOf (step acc) [s]).map fun (e, c) => ((expr S e i).1, c.map fun c => (expr S c j).1) := by
    obtain ⟨i, hi, hform⟩ := hstep.form hS hacc fun x hx => hbody x (hs hx)
    refine ⟨i, k, hi, Nat.le_refl k, ?_⟩
    rw [hstepOf, hstepOf', hform, Option.map_map, Option.map_map]
    rfl
  rcases body with _ | ⟨s, _ | ⟨t, ss⟩⟩
  · exact ⟨k, k, Nat.le_refl k, Nat.le_refl k, rfl⟩
  · have hs : s.nodes ⊆ Stmt.nodesList [s] := mem_nodesList List.mem_cons_self
    cases s with
    | cond test b orelse =>
      match b, orelse with
      | [inner], [] =>
        have hinner : inner.nodes ⊆ Stmt.nodesList [.cond test [inner] []] := by
          refine List.Subset.trans ?_ hs
          simp only [Stmt.nodes, Stmt.nodesList, List.append_nil]
          exact List.subset_cons_of_subset _ (List.subset_append_right _ _)
        have hS' := ((Within.refl hS []).expr test).sound
        obtain ⟨i, hi, hform⟩ := hstep.form hS' hacc fun x hx => hbody x (hinner hx)
        refine ⟨i, k, Nat.le_trans (le_expr test S k) hi, Nat.le_refl k, ?_⟩
        show (step (S.rename acc) (stmt S inner (expr S test k).2).1).map (·, some (expr S test k).1) =
          ((step acc inner).map (·, some test)).map _
        rw [hform, Option.map_map, Option.map_map]
        rfl
      | [], _ | _ :: _ :: _, _ | [_], _ :: _ => exact hsingle _ hs (fun _ => rfl) (fun _ => rfl)
    | _ => exact hsingle _ hs (fun _ => rfl) (fun _ => rfl)
  · cases s with
    | cond test b orelse =>
      match b, orelse with
      | [_], [] | [], _ | _ :: _ :: _, _ | [_], _ :: _ => exact ⟨k, k, Nat.le_refl k, Nat.le_refl k, rfl⟩
    | _ => exact ⟨k, k, Nat.le_refl k, Nat.le_refl k, rfl⟩

/-- What a loop body adds and asks stands in the body. -/
theorem mem_of_stepOf {step : String → Stmt → Option Expr} (hstep : SeesStep step) {body : Block} {e : Expr}
    {c : Option Expr} (h : stepOf (step acc) body = some (e, c)) :
    Stmt.exprNodes e.subterms ⊆ Stmt.nodesList body ∧
      ∀ c' ∈ c, Stmt.exprNodes c'.subterms ⊆ Stmt.nodesList body := by
  unfold stepOf at h
  split at h
  · next test inner =>
    obtain ⟨e', hinner, heq⟩ := Option.map_eq_some_iff.mp h
    obtain ⟨rfl, rfl⟩ := Prod.mk.inj heq
    simp only [Stmt.nodes, Stmt.nodesList, List.append_nil]
    refine ⟨List.Subset.trans (hstep.inside hinner) ?_, ?_⟩
    · exact List.subset_cons_of_subset _ (List.subset_append_right _ _)
    · rintro c' ⟨⟩
      exact List.subset_cons_of_subset _ (List.subset_append_left _ _)
  · next s =>
    obtain ⟨e', hs, heq⟩ := Option.map_eq_some_iff.mp h
    obtain ⟨rfl, rfl⟩ := Prod.mk.inj heq
    exact ⟨List.Subset.trans (hstep.inside hs) (mem_nodesList List.mem_cons_self), fun _ h => nomatch h⟩
  · cases h

/-- A loop that builds a value. -/
theorem isSome_loopBuild?_stmtList {init : Expr → Bool} {step : String → Stmt → Option Expr}
    (hinit : ∀ R e k, init (expr R e k).1 = init e) (hstep : SeesStep step) :
    SeesBlock fun b i => (loopBuild? init step b i).isSome := by
  intro S k hS b h i
  obtain ⟨j, hj, hi⟩ := getElem?_stmtList S b i k
  obtain ⟨j', hj', hnext⟩ := getElem?_stmtList S b (i + 1) k
  dsimp only
  unfold loopBuild?
  rw [hi, hnext]
  cases hs : b[i]? with
  | none => rfl
  | some s =>
    simp only [Option.map_some, Option.bind_eq_bind, Option.bind_some, asNameAssign?_stmt]
    cases hassign : s.asNameAssign? with
    | none => rfl
    | some assigned =>
      obtain ⟨acc, v⟩ := assigned
      obtain ⟨hbound, hname, -⟩ := mem_of_asNameAssign? hassign
      have hmem := List.mem_of_getElem? hs
      have hapart := h.apart (mem_boundList hmem hbound)
      have hacc : isReserved acc = false :=
        (hapart _ (mem_nodesList hmem hname)).1 acc List.mem_cons_self
      cases hloop : b[i + 1]? with
      | none => rfl
      | some s' =>
        cases s' with
        | forLoop target iter body orelse =>
          cases orelse with
          | cons _ _ => rfl
          | nil =>
            have hnodes := mem_nodesList (List.mem_of_getElem? hloop)
            rw [Stmt.nodes, Stmt.exprNodes, List.map_append] at hnodes
            obtain ⟨-, hnodes⟩ := List.cons_subset.mp hnodes
            obtain ⟨hheader, hblocks⟩ := List.append_subset.mp hnodes
            obtain ⟨hiter, htarget⟩ := List.append_subset.mp hheader
            obtain ⟨hbody, -⟩ := List.append_subset.mp hblocks
            have hSiter := hS.mono hj'
            have hStarget := hSiter.expr iter
            have hSbody := hStarget.expr target
            have hplain : ∀ x ∈ Stmt.nodesList body, ∀ m ∈ x.mentioned, isReserved m = false :=
              fun x hx => (hapart x (hbody hx)).1
            obtain ⟨j₁, j₂, hj₁, hj₂, hform⟩ := stepOf_stmtList hstep hSbody.sound hacc hplain
            simp only [Option.map_some, Option.bind_some, stmt, stmtList, bind_apply, pure_apply, hform]
            cases hfound : stepOf (step acc) body with
            | none => rfl
            | some found =>
              obtain ⟨e, c⟩ := found
              obtain ⟨he, hc⟩ := mem_of_stepOf hstep hfound
              have hcondition : (c.map fun c => (expr S c j₂).1).any
                  (fun e => e.nameOccurrences.contains (S.rename acc)) =
                  c.any fun e => e.nameOccurrences.contains acc := by
                cases c with
                | none => rfl
                | some c =>
                  exact contains_expr (hSbody.mono hj₂).sound hacc
                    (hapart.mono (List.Subset.trans (hc c rfl) hbody))
              simp only [Option.map_some, Option.bind_some, hinit, hcondition,
                contains_expr (hSbody.mono hj₁).sound hacc (hapart.mono (List.Subset.trans he hbody)),
                contains_expr hSiter.sound hacc (hapart.mono hiter),
                contains_expr hStarget.sound hacc (hapart.mono htarget)]
              split <;> rfl
        | _ => rfl

theorem isAccumulatorLoop_stmtList : SeesBlock isAccumulatorLoop := by
  refine isSome_loopBuild?_stmtList (fun R e k => ?_) appended?_step
  cases e with
  | list items => cases items <;> rfl
  | comp kind e v cs => cases cs <;> rfl
  | _ => rfl

theorem isConcatLoop_stmtList : SeesBlock isConcatLoop := by
  refine isSome_loopBuild?_stmtList (fun R e k => ?_) concatenated?_step
  cases e with
  | comp kind e v cs => cases cs <;> rfl
  | _ => rfl

end Idiom

end Concord
