import Concord.Machine.Value
import Concord.Proofs.Tree.Idempotent

/-!
# Tidy modules

A module is tidy if its local variables keep their names to themselves: no name is bound by two scopes
around one position, none is also the name of a global variable, a predefined value or a keyword
argument, and none is used where it is not bound. What a name stands for in a tidy module is then the
same whether one looks through the scopes as normalization does or as a run does.

Tidy statements are well declared (`Stmt.wellDeclared_of_tidy`).
-/

namespace Concord

/-! ## Tidy modules -/

/-- The names around a position: those that are visible there, and those that a scope binds although
they are not visible yet, as in the first iterable of a comprehension. -/
structure Sight where
  around : List String
  taken : List String

namespace Sight

variable (locals : List String)

/-- Whether a name may be used: it is bound around, or it is neither the name of a local variable nor
spelled like a placeholder. -/
def knows (A : Sight) (n : String) : Bool :=
  A.around.contains n || (!locals.contains n && !isReserved n)

/-- Whether a scope may bind the names. -/
def opens (A : Sight) (own : List String) : Bool :=
  own.all fun n => locals.contains n && (!A.around.contains n && !A.taken.contains n)

/-- Inside a scope that binds the names. -/
def enter (A : Sight) (own : List String) : Sight := ⟨own ++ A.around, A.taken⟩

/-- Inside a scope that binds the names, but before they are visible. -/
def avoid (A : Sight) (own : List String) : Sight := ⟨A.around, own ++ A.taken⟩

end Sight

/-- The names that parameters bind. -/
def Param.boundNames (ps : List Param) : List String :=
  (ps.filter (!·.kind.isSeparator)).map (·.name)

/-- The names that a comprehension binds whose first clause has the target `t`. -/
def Clause.boundNames (t : Expr) (cs : List Clause) : List String :=
  Names.append [] (t.targetNames ++ cs.flatMap (·.target.targetNames))

namespace Expr

variable (locals : List String)

mutual

/-- Whether an expression keeps local names to themselves. -/
def isTidy (A : Sight) : Expr → Bool
  | .name n => A.knows locals n
  | .bin _ l r => isTidy A l && isTidy A r
  | .unary _ e => isTidy A e
  | .logic _ l r => isTidy A l && isTidy A r
  | .compare l links => isTidy A l && tidyLinks A links
  | .call f args => isTidy A f && tidyArgs A args
  | .attribute e _ => isTidy A e
  | .subscript e i => isTidy A e && isTidy A i
  | .slice l u s => tidyOption A l && (tidyOption A u && tidyOption A s)
  | .list es => tidyList A es
  | .tuple es => tidyList A es
  | .set es => tidyList A es
  | .dict es => tidyEntries A es
  | .comp _ _ _ [] => false
  | .comp _ e v (⟨t, i, ifs⟩ :: cs) =>
    let own := Clause.boundNames t cs
    A.opens locals own && (isTidy (A.avoid own) i && (isTidy (A.enter own) t &&
      (tidyList (A.enter own) ifs && (tidyClauses (A.enter own) cs &&
        (isTidy (A.enter own) e && tidyOption (A.enter own) v)))))
  | .ifExp t a b => isTidy A t && (isTidy A a && isTidy A b)
  | .lambda ps b =>
    let own := Param.boundNames ps
    decide own.Nodup && (A.opens locals own && (tidyParams A ps && isTidy (A.enter own) b))
  | .starred e => isTidy A e
  | .int _ | .float _ | .str _ | .bool _ | .none | .verbatim _ => true

/-- `isTidy` of an expression that may be missing. -/
def tidyOption (A : Sight) : Option Expr → Bool
  | Option.none => true
  | some e => isTidy A e

/-- `isTidy` along a list. -/
def tidyList (A : Sight) : List Expr → Bool
  | [] => true
  | e :: es => isTidy A e && tidyList A es

/-- `isTidy` of the right operands of a comparison. -/
def tidyLinks (A : Sight) : List (CmpOp × Expr) → Bool
  | [] => true
  | (_, e) :: ls => isTidy A e && tidyLinks A ls

/-- `isTidy` of arguments; a keyword is not the name of a local variable. -/
def tidyArgs (A : Sight) : List (ArgOf Expr) → Bool
  | [] => true
  | .positional e :: as => isTidy A e && tidyArgs A as
  | .keyword n e :: as => !locals.contains n && (isTidy A e && tidyArgs A as)
  | .star e :: as => isTidy A e && tidyArgs A as
  | .doubleStar e :: as => isTidy A e && tidyArgs A as

/-- `isTidy` of the entries of a dictionary display. -/
def tidyEntries (A : Sight) : List (Expr × Expr) → Bool
  | [] => true
  | (k, v) :: es => isTidy A k && (isTidy A v && tidyEntries A es)

/-- `isTidy` of the clauses of a comprehension after the first. -/
def tidyClauses (A : Sight) : List (ClauseOf Expr) → Bool
  | [] => true
  | ⟨t, i, ifs⟩ :: cs => isTidy A i && (isTidy A t && (tidyList A ifs && tidyClauses A cs))

/-- `isTidy` of parameter defaults. -/
def tidyParams (A : Sight) : List (ParamOf Expr) → Bool
  | [] => true
  | ⟨_, _, d, _⟩ :: ps => tidyOption A d && tidyParams A ps

end

end Expr

namespace Stmt

variable (locals : List String)

mutual

/-- Whether a statement keeps local names to themselves; `outer` are the names of the functions around
the one that it belongs to. -/
def isTidy (outer : List String) (A : Sight) : Stmt → Bool
  | .define ⟨name, ps, body, decorators, returns, isAsync⟩ =>
    let f : Function := ⟨name, ps, body, decorators, returns, isAsync⟩
    A.knows locals name && (decide (Param.boundNames ps).Nodup && (A.opens locals f.localNames &&
      (Expr.tidyParams locals A ps && tidyList A.around (A.enter f.localNames) body)))
  | .ret v => Expr.tidyOption locals A v
  | .assign ts v _ => v.isTidy locals A && Expr.tidyList locals A ts
  | .augAssign t _ v => t.isTidy locals A && v.isTidy locals A
  | .expr e => e.isTidy locals A
  | .cond t body orelse =>
    t.isTidy locals A && (tidyList outer A body && tidyList outer A orelse)
  | .forLoop t i body orelse =>
    i.isTidy locals A && (t.isTidy locals A && (tidyList outer A body && tidyList outer A orelse))
  | .whileLoop t body orelse =>
    t.isTidy locals A && (tidyList outer A body && tidyList outer A orelse)
  | .tryBlock body hs orelse final =>
    tidyList outer A body && (tidyHandlers outer A hs &&
      (tidyList outer A orelse && tidyList outer A final))
  | .raise e _ => Expr.tidyOption locals A e
  | .assert t m => t.isTidy locals A && Expr.tidyOption locals A m
  | .globals ns => ns.all fun n => !locals.contains n && !isReserved n
  | .nonlocals ns => ns.all fun n => outer.contains n
  | .importNames _ | .importFrom _ _ | .pass | .break | .continue | .verbatim _ _ _ => true

/-- `isTidy` along a block. -/
def tidyList (outer : List String) (A : Sight) : List Stmt → Bool
  | [] => true
  | s :: ss => isTidy outer A s && tidyList outer A ss

/-- `isTidy` of exception handlers, which do not name the exception. -/
def tidyHandlers (outer : List String) (A : Sight) : List (HandlerOf Stmt) → Bool
  | [] => true
  | ⟨type, name, body⟩ :: hs =>
    name.isNone && (Expr.tidyOption locals A type &&
      (tidyList outer A body && tidyHandlers outer A hs))

end

mutual

/-- The names of the functions that a statement defines at any depth, in order. -/
def functionNames : Stmt → List String
  | .define ⟨name, _, body, _, _, _⟩ => name :: functionNamesList body
  | .cond _ body orelse => functionNamesList body ++ functionNamesList orelse
  | .forLoop _ _ body orelse => functionNamesList body ++ functionNamesList orelse
  | .whileLoop _ body orelse => functionNamesList body ++ functionNamesList orelse
  | .tryBlock body hs orelse final =>
    functionNamesList body ++
      (functionNamesHandlers hs ++ (functionNamesList orelse ++ functionNamesList final))
  | _ => []

/-- `functionNames` along a block. -/
def functionNamesList : List Stmt → List String
  | [] => []
  | s :: ss => functionNames s ++ functionNamesList ss

/-- `functionNames` in exception handlers. -/
def functionNamesHandlers : List (HandlerOf Stmt) → List String
  | [] => []
  | ⟨_, _, body⟩ :: hs => functionNamesList body ++ functionNamesHandlers hs

end

end Stmt

namespace Module

/-- Whether a module keeps the names of local variables, which are all among `locals`, to themselves. -/
def isTidy (locals : List String) (m : Module) : Bool :=
  locals.all (Machine.Value.predefined? · |>.isNone) && ((Stmt.boundList false m.body).all (!isReserved ·) &&
    Stmt.tidyList locals [] ⟨[], []⟩ m.body)

/-- The names of all functions of a module, in order. -/
def functionNames (m : Module) : List String := Stmt.functionNamesList m.body

end Module

/-! ## Names in sight -/

namespace Sight

variable {locals own : List String} {A : Sight} {n : String}

theorem mem_of_opens (h : A.opens locals own = true) (hn : n ∈ own) :
    n ∈ locals ∧ n ∉ A.around ∧ n ∉ A.taken := by
  have := List.all_eq_true.mp h n hn
  simpa using this

theorem enter_local (h : A.opens locals own = true) (hA : ∀ n ∈ A.around, n ∈ locals) :
    ∀ n ∈ (A.enter own).around, n ∈ locals := by
  intro n hn
  exact (List.mem_append.mp hn).elim (fun hn => (mem_of_opens h hn).1) (hA n)

theorem knows_iff :
    A.knows locals n = true ↔ n ∈ A.around ∨ n ∉ locals ∧ isReserved n = false := by
  simp [knows]

end Sight

/-! ## Declarations of tidy statements -/

/-- A `global` name is neither the name of a local variable nor spelled like a placeholder; a
`nonlocal` name is one of the functions around. -/
def Declaration.Placed (locals outer : List String) : Declaration → Prop
  | .global n => n ∉ locals ∧ isReserved n = false
  | .nonlocal n => n ∈ outer

theorem Declaration.Placed.isSound {locals outer : List String} {d : Declaration}
    (h : d.Placed locals outer) (houter : ∀ n ∈ outer, n ∈ locals) (bound : List String) :
    d.isSound outer bound = true := by
  cases d with
  | global n =>
    have hn : n ∉ outer := fun hn => h.1 (houter n hn)
    simp [Declaration.isSound, h.2, hn]
  | nonlocal n => exact List.contains_iff_mem.mpr h

namespace Stmt

variable {locals : List String}

mutual

theorem placed_of_tidy {outer : List String} {A : Sight} : (s : Stmt) →
    s.isTidy locals outer A = true → ∀ d ∈ s.declarations, d.Placed locals outer
  | .globals ns, h => by
    simp only [isTidy, List.all_eq_true, Bool.and_eq_true, Bool.not_eq_true', List.contains_eq_mem,
      decide_eq_false_iff_not] at h
    simp only [declarations, List.forall_mem_map]
    exact h
  | .nonlocals ns, h => by
    simp only [isTidy, List.all_eq_true, List.contains_iff_mem] at h
    simp only [declarations, List.forall_mem_map]
    exact h
  | .cond _ body orelse, h | .whileLoop _ body orelse, h => by
    simp only [isTidy, Bool.and_eq_true] at h
    simp only [declarations, List.forall_mem_append]
    exact ⟨placedList_of_tidy body h.2.1, placedList_of_tidy orelse h.2.2⟩
  | .forLoop _ _ body orelse, h => by
    simp only [isTidy, Bool.and_eq_true] at h
    simp only [declarations, List.forall_mem_append]
    exact ⟨placedList_of_tidy body h.2.2.1, placedList_of_tidy orelse h.2.2.2⟩
  | .tryBlock body hs orelse final, h => by
    simp only [isTidy, Bool.and_eq_true] at h
    simp only [declarations, List.forall_mem_append]
    exact ⟨placedList_of_tidy body h.1, placedHandlers_of_tidy hs h.2.1,
      placedList_of_tidy orelse h.2.2.1, placedList_of_tidy final h.2.2.2⟩
  | .define _, _ | .ret _, _ | .assign _ _ _, _ | .augAssign _ _ _, _ | .expr _, _ | .raise _ _, _
  | .assert _ _, _ | .importNames _, _ | .importFrom _ _, _ | .pass, _ | .break, _ | .continue, _
  | .verbatim _ _ _, _ => nofun

theorem placedList_of_tidy {outer : List String} {A : Sight} : (b : List Stmt) →
    tidyList locals outer A b = true → ∀ d ∈ declarationsList b, d.Placed locals outer
  | [], _ => nofun
  | s :: ss, h => by
    simp only [tidyList, Bool.and_eq_true] at h
    simp only [declarationsList, List.forall_mem_append]
    exact ⟨placed_of_tidy s h.1, placedList_of_tidy ss h.2⟩

theorem placedHandlers_of_tidy {outer : List String} {A : Sight} : (hs : List (HandlerOf Stmt)) →
    tidyHandlers locals outer A hs = true → ∀ d ∈ declarationsHandlers hs, d.Placed locals outer
  | [], _ => nofun
  | ⟨_, _, body⟩ :: hs, h => by
    simp only [tidyHandlers, Bool.and_eq_true] at h
    simp only [declarationsHandlers, List.forall_mem_append]
    exact ⟨placedList_of_tidy body h.2.2.1, placedHandlers_of_tidy hs h.2.2.2⟩

end

mutual

/-- The declarations of tidy statements are sound. -/
theorem wellDeclared_of_tidy {outer : List String} {A : Sight} (hA : ∀ n ∈ A.around, n ∈ locals) :
    (s : Stmt) → s.isTidy locals outer A = true → s.wellDeclared A.around = true
  | .define ⟨name, ps, body, decorators, returns, isAsync⟩, h => by
    simp only [isTidy, Bool.and_eq_true] at h
    obtain ⟨-, -, hopens, -, hbody⟩ := h
    rw [wellDeclared, Bool.and_eq_true, List.all_eq_true]
    refine ⟨fun d hd => (placedList_of_tidy body hbody d hd).isSound hA _, ?_⟩
    exact wellDeclaredList_of_tidy (Sight.enter_local hopens hA) body hbody
  | .cond _ body orelse, h | .whileLoop _ body orelse, h => by
    simp only [isTidy, Bool.and_eq_true] at h
    rw [wellDeclared, Bool.and_eq_true]
    exact ⟨wellDeclaredList_of_tidy hA body h.2.1, wellDeclaredList_of_tidy hA orelse h.2.2⟩
  | .forLoop _ _ body orelse, h => by
    simp only [isTidy, Bool.and_eq_true] at h
    rw [wellDeclared, Bool.and_eq_true]
    exact ⟨wellDeclaredList_of_tidy hA body h.2.2.1, wellDeclaredList_of_tidy hA orelse h.2.2.2⟩
  | .tryBlock body hs orelse final, h => by
    simp only [isTidy, Bool.and_eq_true] at h
    simp only [wellDeclared, Bool.and_eq_true]
    exact ⟨wellDeclaredList_of_tidy hA body h.1, wellDeclaredHandlers_of_tidy hA hs h.2.1,
      wellDeclaredList_of_tidy hA orelse h.2.2.1, wellDeclaredList_of_tidy hA final h.2.2.2⟩
  | .ret _, _ | .assign _ _ _, _ | .augAssign _ _ _, _ | .expr _, _ | .raise _ _, _
  | .assert _ _, _ | .importNames _, _ | .importFrom _ _, _ | .globals _, _ | .nonlocals _, _
  | .pass, _ | .break, _ | .continue, _ | .verbatim _ _ _, _ => rfl

theorem wellDeclaredList_of_tidy {outer : List String} {A : Sight}
    (hA : ∀ n ∈ A.around, n ∈ locals) : (b : List Stmt) → tidyList locals outer A b = true →
    wellDeclaredList A.around b = true
  | [], _ => rfl
  | s :: ss, h => by
    simp only [tidyList, Bool.and_eq_true] at h
    rw [wellDeclaredList, Bool.and_eq_true]
    exact ⟨wellDeclared_of_tidy hA s h.1, wellDeclaredList_of_tidy hA ss h.2⟩

theorem wellDeclaredHandlers_of_tidy {outer : List String} {A : Sight}
    (hA : ∀ n ∈ A.around, n ∈ locals) : (hs : List (HandlerOf Stmt)) →
    tidyHandlers locals outer A hs = true → wellDeclaredHandlers A.around hs = true
  | [], _ => rfl
  | ⟨_, _, body⟩ :: hs, h => by
    simp only [tidyHandlers, Bool.and_eq_true] at h
    rw [wellDeclaredHandlers, Bool.and_eq_true]
    exact ⟨wellDeclaredList_of_tidy hA body h.2.2.1, wellDeclaredHandlers_of_tidy hA hs h.2.2.2⟩

end

end Stmt

end Concord
