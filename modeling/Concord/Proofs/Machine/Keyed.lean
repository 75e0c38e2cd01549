import Concord.Proofs.Machine.Predefined

/-!
# Keys and members stay distinct

Expressions, statements and calls keep states sound (`State.Sound`). The proof goes by recursion over the
program; calls are assumed to keep states sound (`Serves`), and `callAt` closes the circle by induction on
the levels of calls that are left.
-/

namespace Concord.Machine

variable {α : Type} {strict : Prop} {call : Call} {h k : Heap}

/-- Calls keep states sound, if no name is passed twice. -/
def Serves (strict : Prop) (call : Call) : Prop :=
  ∀ (k : Heap) (callee : Value) (args : List Value) (keywords : Keywords), Backed k args →
    Backed k keywords → (strict → (keywords.map Prod.fst).Nodup) → Tracks strict k (call callee args keywords)

/-- The arguments of a call: under the names that stand in it. -/
@[reducible] def Fact.arguments (args : List Arg) : Fact (List Value × Keywords) :=
  ⟨fun k p => Backed k p ∧ p.2.map Prod.fst = args.filterMap ArgOf.keyword?,
    fun hp hle => ⟨hp.1.mono hle, hp.2⟩⟩

/-! ## Expressions -/

theorem namesOnce_of_mem {e : Expr} {es : List Expr} (he : e ∈ es)
    (hes : NamesOnce strict (Expr.subtermsList es)) : NamesOnce strict e.subterms := by
  induction es with
  | nil => cases he
  | cons e' es ih =>
    rw [Expr.subtermsList, namesOnce_append] at hes
    rcases List.mem_cons.mp he with rfl | he
    · exact hes.1
    · exact ih he hes.2

namespace Serves

open Yields

mutual

theorem eval (hcall : Serves strict call) (env : Env) : (e : Expr) → NamesOnce strict e.subterms →
    ∀ {h : Heap}, Tracks strict h (eval call env e)
  | .name n, _ => by
    rw [Machine.eval]
    exact (charge 1).seq fun _ => lookup env n
  | .int _, _ | .float _, _ | .bool _, _ | .none, _ => by
    rw [Machine.eval]
    exact (charge 1).seq fun _ => ret trivial
  | .str lit, _ => by
    rw [Machine.eval]
    refine (charge 1).seq fun _ => ?_
    split
    · exact throw _
    · exact ret trivial
  | .bin op left right, hs => by
    simp only [Expr.subterms, namesOnce_cons, namesOnce_append] at hs
    rw [Machine.eval]
    refine (charge 1).seq fun _ => (hcall.eval env left hs.2.1).seq fun l => ?_
    exact (hcall.eval env right hs.2.2).seq fun r => .binary op l r
  | .unary op operand, hs => by
    simp only [Expr.subterms, namesOnce_cons] at hs
    rw [Machine.eval]
    exact (charge 1).seq fun _ => (hcall.eval env operand hs.2).seq fun v => .unary op v
  | .logic op left right, hs => by
    simp only [Expr.subterms, namesOnce_cons, namesOnce_append] at hs
    rw [Machine.eval]
    refine (charge 1).seq fun _ => (hcall.eval env left hs.2.1).track fun k l _ hl => ?_
    refine (truthy l).track fun k' b hle _ => ?_
    split
    · exact ret (hl.mono hle)
    · exact hcall.eval env right hs.2.2
  | .compare left links, hs => by
    simp only [Expr.subterms, namesOnce_cons, namesOnce_append] at hs
    rw [Machine.eval]
    exact (charge 1).seq fun _ => (hcall.eval env left hs.2.1).seq fun l => hcall.evalLinks env l links hs.2.2
  | .call func args, hs => by
    simp only [Expr.subterms, namesOnce_cons, namesOnce_append] at hs
    rw [Machine.eval]
    refine (charge 1).seq fun _ => (hcall.eval env func hs.2.1).seq fun callee => ?_
    refine (hcall.evalArgs env args hs.2.2).bind fun k p _ hp => ?_
    refine hcall k callee p.1 p.2 hp.1.1 hp.1.2 fun hstrict => ?_
    rw [hp.2]
    exact of_decide_eq_true (hs.1 hstrict)
  | .attribute value attr, hs => by
    simp only [Expr.subterms, namesOnce_cons] at hs
    rw [Machine.eval]
    exact (charge 1).seq fun _ => (hcall.eval env value hs.2).seq fun v => ret trivial
  | .subscript value index, hs => by
    simp only [Expr.subterms, namesOnce_cons, namesOnce_append] at hs
    have hvalue {k : Heap} : Tracks strict k _ := hcall.eval env value hs.2.1
    have hindex {k : Heap} : Tracks strict k _ := hcall.eval env index hs.2.2
    cases index with
    | slice lower upper step =>
      simp only [Expr.subterms, namesOnce_cons, namesOnce_append] at hs
      rw [Machine.eval]
      refine (charge 1).seq fun _ => hvalue.seq fun c => ?_
      refine (hcall.evalOption env lower hs.2.2.2.1).seq fun l => check.seq fun l => ?_
      refine (hcall.evalOption env upper hs.2.2.2.2.1).seq fun u => check.seq fun u => ?_
      exact (hcall.evalOption env step hs.2.2.2.2.2).seq fun s => check.seq fun s => .getSlice c l u s
    | _ =>
      -- The equation of `eval` for this case asks for an index that is no slice.
      rw [Simulation.eval_subscript call]
      · exact (charge 1).seq fun _ => hvalue.seq fun c => hindex.seq fun i => .getItem c i
      all_goals simp
  | .slice _ _ _, _ | .starred _, _ | .verbatim _, _ => by
    rw [Machine.eval]
    exact (charge 1).seq fun _ => throw _
  | .list items, hs => by
    simp only [Expr.subterms, namesOnce_cons] at hs
    rw [Machine.eval]
    exact (charge 1).seq fun _ => (hcall.evalItems env items hs.2).track fun k vs _ hvs => newList hvs
  | .tuple items, hs => by
    simp only [Expr.subterms, namesOnce_cons] at hs
    rw [Machine.eval]
    exact (charge 1).seq fun _ => (hcall.evalItems env items hs.2).track fun k vs _ hvs => newTuple hvs
  | .set items, hs => by
    simp only [Expr.subterms, namesOnce_cons] at hs
    rw [Machine.eval]
    exact (charge 1).seq fun _ => (hcall.evalItems env items hs.2).track fun k vs _ hvs => .makeSet hvs
  | .dict entries, hs => by
    simp only [Expr.subterms, namesOnce_cons] at hs
    rw [Machine.eval]
    refine (charge 1).seq fun _ => (hcall.evalEntries env entries hs.2 .nil).bind fun k es _ hes => ?_
    exact newDict hes
  | .comp kind element value clauses, hs => by
    simp only [Expr.subterms, namesOnce_cons, namesOnce_append] at hs
    rw [Machine.eval]
    refine (charge 1).seq fun _ => (newScope backed_nil).seq fun scope => ?_
    have hleaf (k : Heap) : Tracks strict k (do
        let key ← Machine.eval call (some scope) element
        return (key, ← Machine.evalOption call (some scope) value)) := by
      refine (hcall.eval (some scope) element hs.2.1).track fun l key _ hkey => ?_
      refine (hcall.evalOption (some scope) value hs.2.2.1).track fun m v hle hv => ret ?_
      exact ⟨hkey.mono hle, hv⟩
    refine (hcall.evalClauses (some scope) hleaf clauses hs.2.2.2).track fun k produced _ hproduced => ?_
    exact .comprehended kind hproduced
  | .ifExp test body orelse, hs => by
    simp only [Expr.subterms, namesOnce_cons, namesOnce_append] at hs
    rw [Machine.eval]
    refine (charge 1).seq fun _ => (hcall.eval env test hs.2.1).seq fun t => (truthy t).seq fun b => ?_
    split
    · exact hcall.eval env body hs.2.2.1
    · exact hcall.eval env orelse hs.2.2.2
  | .lambda params body, hs => by
    simp only [Expr.subterms, namesOnce_cons, namesOnce_append] at hs
    rw [Machine.eval]
    refine (charge 1).seq fun _ => (hcall.evalParams env params hs.2.1).track fun k ps _ hps => ?_
    exact newClosure ⟨hps, hs.2.2⟩

theorem evalOption (hcall : Serves strict call) (env : Env) : (o : Option Expr) →
    NamesOnce strict (Expr.subtermsOption o) → ∀ {h : Heap}, Tracks strict h (evalOption call env o)
  | none, _ => by
    rw [Machine.evalOption]
    exact ret backed_none
  | some e, hs => by
    rw [Machine.evalOption]
    exact (hcall.eval env e hs).track fun k v _ hv => ret (backed_some.mpr hv)

theorem evalItems (hcall : Serves strict call) (env : Env) : (es : List Expr) →
    NamesOnce strict (Expr.subtermsList es) → ∀ {h : Heap}, Tracks strict h (evalItems call env es)
  | [], _ => by
    rw [Machine.evalItems]
    exact ret backed_nil
  | e :: rest, hs => by
    simp only [Expr.subtermsList, namesOnce_append] at hs
    have hitem {k : Heap} : Tracks strict k _ := hcall.eval env e hs.1
    have hrest {k : Heap} : Tracks strict k _ := hcall.evalItems env rest hs.2
    cases e with
    | starred inner =>
      have hinner {k : Heap} : Tracks strict k _ := hcall.eval env inner (namesOnce_cons.mp hs.1).2
      rw [Machine.evalItems]
      refine hinner.seq fun v => (Yields.iterate v).track fun k vs _ hvs => hrest.track fun l ws hle hws => ret ?_
      exact backed_append.mpr ⟨hvs.mono hle, hws⟩
    | _ =>
      rw [Machine.evalItems]
      · refine hitem.track fun k v _ hv => hrest.track fun l vs hle hvs => ret ?_
        exact backed_cons.mpr ⟨hv.mono hle, hvs⟩
      all_goals simp

theorem evalLinks (hcall : Serves strict call) (env : Env) (left : Value) : (ls : List (CmpOp × Expr)) →
    NamesOnce strict (Expr.subtermsLinks ls) → ∀ {h : Heap}, Tracks strict h (evalLinks call env left ls)
  | [], _ => by
    rw [Machine.evalLinks]
    exact ret trivial
  | (op, right) :: rest, hs => by
    simp only [Expr.subtermsLinks, namesOnce_append] at hs
    rw [Machine.evalLinks]
    refine (hcall.eval env right hs.1).seq fun r => (Yields.compareValues op left r).seq fun b => ?_
    split
    · exact hcall.evalLinks env r rest hs.2
    · exact ret trivial

theorem evalArgs (hcall : Serves strict call) (env : Env) : (as : List Arg) →
    NamesOnce strict (Expr.subtermsArgs as) → ∀ {h : Heap}, Yields strict h (evalArgs call env as) (.arguments as)
  | [], _ => by
    rw [Machine.evalArgs]
    exact ret ⟨⟨backed_nil, backed_nil⟩, rfl⟩
  | .positional e :: rest, hs => by
    simp only [Expr.subtermsArgs, namesOnce_append] at hs
    rw [Machine.evalArgs]
    refine (hcall.eval env e hs.1).track fun k v _ hv => ?_
    refine (hcall.evalArgs env rest hs.2).bind fun l p hle hp => ret ?_
    exact ⟨⟨backed_cons.mpr ⟨hv.mono hle, hp.1.1⟩, hp.1.2⟩, hp.2⟩
  | .keyword n e :: rest, hs => by
    simp only [Expr.subtermsArgs, namesOnce_append] at hs
    rw [Machine.evalArgs]
    refine (hcall.eval env e hs.1).track fun k v _ hv => ?_
    refine (hcall.evalArgs env rest hs.2).bind fun l p hle hp => ret ?_
    exact ⟨⟨hp.1.1, backed_cons.mpr ⟨⟨trivial, hv.mono hle⟩, hp.1.2⟩⟩, congrArg (n :: ·) hp.2⟩
  | .star e :: rest, hs => by
    simp only [Expr.subtermsArgs, namesOnce_append] at hs
    rw [Machine.evalArgs]
    refine (hcall.eval env e hs.1).seq fun v => (Yields.iterate v).track fun k vs _ hvs => ?_
    refine (hcall.evalArgs env rest hs.2).bind fun l p hle hp => ret ?_
    exact ⟨⟨backed_append.mpr ⟨hvs.mono hle, hp.1.1⟩, hp.1.2⟩, hp.2⟩
  | .doubleStar _ :: _, _ => by
    rw [Machine.evalArgs]
    exact throw _

theorem evalEntries (hcall : Serves strict call) (env : Env) : (es : List (Expr × Expr)) →
    NamesOnce strict (Expr.subtermsEntries es) → {h : Heap} → {done : Entries} → Entered strict h done →
    Yields strict h (evalEntries call env done es) (.entered strict)
  | [], _, _, _, hdone => by
    rw [Machine.evalEntries]
    exact ret hdone
  | (key, value) :: rest, hs, _, done, hdone => by
    simp only [Expr.subtermsEntries, namesOnce_append] at hs
    rw [Machine.evalEntries]
    refine start fun i _ hi => (hcall.eval env key hs.1).track fun k key hle hkey => ?_
    refine (hcall.eval env value hs.2.1).track fun l v hle' hv => ?_
    replace hdone := hdone.mono (hi.trans (hle.trans hle'))
    refine (Yields.insertEntry hdone (hkey.mono hle') hv).bind fun m done _ hdone => ?_
    exact hcall.evalEntries env rest hs.2.2 hdone

theorem evalParams (hcall : Serves strict call) (env : Env) : (ps : List Param) →
    NamesOnce strict (Expr.subtermsParams ps) → ∀ {h : Heap}, Tracks strict h (evalParams call env ps)
  | [], _ => by
    rw [Machine.evalParams]
    exact ret backed_nil
  | ⟨_, _, default, _⟩ :: rest, hs => by
    simp only [Expr.subtermsParams, namesOnce_append] at hs
    rw [Machine.evalParams]
    refine (hcall.evalOption env default hs.1).track fun k v _ hv => ?_
    refine (hcall.evalParams env rest hs.2).track fun l ps hle hps => ret ?_
    exact backed_cons.mpr ⟨⟨trivial, hv.mono hle⟩, hps⟩

theorem evalConditions (hcall : Serves strict call) (env : Env) : (es : List Expr) →
    NamesOnce strict (Expr.subtermsList es) → ∀ {h : Heap}, Tracks strict h (evalConditions call env es)
  | [], _ => by
    rw [Machine.evalConditions]
    exact ret trivial
  | e :: rest, hs => by
    simp only [Expr.subtermsList, namesOnce_append] at hs
    rw [Machine.evalConditions]
    refine (hcall.eval env e hs.1).seq fun v => (truthy v).seq fun b => ?_
    split
    · exact hcall.evalConditions env rest hs.2
    · exact ret trivial

theorem evalClauses (hcall : Serves strict call) (env : Env) {leaf : Exec (Value × Option Value)}
    (hleaf : ∀ k, Tracks strict k leaf) : (cs : List Clause) →
    NamesOnce strict (Expr.subtermsClauses cs) → ∀ {h : Heap}, Tracks strict h (evalClauses call env leaf cs)
  | [], _ => by
    rw [Machine.evalClauses]
    exact (hleaf _).track fun k p _ hp => ret (backed_cons.mpr ⟨hp, backed_nil⟩)
  | ⟨target, iter, ifs⟩ :: rest, hs => by
    simp only [Expr.subtermsClauses, namesOnce_append] at hs
    rw [Machine.evalClauses]
    refine (hcall.eval env iter hs.1).seq fun v => (Yields.iterate v).track fun k items _ hitems => ?_
    refine (mapM hitems fun l item _ hitem => ?_).track fun l produced _ hproduced => ret ?_
    · refine (hcall.assign env target hs.2.1 hitem).seq fun _ => ?_
      refine (hcall.evalConditions env ifs hs.2.2.1).seq fun b => ?_
      split
      · exact hcall.evalClauses env hleaf rest hs.2.2.2
      · exact ret backed_nil
    · intro p hp
      obtain ⟨row, hrow, hp⟩ := List.mem_flatten.mp hp
      exact hproduced row hrow p hp

theorem assign (hcall : Serves strict call) (env : Env) : (target : Expr) →
    NamesOnce strict target.subterms → {h : Heap} → {value : Value} → Backed h value →
    Tracks strict h (assign call env target value)
  | .name n, _, _, _, hvalue => by
    rw [Machine.assign]
    exact bindName env n hvalue
  | .tuple targets, hs, _, value, _ | .list targets, hs, _, value, _ => by
    simp only [Expr.subterms, namesOnce_cons] at hs
    rw [Machine.assign]
    exact (Yields.unpack targets value).track fun k vs _ hvs => hcall.assignAll env targets hs.2 hvs
  | .subscript container index, hs, _, value, hvalue => by
    simp only [Expr.subterms, namesOnce_cons, namesOnce_append] at hs
    have hcontainer {k : Heap} : Tracks strict k _ := hcall.eval env container hs.2.1
    have hindex {k : Heap} : Tracks strict k _ := hcall.eval env index hs.2.2
    cases index with
    | slice _ _ _ =>
      rw [Machine.assign]
      exact hcontainer.seq fun _ => throw _
    | _ =>
      rw [Machine.assign]
      · refine start fun i _ hi => hcontainer.track fun k c hle _ => hindex.track fun l i hle' hi' => ?_
        exact .setItem c hi' (hvalue.mono (hi.trans (hle.trans hle')))
      all_goals simp
  | .int _, _, _, _, _ | .float _, _, _, _, _ | .str _, _, _, _, _ | .bool _, _, _, _, _
  | .none, _, _, _, _ | .bin _ _ _, _, _, _, _ | .unary _ _, _, _, _, _ | .logic _ _ _, _, _, _, _
  | .compare _ _, _, _, _, _ | .call _ _, _, _, _, _ | .attribute _ _, _, _, _, _
  | .slice _ _ _, _, _, _, _ | .set _, _, _, _, _ | .dict _, _, _, _, _ | .comp _ _ _ _, _, _, _, _
  | .ifExp _ _ _, _, _, _, _ | .lambda _ _, _, _, _, _ | .starred _, _, _, _, _
  | .verbatim _, _, _, _, _ => by
    rw [Machine.assign]
    · exact throw _
    all_goals simp

theorem assignAll (hcall : Serves strict call) (env : Env) : (targets : List Expr) →
    NamesOnce strict (Expr.subtermsList targets) → {h : Heap} → {values : List Value} → Backed h values →
    Tracks strict h (assignAll call env targets values)
  | target :: targets, hs, _, value :: values, hvalues => by
    simp only [Expr.subtermsList, namesOnce_append] at hs
    rw [backed_cons] at hvalues
    rw [Machine.assignAll]
    refine start fun i _ hi => (hcall.assign env target hs.1 (hvalues.1.mono hi)).track fun k _ hle _ => ?_
    exact hcall.assignAll env targets hs.2 (hvalues.2.mono (hi.trans hle))
  | [], _, _, _, _ | _ :: _, _, _, [], _ => by
    rw [Machine.assignAll]
    · exact ret trivial
    all_goals simp

end

end Serves

/-! ## Statements -/

theorem backed_exit? {flow : Flow} (hflow : Backed h flow) : Backed h flow.exit? := by
  intro exit hexit
  cases flow with
  | ret v =>
    cases hexit
    exact hflow
  | «break» =>
    cases hexit
    exact nofun
  | _ => cases hexit

namespace Yields

theorem forItems {body : Value → Exec Flow} {items : List Value} (hitems : Backed h items)
    (hbody : ∀ k v, h.Before k → Backed k v → Tracks strict k (body v)) :
    Tracks strict h (forItems body items) := by
  induction items generalizing h with
  | nil => exact ret backed_none
  | cons v items ih =>
    rw [backed_cons] at hitems
    rw [Machine.forItems]
    refine start fun k _ hle => (hbody k v hle (hitems.1.mono hle)).track fun l flow hle' hflow => ?_
    replace hle := hle.trans hle'
    have hexit := backed_exit? hflow
    split
    · rename_i exit hsome
      rw [hsome] at hexit
      exact ret hexit
    · exact ih (hitems.2.mono hle) fun m v hm => hbody m v (hle.trans hm)

theorem whileHolds {test : Exec Bool} {body : Exec Flow} (htest : ∀ k, Tracks strict k test)
    (hbody : ∀ k, Tracks strict k body) (turns : Nat) : Tracks strict h (whileHolds test body turns) := by
  induction turns generalizing h with
  | zero => exact exhaust
  | succ turns ih =>
    rw [Machine.whileHolds]
    refine (htest h).seq fun holds => ?_
    split
    · refine (hbody _).track fun k flow _ hflow => ?_
      have hexit := backed_exit? hflow
      split
      · rename_i exit hsome
        rw [hsome] at hexit
        exact ret hexit
      · exact ih
    · exact ret backed_none

theorem whileHandling (e : Exception) {block : Exec Flow} (hblock : ∀ k, Tracks strict k block) :
    Tracks strict h (whileHandling e block) := by
  refine (change (f := fun s => { s with handling := e :: s.handling }) fun _ => ⟨rfl, rfl, rfl⟩).seq ?_
  refine fun _ => (attempt (hblock h)).bind fun k r _ hr => ?_
  refine (change (f := fun s => { s with handling := s.handling.tail }) fun _ => ⟨rfl, rfl, rfl⟩).track ?_
  exact fun l _ hle _ => ofExcept fun a ha => (hr a ha).mono hle

theorem guarded {body orelse : Exec Flow} {handle : Exception → Exec Flow} {final : Option (Exec Flow)}
    (hbody : Tracks strict h body) (horelse : ∀ k, Tracks strict k orelse)
    (hhandle : ∀ e k, Tracks strict k (handle e)) (hfinal : ∀ y ∈ final, ∀ k, Tracks strict k y) :
    Tracks strict h (guarded body orelse handle final) := by
  refine (attempt hbody).bind fun k r _ hr => ?_
  rcases r with (e | halt) | (_ | v | _ | _)
  case error.halt => exact stop _
  case' error.raise => refine (attempt (hhandle e k)).bind fun l r _ hr => ?_
  case' ok.next => refine (attempt (horelse k)).bind fun l r _ hr => ?_
  case' ok.ret | ok.break | ok.continue => refine (ret (Q := .clean Flow) hr).bind fun l r _ hr => ?_
  -- However the block has ended, `finally` comes next.
  all_goals
    cases final with
    | none => exact clean hr
    | some final =>
      refine (hfinal final rfl l).track fun m flow hle hflow => ?_
      cases flow with
      | next => exact clean fun a ha => (hr a ha).mono hle
      | _ => exact ret hflow

end Yields

namespace Serves

open Yields

mutual

theorem exec (hcall : Serves strict call) (env : Env) : (s : Stmt) → PartsNameOnce strict s.nodes →
    ∀ {h : Heap}, Tracks strict h (exec call env s)
  | .define ⟨name, params, body, decorators, _, isAsync⟩, hs => by
    simp only [Stmt.nodes, partsNameOnce_stmt, partsNameOnce_append, partsNameOnce_exprNodes] at hs
    rw [Machine.exec]
    refine (charge 1).seq fun _ => ?_
    refine orStop ((hcall.evalParams env params hs.2.1).track fun k ps _ hps => ?_)
    refine (newClosure ⟨hps, hs.2.2⟩).track fun l f _ hf => (bindName env name hf).seq fun _ => ret nofun
  | .ret value, hs => by
    simp only [Stmt.nodes, partsNameOnce_stmt, partsNameOnce_exprNodes] at hs
    rw [Machine.exec]
    refine (charge 1).seq fun _ => (hcall.evalOption env value hs).track fun k v _ hv => ret ?_
    rintro _ ⟨⟩
    exact hv.optionGetD trivial
  | .assign targets value _, hs => by
    simp only [Stmt.nodes, partsNameOnce_stmt, partsNameOnce_exprNodes, namesOnce_append] at hs
    rw [Machine.exec]
    refine (charge 1).seq fun _ => (hcall.eval env value hs.1).track fun k v _ hv => ?_
    refine (forM fun target htarget l hle => ?_).seq fun _ => ret nofun
    exact hcall.assign env target (namesOnce_of_mem htarget hs.2) (hv.mono hle)
  | .augAssign target op value, hs => by
    simp only [Stmt.nodes, partsNameOnce_stmt, partsNameOnce_exprNodes, namesOnce_append] at hs
    rw [Machine.exec]
    refine (charge 1).seq fun _ => (hcall.eval env value hs.2).seq fun operand => ?_
    refine (hcall.eval env target hs.1).track fun k current _ hcurrent => ?_
    refine (Yields.augmented op current operand hcurrent).track fun l v _ hv => ?_
    exact (hcall.assign env target hs.1 hv).seq fun _ => ret nofun
  | .expr e, hs => by
    simp only [Stmt.nodes, partsNameOnce_stmt, partsNameOnce_exprNodes] at hs
    rw [Machine.exec]
    exact (charge 1).seq fun _ => (hcall.eval env e hs).seq fun _ => ret nofun
  | .cond test body orelse, hs => by
    simp only [Stmt.nodes, partsNameOnce_stmt, partsNameOnce_append, partsNameOnce_exprNodes] at hs
    rw [Machine.exec]
    refine (charge 1).seq fun _ => (hcall.eval env test hs.1).seq fun t => (truthy t).seq fun b => ?_
    split
    · exact hcall.execBlock env body hs.2.1
    · exact hcall.execBlock env orelse hs.2.2
  | .forLoop target iter body orelse, hs => by
    simp only [Stmt.nodes, partsNameOnce_stmt, partsNameOnce_append, partsNameOnce_exprNodes,
      namesOnce_append] at hs
    rw [Machine.exec]
    refine (charge 1).seq fun _ => (hcall.eval env iter hs.1.1).seq fun v => ?_
    refine (Yields.iterate v).track fun k items _ hitems => ?_
    refine (Yields.forItems hitems fun l v _ hv => ?_).track fun l left _ hleft => ?_
    · exact (hcall.assign env target hs.1.2 hv).seq fun _ => hcall.execBlock env body hs.2.1
    · split
      · exact ret (backed_some.mp hleft)
      · exact hcall.execBlock env orelse hs.2.2
  | .whileLoop test body orelse, hs => by
    simp only [Stmt.nodes, partsNameOnce_stmt, partsNameOnce_append, partsNameOnce_exprNodes] at hs
    have htest (k : Heap) : Tracks strict k (do Exec.truthy (← Machine.eval call env test)) :=
      (hcall.eval env test hs.1).seq fun t => truthy t
    rw [Machine.exec]
    refine (charge 1).seq fun _ => look fun s _ _ => ?_
    refine (Yields.whileHolds htest (fun k => hcall.execBlock env body hs.2.1) _).track fun k left _ hleft => ?_
    split
    · exact ret (backed_some.mp hleft)
    · exact hcall.execBlock env orelse hs.2.2
  | .tryBlock body handlers orelse final, hs => by
    simp only [Stmt.nodes, partsNameOnce_stmt, partsNameOnce_append] at hs
    rw [Machine.exec]
    refine (charge 1).seq fun _ => ?_
    refine .guarded (hcall.execBlock env body hs.1) (fun k => hcall.execBlock env orelse hs.2.2.1)
      (fun e k => hcall.execHandlers env e handlers hs.2.1) fun y hy k => ?_
    split at hy
    · cases hy
    · cases hy
      exact hcall.execBlock env final hs.2.2.2
  | .raise none _, _ => by
    rw [Machine.exec]
    refine (charge 1).seq fun _ => look fun s _ _ => ?_
    split
    · exact throw _
    · exact throw _
  | .raise (some exc) _, hs => by
    simp only [Stmt.nodes, partsNameOnce_stmt, partsNameOnce_exprNodes, namesOnce_append] at hs
    rw [Machine.exec]
    exact (charge 1).seq fun _ => (hcall.eval env exc hs.1).seq fun v => ask.seq fun _ => throw _
  | .assert test msg, hs => by
    simp only [Stmt.nodes, partsNameOnce_stmt, partsNameOnce_exprNodes, namesOnce_append] at hs
    rw [Machine.exec]
    refine (charge 1).seq fun _ => (hcall.eval env test hs.1).seq fun t => (truthy t).seq fun b => ?_
    split
    · exact ret nofun
    · refine (hcall.evalOption env msg hs.2).seq fun v => ?_
      split
      · exact ask.seq fun _ => throw _
      · exact throw _
  | .globals names, _ => by
    rw [Machine.exec]
    exact (charge 1).seq fun _ => (declareGlobals env names).seq fun _ => ret nofun
  | .nonlocals names, _ => by
    rw [Machine.exec]
    exact (charge 1).seq fun _ => (declareNonlocals env names).seq fun _ => ret nofun
  | .pass, _ | .break, _ | .continue, _ => by
    rw [Machine.exec]
    exact (charge 1).seq fun _ => ret nofun
  | .importNames _, _ | .importFrom _ _, _ | .verbatim _ _ _, _ => by
    rw [Machine.exec]
    exact (charge 1).seq fun _ => throw _

theorem execBlock (hcall : Serves strict call) (env : Env) : (block : List Stmt) →
    PartsNameOnce strict (Stmt.nodesList block) → ∀ {h : Heap}, Tracks strict h (execBlock call env block)
  | [], _ => by
    rw [Machine.execBlock]
    exact ret nofun
  | s :: rest, hs => by
    simp only [Stmt.nodesList, partsNameOnce_append] at hs
    rw [Machine.execBlock]
    refine (hcall.exec env s hs.1).track fun k flow _ hflow => ?_
    cases flow with
    | next => exact hcall.execBlock env rest hs.2
    | _ => exact ret hflow

theorem execHandlers (hcall : Serves strict call) (env : Env) (e : Exception) :
    (handlers : List (HandlerOf Stmt)) → PartsNameOnce strict (Stmt.nodesHandlers handlers) →
    ∀ {h : Heap}, Tracks strict h (execHandlers call env e handlers)
  | [], _ => by
    rw [Machine.execHandlers]
    exact throw _
  | ⟨type, name, body⟩ :: rest, hs => by
    simp only [Stmt.nodesHandlers, partsNameOnce_append, partsNameOnce_exprNodes] at hs
    rw [Machine.execHandlers]
    refine (hcall.evalOption env type hs.1).seq fun handler => ?_
    have hhandled {k : Heap} : Tracks strict k (Machine.whileHandling e (Machine.execBlock call env body)) :=
      .whileHandling e fun l => hcall.execBlock env body hs.2.1
    -- Handlers with and without a type go on in the same way once it is known whether they catch.
    have hcaught {x : Exec Flow} (hx : ∀ k, Tracks strict k x) (caught : Bool) {k : Heap} :
        Tracks strict k (if caught then x else Machine.execHandlers call env e rest) := by
      cases caught with
      | false => exact hcall.execHandlers env e rest hs.2.2
      | true => exact hx k
    cases name with
    | none =>
      cases handler with
      | none => exact hcaught (fun _ => hhandled) true
      | some handler => exact ask.seq fun r => check.seq fun caught => hcaught (fun _ => hhandled) caught
    | some name =>
      have hnamed (k : Heap) : Tracks strict k (Exec.newException e >>= fun v =>
          Exec.bind env name v >>= fun _ => Machine.whileHandling e (Machine.execBlock call env body)) :=
        (newException e).track fun l v _ hv => (bindName env name hv).seq fun _ => hhandled
      cases handler with
      | none => exact hcaught hnamed true
      | some handler => exact ask.seq fun r => check.seq fun caught => hcaught hnamed caught

end

end Serves

end Concord.Machine
