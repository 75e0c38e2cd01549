import Concord.Proofs.Idiom.Position
import Concord.Proofs.Machine.Budget
import Concord.Proofs.Profile.Distance

/-!
# Blocks that do not end by going on

The analysis of paths says of some blocks that control never reaches their end (`Paths.fallsThrough`). It
looks at the last statement of a block and asks of a loop that is always repeated whether a `break` leaves
it. A `break` in the `else` branch of a loop inside belongs to the loop around it, but is overlooked. Of
blocks in which none is (`Stmt.seesBreaks`), the analysis is right: an execution that ends without a signal
leaves such a block by a `return`, a `break` or a `continue`.

Main statement: `Paths.fallsThrough_sound`.
-/

namespace Concord

/-! ## Breaks that leave a loop -/

namespace Paths

mutual

/-- Whether a `break` in the statement leaves the loop around it, from the `else` branches of loops too. -/
def leaves : Stmt → Bool
  | .break => true
  | .cond _ body orelse => leavesList body || leavesList orelse
  | .forLoop _ _ _ orelse | .whileLoop _ _ orelse => leavesList orelse
  | .tryBlock body hs orelse final =>
    leavesList body || leavesHandlers hs || leavesList orelse || leavesList final
  | .define _ | .ret _ | .assign _ _ _ | .augAssign _ _ _ | .expr _ | .raise _ _ | .assert _ _
  | .importNames _ | .importFrom _ _ | .globals _ | .nonlocals _ | .pass | .continue
  | .verbatim _ _ _ => false

/-- `leaves` of a block. -/
def leavesList : List Stmt → Bool
  | [] => false
  | s :: ss => leaves s || leavesList ss

/-- `leaves` of exception handlers. -/
def leavesHandlers : List (HandlerOf Stmt) → Bool
  | [] => false
  | ⟨_, _, body⟩ :: hs => leavesList body || leavesHandlers hs

end

end Paths

/-- Whether the analysis sees that a loop is left, if it is one that is always repeated and left by a
`break`. -/
def Stmt.seesBreaks : Stmt → Bool
  | .whileLoop t body _ => !t.isTrueConstant || !Paths.leavesList body || Paths.breaksList body
  | _ => true

/-- The analysis sees the breaks of all loops among the parts of a program. -/
def SeesBreaks (xs : List Node) : Prop := ∀ s, .stmt s ∈ xs → s.seesBreaks = true

theorem SeesBreaks.mono {xs ys : List Node} (h : SeesBreaks ys) (hsub : xs ⊆ ys) : SeesBreaks xs :=
  fun s hs => h s (hsub hs)

theorem SeesBreaks.of_append {xs ys : List Node} (h : SeesBreaks (xs ++ ys)) :
    SeesBreaks xs ∧ SeesBreaks ys :=
  ⟨h.mono (List.subset_append_left xs ys), h.mono (List.subset_append_right xs ys)⟩

namespace Machine

variable {α β : Type}

/-! ## Results of steps -/

/-- Every result of the step satisfies `P`. -/
def Gives (P : α → Prop) (x : Exec α) : Prop := ∀ s a t, x s = .ok a t → P a

namespace Gives

variable {P : α → Prop} {Q : β → Prop}

theorem ret {a : α} (h : P a) : Gives P (pure a) := by
  rintro s b t ⟨⟩
  exact h

theorem throw (e : Signal) : Gives P (throw e : Exec α) := nofun

theorem bind {x : Exec α} {f : α → Exec β} (hx : Gives P x) (hf : ∀ a, P a → Gives Q (f a)) :
    Gives Q (x >>= f) := by
  intro s b u h
  rw [Exec.bind_apply] at h
  cases hxs : x s with
  | ok a t =>
    rw [hxs] at h
    exact hf a (hx s a t hxs) t b u h
  | error e t =>
    rw [hxs] at h
    cases h

/-- What comes last decides, whatever came before. -/
theorem after {x : Exec α} {f : α → Exec β} (hf : ∀ a, Gives Q (f a)) : Gives Q (x >>= f) :=
  bind (P := fun _ => True) (fun _ _ _ _ => trivial) fun a _ => hf a

theorem mono {P' : α → Prop} {x : Exec α} (hx : Gives P x) (h : ∀ a, P a → P' a) : Gives P' x :=
  fun s a t hs => h a (hx s a t hs)

/-- A step that is run to the end, with the results it may have. -/
theorem attempt {x : Exec α} (hx : Gives P x) : Gives (fun r => ∀ a, r = .ok a → P a) (Exec.attempt x) := by
  rintro s r t h a rfl
  unfold Exec.attempt at h
  cases hxs : x s with
  | ok b u =>
    rw [hxs] at h
    cases h
    exact hx s a t hxs
  | error e u =>
    rw [hxs] at h
    cases h

theorem ofExcept {r : Except Signal α} (h : ∀ a, r = .ok a → P a) : Gives P (Exec.ofExcept r) := by
  cases r with
  | ok a => exact ret (h a rfl)
  | error e => exact throw e

end Gives

/-! ## Statements with blocks in them -/

/-- A loop over items is never left over with a `break`: the loop itself has taken it. -/
theorem forItems_takes (body : Value → Exec Flow) (items : List Value) :
    Gives (· ≠ some .break) (forItems body items) := by
  induction items with
  | nil => exact .ret nofun
  | cons x xs ih =>
    refine .after fun flow => ?_
    cases flow with
    | next | «continue» => exact ih
    | ret v => exact .ret nofun
    | «break» => exact .ret nofun

theorem whileHolds_takes (test : Exec Bool) (body : Exec Flow) (turns : Nat) :
    Gives (· ≠ some .break) (whileHolds test body turns) := by
  induction turns with
  | zero => exact .after fun _ => .throw _
  | succ turns ih =>
    refine .after fun holds => ?_
    cases holds with
    | false => exact .ret nofun
    | true =>
      refine .after fun flow => ?_
      cases flow with
      | next | «continue» => exact ih
      | ret v => exact .ret nofun
      | «break» => exact .ret nofun

/-- A loop whose test always holds and whose body has no `break` is left by `return` only. -/
theorem whileHolds_returns {test : Exec Bool} {body : Exec Flow} (htest : Gives (· = true) test)
    (hbody : Gives (· ≠ .break) body) (turns : Nat) :
    Gives (fun left => ∃ v, left = some (.ret v)) (whileHolds test body turns) := by
  induction turns with
  | zero => exact .after fun _ => .throw _
  | succ turns ih =>
    refine htest.bind fun holds hholds => ?_
    subst hholds
    refine hbody.bind fun flow hflow => ?_
    cases flow with
    | next | «continue» => exact ih
    | ret v => exact .ret ⟨v, rfl⟩
    | «break» => exact absurd rfl hflow

/-- What a loop leaves over ends the statement, or else its other branch does. -/
theorem Gives.afterLoop {P : Flow → Prop} {loop : Exec (Option Flow)} {orelse : Exec Flow}
    (hloop : Gives (fun left => ∀ exit, left = some exit → P exit) loop) (horelse : Gives P orelse) :
    Gives P (loop >>= fun left => match left with | some exit => pure exit | none => orelse) := by
  refine hloop.bind fun left hleft => ?_
  cases left with
  | none => exact horelse
  | some exit => exact .ret (hleft exit rfl)

theorem Gives.handling {P : Flow → Prop} {block : Exec Flow} (h : Gives P block) (e : Exception) :
    Gives P (whileHandling e block) :=
  .after fun _ => h.attempt.bind fun _ hr => .after fun _ => .ofExcept hr

/-- What comes after the guarded block may replace its flow, but not by going on. -/
theorem Gives.closed {P : Flow → Prop} {x : Exec Flow} {final : Option (Exec Flow)} (hx : Gives P x)
    (hfinal : ∀ y ∈ final, Gives (fun flow => flow ≠ .next → P flow) y) :
    Gives P (closing final x) := by
  refine hx.attempt.bind fun outcome hout => ?_
  cases final with
  | none => exact .ofExcept hout
  | some final =>
    refine (hfinal final rfl).bind fun flow hflow => ?_
    cases flow with
    | next => exact .ofExcept hout
    | _ => exact .ret (hflow nofun)

/-- A `finally` block that never just goes on decides how the statement ends. -/
theorem Gives.closed_final {x final : Exec Flow} (h : Gives (· ≠ .next) final) :
    Gives (· ≠ .next) (closing (some final) x) := by
  refine .after fun outcome => h.bind fun flow hflow => ?_
  cases flow with
  | next => exact absurd rfl hflow
  | _ => exact .ret hflow

/-- A guarded block ends by what follows its own end: its flow, the other branch or a handler. -/
theorem Gives.guards {P : Flow → Prop} {body orelse : Exec Flow} {handle : Exception → Exec Flow}
    {final : Option (Exec Flow)} {Q : Flow → Prop} (hbody : Gives Q body)
    (hflow : ∀ flow, Q flow → Gives P (closing final (pure flow)))
    (horelse : Q .next → Gives P (closing final orelse))
    (hhandle : ∀ e, Gives P (closing final (handle e))) :
    Gives P (guarded body orelse handle final) := by
  intro s flow t h
  rw [guarded_apply] at h
  have hbody := hbody s
  rcases hxs : body s with ⟨exit, u⟩ | ⟨e, u⟩
  · have hexit : Q exit := hbody exit u hxs
    rw [hxs] at h
    cases exit with
    | next =>
      refine horelse hexit u flow t ?_
      rw [closing_apply]
      exact h
    | ret _ | «break» | «continue» =>
      refine hflow _ hexit u flow t ?_
      rw [closing_apply]
      exact h
  · rw [hxs] at h
    cases e with
    | raise e =>
      refine hhandle e u flow t ?_
      rw [closing_apply]
      exact h
    | halt e => cases h

section

variable (call : Call) (env : Env)

/-! ## Statements without blocks -/

/-- The statement has no blocks that belong to the same run, and it goes on where it ends at all. -/
def goesStraightOn : Stmt → Bool
  | .define _ | .assign _ _ _ | .augAssign _ _ _ | .expr _ | .assert _ _ | .importNames _
  | .importFrom _ _ | .globals _ | .nonlocals _ | .pass | .verbatim _ _ _ => true
  | _ => false

theorem exec_straight {s : Stmt} (h : goesStraightOn s = true) : Gives (· = .next) (exec call env s) := by
  cases s with
  | define f =>
    rw [exec]
    refine .after fun _ => ?_
    split
    · exact .bind (.throw _) fun _ (h : False) => h.elim
    · exact .after fun _ => .after fun _ => .after fun _ => .ret rfl
  | assign targets value note =>
    rw [exec]
    exact .after fun _ => .after fun _ => .after fun _ => .ret rfl
  | augAssign target op value =>
    rw [exec]
    exact .after fun _ => .after fun _ => .after fun _ => .after fun _ => .after fun _ => .ret rfl
  | expr e =>
    rw [exec]
    exact .after fun _ => .after fun _ => .ret rfl
  | assert test msg =>
    rw [exec]
    refine .after fun _ => .after fun _ => .after fun holds => ?_
    split
    · exact .ret rfl
    · refine .after fun text => ?_
      cases text with
      | none => exact .throw _
      | some v => exact .after fun _ => .throw _
  | globals names | nonlocals names =>
    rw [exec]
    exact .after fun _ => .after fun _ => .ret rfl
  | pass =>
    rw [exec]
    exact .after fun _ => .ret rfl
  | importNames _ | importFrom _ _ | verbatim _ _ _ =>
    rw [exec]
    exact .after fun _ => .throw _
  | _ => cases h

theorem exec_raise {P : Flow → Prop} (exc cause : Option Expr) :
    Gives P (exec call env (.raise exc cause)) := by
  cases exc with
  | none =>
    rw [exec]
    refine .after fun _ => .after fun s => ?_
    split
    · exact .throw _
    · exact .throw _
  | some exc =>
    rw [exec]
    exact .after fun _ => .after fun _ => .after fun _ => .throw _

/-- A handler ends as its body does, and if none catches the exception, it goes on. -/
theorem execHandlers_cons {P : Flow → Prop} {e : Exception} {type : Option Expr} {name : Option String}
    {body : Block} {hs : List Handler} (hbody : Gives P (execBlock call env body))
    (hhs : Gives P (execHandlers call env e hs)) :
    Gives P (execHandlers call env e (⟨type, name, body⟩ :: hs)) := by
  have hcaught {x : Exec Flow} (hx : Gives P x) (caught : Bool) :
      Gives P (if caught then x else execHandlers call env e hs) := by
    cases caught with
    | false => exact hhs
    | true => exact hx
  have hhandled := hbody.handling e
  rw [execHandlers]
  refine .after fun handler => ?_
  cases name with
  | none =>
    cases handler with
    | none => exact hcaught hhandled true
    | some v => exact .after fun _ => .after (hcaught hhandled)
  | some n =>
    have hnamed : Gives P (Exec.newException e >>= fun v => Exec.bind env n v >>= fun _ =>
        whileHandling e (execBlock call env body)) := .after fun _ => .after fun _ => hhandled
    cases handler with
    | none => exact hcaught hnamed true
    | some v => exact .after fun _ => .after (hcaught hnamed)

/-! ## No break -/

mutual

theorem exec_no_break : (s : Stmt) → Paths.leaves s = false → Gives (· ≠ .break) (exec call env s)
  | .cond test body orelse, h => by
    obtain ⟨hbody, horelse⟩ := Bool.or_eq_false_iff.mp h
    rw [exec]
    refine .after fun _ => .after fun _ => .after fun holds => ?_
    split
    · exact execBlock_no_break body hbody
    · exact execBlock_no_break orelse horelse
  | .forLoop target iter body orelse, h => by
    rw [exec]
    refine .after fun _ => .after fun _ => .after fun items => ?_
    refine (forItems_takes _ items).bind fun left hleft => ?_
    cases left with
    | none => exact execBlock_no_break orelse h
    | some exit => exact .ret fun hexit => hleft (congrArg some hexit)
  | .whileLoop test body orelse, h => by
    rw [exec]
    refine .after fun _ => .after fun s => ?_
    refine (whileHolds_takes _ _ _).bind fun left hleft => ?_
    cases left with
    | none => exact execBlock_no_break orelse h
    | some exit => exact .ret fun hexit => hleft (congrArg some hexit)
  | .tryBlock body hs orelse final, h => by
    simp only [Paths.leaves, Bool.or_eq_false_iff] at h
    obtain ⟨⟨⟨hbody, hhs⟩, horelse⟩, hfinal⟩ := h
    have hclose {x : Exec Flow} (hx : Gives (· ≠ .break) x) :
        Gives (· ≠ .break) (closing (if final.isEmpty then none else some (execBlock call env final)) x) := by
      refine hx.closed fun y hy => ?_
      split at hy
      · cases hy
      · cases hy
        exact (execBlock_no_break final hfinal).mono fun _ hflow _ => hflow
    rw [exec]
    refine .after fun _ => ?_
    exact (execBlock_no_break body hbody).guards (fun flow hflow => hclose (.ret hflow))
      (fun _ => hclose (execBlock_no_break orelse horelse))
      fun e => hclose (execHandlers_no_break e hs hhs)
  | .raise exc cause, _ => exec_raise call env exc cause
  | .ret _, _ => by
    rw [exec]
    exact .after fun _ => .after fun _ => .ret nofun
  | .continue, _ => by
    rw [exec]
    exact .after fun _ => .ret nofun
  | .define _, _ | .assign _ _ _, _ | .augAssign _ _ _, _ | .expr _, _ | .assert _ _, _
  | .importNames _, _ | .importFrom _ _, _ | .globals _, _ | .nonlocals _, _ | .pass, _
  | .verbatim _ _ _, _ => (exec_straight call env rfl).mono fun
    | _, rfl => nofun

theorem execBlock_no_break : (ss : List Stmt) → Paths.leavesList ss = false →
    Gives (· ≠ .break) (execBlock call env ss)
  | [], _ => .ret nofun
  | s :: ss, h => by
    obtain ⟨hs, hss⟩ := Bool.or_eq_false_iff.mp h
    rw [execBlock]
    refine (exec_no_break s hs).bind fun flow hflow => ?_
    cases flow with
    | next => exact execBlock_no_break ss hss
    | _ => exact .ret hflow

theorem execHandlers_no_break (e : Exception) : (hs : List Handler) →
    Paths.leavesHandlers hs = false → Gives (· ≠ .break) (execHandlers call env e hs)
  | [], _ => .throw _
  | ⟨_, name, body⟩ :: hs, h => by
    obtain ⟨hbody, hhs⟩ := Bool.or_eq_false_iff.mp h
    exact execHandlers_cons call env (execBlock_no_break body hbody) (execHandlers_no_break e hs hhs)

end

/-! ## No end -/

/-- A test that is a constant which counts as true always holds. -/
theorem condition_of_isTrueConstant {t : Expr} (h : t.isTrueConstant = true) :
    Gives (· = true) (eval call env t >>= fun v => Exec.truthy v) := by
  cases t with
  | bool b =>
    obtain rfl : b = true := h
    rw [eval]
    refine .bind (P := fun v => v = .bool true) (.after fun _ => .ret rfl) ?_
    rintro _ rfl s _ t ⟨⟩
    rfl
  | int i =>
    rw [eval]
    refine .bind (P := fun v => v = .int i) (.after fun _ => .ret rfl) ?_
    rintro _ rfl s _ t ⟨⟩
    exact h
  | _ => cases h

mutual

theorem exec_not_next : (s : Stmt) → SeesBreaks s.nodes → Paths.goesOn s = false →
    Gives (· ≠ .next) (exec call env s)
  | .ret _, _, _ => by
    rw [exec]
    exact .after fun _ => .after fun _ => .ret nofun
  | .raise exc cause, _, _ => exec_raise call env exc cause
  | .cond test body orelse, hsees, h => by
    obtain ⟨⟨-, hbody⟩, horelse⟩ : (orelse.isEmpty = false ∧ Paths.fallsThrough body = false) ∧
        Paths.fallsThrough orelse = false := by
      simpa only [Paths.goesOn, Bool.or_eq_false_iff] using h
    obtain ⟨hseesBody, hseesOrelse⟩ :=
      ((hsees.mono (List.subset_cons_self _ _)).of_append.2).of_append
    rw [exec]
    refine .after fun _ => .after fun _ => .after fun holds => ?_
    split
    · exact execBlock_not_next body hseesBody hbody
    · exact execBlock_not_next orelse hseesOrelse horelse
  | .whileLoop test body orelse, hsees, h => by
    obtain ⟨htrue, hbreaks⟩ : test.isTrueConstant = true ∧ Paths.breaksList body = false := by
      simpa [Paths.goesOn] using h
    -- The loop is always repeated, and the analysis sees that no `break` leaves it.
    have hleaves : Paths.leavesList body = false := by
      simpa [Stmt.seesBreaks, htrue, hbreaks] using hsees (.whileLoop test body orelse) List.mem_cons_self
    rw [exec]
    refine .after fun _ => .after fun s => ?_
    refine (whileHolds_returns (condition_of_isTrueConstant call env htrue)
      (execBlock_no_break call env body hleaves) _).bind ?_
    rintro _ ⟨v, rfl⟩
    exact .ret nofun
  | .tryBlock body hs orelse final, hsees, h => by
    have hinside : SeesBreaks (Stmt.nodesList body ++ (Stmt.nodesHandlers hs ++
        (Stmt.nodesList orelse ++ Stmt.nodesList final))) := hsees.mono (List.subset_cons_self _ _)
    obtain ⟨hseesBody, hinside⟩ := hinside.of_append
    obtain ⟨hseesHandlers, hinside⟩ := hinside.of_append
    obtain ⟨-, hseesFinal⟩ := hinside.of_append
    rw [exec]
    refine .after fun _ => ?_
    by_cases hfinal : Paths.fallsThrough final = false
    · -- The `finally` block decides.
      cases final with
      | nil => cases hfinal
      | cons s rest =>
        have hclose {x : Exec Flow} := Gives.closed_final (x := x)
          (execBlock_not_next (s :: rest) hseesFinal hfinal)
        exact .guards (Q := fun _ => True) (fun _ _ _ _ => trivial) (fun _ _ => hclose) (fun _ => hclose)
          fun _ => hclose
    · -- The block itself does not go on, so its other branch is not reached.
      obtain ⟨hbody, hhs⟩ : Paths.fallsThrough body = false ∧ Paths.anyFallsThrough hs = false := by
        rw [Bool.not_eq_false] at hfinal
        simpa [Paths.goesOn, hfinal] using h
      have hclose {x : Exec Flow} (hx : Gives (· ≠ .next) x) :
          Gives (· ≠ .next) (closing (if final.isEmpty then none else some (execBlock call env final)) x) :=
        hx.closed fun _ _ _ _ _ _ hflow => hflow
      exact (execBlock_not_next body hseesBody hbody).guards (fun flow hflow => hclose (.ret hflow))
        (fun hnext => absurd rfl hnext) fun e => hclose (execHandlers_not_next e hs hseesHandlers hhs)

theorem execBlock_not_next : (ss : List Stmt) → SeesBreaks (Stmt.nodesList ss) →
    Paths.fallsThrough ss = false → Gives (· ≠ .next) (execBlock call env ss)
  | [s], hsees, h => by
    rw [execBlock]
    refine (exec_not_next s hsees.of_append.1 h).bind fun flow hflow => ?_
    cases flow with
    | next => exact absurd rfl hflow
    | _ => exact .ret hflow
  | s :: s' :: ss, hsees, h => by
    rw [execBlock]
    refine .after fun flow => ?_
    cases flow with
    | next => exact execBlock_not_next (s' :: ss) hsees.of_append.2 h
    | _ => exact .ret nofun

theorem execHandlers_not_next (e : Exception) : (hs : List Handler) →
    SeesBreaks (Stmt.nodesHandlers hs) → Paths.anyFallsThrough hs = false →
    Gives (· ≠ .next) (execHandlers call env e hs)
  | [], _, _ => .throw _
  | ⟨_, _, body⟩ :: hs, hsees, h => by
    obtain ⟨hbody, hhs⟩ := Bool.or_eq_false_iff.mp h
    obtain ⟨hseesBody, hseesHandlers⟩ := hsees.of_append.2.of_append
    exact execHandlers_cons call env (execBlock_not_next body hseesBody hbody)
      (execHandlers_not_next e hs hseesHandlers hhs)

end

end

end Machine

/-! ## Normal forms -/

namespace Normal

theorem isTrueConstant_expr (S : Scopes) (e : Expr) (k : Nat) :
    (expr S e k).1.isTrueConstant = e.isTrueConstant := by
  cases e with
  | comp kind e v cs => cases cs <;> rfl
  | _ => rfl

variable (S : Scopes)

mutual

theorem breaks_stmt : (s : Stmt) → ∀ k, Paths.breaks (stmt S s k).1 = Paths.breaks s
  | .cond t body orelse, k => by
    simp only [stmt, bind_apply, pure_apply, Paths.breaks, breaksList_stmtList body,
      breaksList_stmtList orelse]
  | .tryBlock body hs orelse final, k => by
    simp only [stmt, bind_apply, pure_apply, Paths.breaks, breaksList_stmtList body,
      breaksHandlers_stmtHandlers hs, breaksList_stmtList orelse, breaksList_stmtList final]
  | .define f, k => by
    rw [stmt_define]
    rfl
  | .forLoop _ _ _ _, _ | .whileLoop _ _ _, _ | .ret _, _ | .assign _ _ _, _ | .augAssign _ _ _, _
  | .expr _, _ | .raise _ _, _ | .assert _ _, _ | .importNames _, _ | .importFrom _ _, _
  | .globals _, _ | .nonlocals _, _ | .pass, _ | .break, _ | .continue, _ | .verbatim _ _ _, _ => rfl

theorem breaksList_stmtList : (ss : List Stmt) → ∀ k,
    Paths.breaksList (stmtList S ss k).1 = Paths.breaksList ss
  | [], _ => rfl
  | s :: ss, k => by
    simp only [stmtList, bind_apply, pure_apply, Paths.breaksList, breaks_stmt s, breaksList_stmtList ss]

theorem breaksHandlers_stmtHandlers : (hs : List Handler) → ∀ k,
    Paths.breaksHandlers (stmtHandlers S hs k).1 = Paths.breaksHandlers hs
  | [], _ => rfl
  | ⟨_, _, body⟩ :: hs, k => by
    simp only [stmtHandlers, bind_apply, pure_apply, Paths.breaksHandlers, breaksList_stmtList body,
      breaksHandlers_stmtHandlers hs]

end

mutual

theorem goesOn_stmt : (s : Stmt) → ∀ k, Paths.goesOn (stmt S s k).1 = Paths.goesOn s
  | .cond t body orelse, k => by
    simp only [stmt, bind_apply, pure_apply, Paths.goesOn, Idiom.isEmpty_stmtList,
      fallsThrough_stmtList body, fallsThrough_stmtList orelse]
  | .whileLoop t body orelse, k => by
    simp only [stmt, bind_apply, pure_apply, Paths.goesOn, isTrueConstant_expr, breaksList_stmtList]
  | .tryBlock body hs orelse final, k => by
    simp only [stmt, bind_apply, pure_apply, Paths.goesOn, fallsThrough_stmtList body,
      anyFallsThrough_stmtHandlers hs, fallsThrough_stmtList final]
  | .define f, k => by
    rw [stmt_define]
    rfl
  | .forLoop _ _ _ _, _ | .ret _, _ | .assign _ _ _, _ | .augAssign _ _ _, _
  | .expr _, _ | .raise _ _, _ | .assert _ _, _ | .importNames _, _ | .importFrom _ _, _
  | .globals _, _ | .nonlocals _, _ | .pass, _ | .break, _ | .continue, _ | .verbatim _ _ _, _ => rfl

theorem fallsThrough_stmtList : (ss : List Stmt) → ∀ k,
    Paths.fallsThrough (stmtList S ss k).1 = Paths.fallsThrough ss
  | [], _ => rfl
  | [s], k => goesOn_stmt s k
  | s :: s' :: ss, k => fallsThrough_stmtList (s' :: ss) (stmt S s k).2

theorem anyFallsThrough_stmtHandlers : (hs : List Handler) → ∀ k,
    Paths.anyFallsThrough (stmtHandlers S hs k).1 = Paths.anyFallsThrough hs
  | [], _ => rfl
  | ⟨_, _, body⟩ :: hs, k => by
    simp only [stmtHandlers, bind_apply, pure_apply, Paths.anyFallsThrough, fallsThrough_stmtList body,
      anyFallsThrough_stmtHandlers hs]

end

theorem fallsThrough_function (f : Function) :
    Paths.fallsThrough (function f).body = Paths.fallsThrough f.body := by
  rw [body_function]
  exact fallsThrough_stmtList _ f.body _

end Normal

/-- The profile says of the entry function of a module whether control may reach its end. -/
theorem Module.implicitReturn_eq (mode : Mode) (m : Module) :
    (m.normalize.executionPaths (mode = .enhanced)).implicitReturn =
      m.primary?.any fun f => Paths.fallsThrough f.body := by
  show m.normalize.primary?.any _ = _
  rw [primary?, functions_normalize, List.head?_map, Option.any_map]
  congr 1
  funext f
  exact Normal.fallsThrough_function f

/-! ## The analysis of paths -/

namespace Paths

open Machine

theorem execBlock_of_not_fallsThrough {b : Block} (hsees : ∀ s ∈ Block.stmts b, s.seesBreaks = true)
    (h : fallsThrough b = false) (call : Call) (env : Env) (s t : State) :
    execBlock call env b s ≠ .ok .next t := by
  intro hrun
  have hnodes : SeesBreaks (Stmt.nodesList b) :=
    fun s hs => hsees s (List.mem_filterMap.mpr ⟨_, hs, rfl⟩)
  exact execBlock_not_next call env b hnodes h s .next t hrun rfl

/-- A block of which the analysis says that control does not reach its end never just goes on, if the
analysis sees the breaks of its loops; in particular, the entry function of a module does not return by
running off its end if its profile says so. -/
theorem fallsThrough_sound (call : Call) (env : Env) (s t : State) :
    (∀ b : Block, (∀ s ∈ Block.stmts b, s.seesBreaks = true) → fallsThrough b = false →
      execBlock call env b s ≠ .ok .next t) ∧
    (∀ (mode : Mode) (m : Module) (paths : ExecutionPaths) (f : Function),
      (m.profile mode).get? .executionPaths = some (.executionPaths paths) →
      paths.implicitReturn = false → m.primary? = some f →
      (∀ s ∈ Block.stmts f.body, s.seesBreaks = true) → execBlock call env f.body s ≠ .ok .next t) := by
  refine ⟨fun b hsees h => execBlock_of_not_fallsThrough hsees h call env s t, ?_⟩
  intro mode m paths f hpaths himplicit hf hsees
  rw [Module.get?_profile] at hpaths
  obtain rfl : m.normalize.executionPaths (mode = .enhanced) = paths := by
    injection hpaths with hpaths
    injection hpaths
  rw [Module.implicitReturn_eq, hf] at himplicit
  exact execBlock_of_not_fallsThrough hsees himplicit call env s t

/-- A loop that is always repeated, with a `break` for a loop inside it and one way out. -/
theorem fallsThrough_sound_while :
    let body : Block := [
      .whileLoop (.bool true) [
        .forLoop (.name "i") (.name "x") [.break] [.continue],
        .tryBlock [.expr (.call (.name "f") [])] [⟨none, none, [.ret none]⟩] [] []] []]
    let m : Module := ⟨[.define { name := "f", params := [{ name := "x" }], body }]⟩
    (∃ paths, (m.profile .baseline).get? .executionPaths = some (.executionPaths paths) ∧
      paths.implicitReturn = false) ∧
      ∀ call env s t, execBlock call env body s ≠ .ok .next t := by
  intro body m
  have hsees : ∀ s ∈ Block.stmts body, s.seesBreaks = true := by decide +kernel
  have himplicit : (m.normalize.executionPaths false).implicitReturn = false := by decide +kernel
  refine ⟨⟨_, m.get?_profile .baseline _, himplicit⟩, fun call env s t => ?_⟩
  have hsound := fallsThrough_sound call env s t
  exact hsound.2 .baseline m _ _ (m.get?_profile .baseline _) himplicit rfl hsees

/-- The loop inside runs to its end at once, and the `break` in its other branch leaves the loop around
it. -/
theorem fallsThrough_overlooks_break :
    let body : Block := [
      .whileLoop (.bool true) [.forLoop (.name "x") (.list []) [.pass] [.break]] []]
    Module.parse? "def f():\n    while True:\n        for x in []:\n            pass\n        else:\n            break\n" =
      some ⟨[.define { name := "f", params := [], body }]⟩ ∧
    fallsThrough body = false ∧
      ∃ t, execBlock (callAt 40) none body (State.initial {}) = .ok .next t := by
  intro body
  refine ⟨by decide +kernel, rfl, _, rfl⟩

end Paths

end Concord
