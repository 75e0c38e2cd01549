import Concord.Proofs.Machine.Folding
import Concord.Proofs.Machine.Unread
import Concord.Proofs.Probe.Verdict
import Concord.Proofs.Strategy.Rewriting
import Concord.Proofs.Strategy.Settled

/-!
# Values folded into a return

A chain of assignments to a name, folded into the return that reads it, does what the chain does if each
value is evaluated where it was: if the return, and every value but the first, leads with the name
(`Idiom.isOrdered`). The idiom asks for less. It counts how often the name is read, and calls, but not
what comes before the name in the expression that takes the value up.

Main statements:

* `Strategy.inlineChain_preserves`: a run of a module that comes to an end comes to the same end with an
  ordered chain folded.
* `Machine.inlineChain_reordered`: a chain that the idiom accepts, and that gives another value when it
  is folded.
-/

namespace Concord

/-! ## Chains in order -/

/-- The expression of a return, or the value of an assignment to a name. -/
def Stmt.value? : Stmt → Option Expr
  | .ret value => value
  | s => s.asNameAssign?.map (·.2)

/-- Given the statements up to a return from the last to the first: the first so many of them follow
an assignment to the name, and lead with it. -/
def Idiom.isOrdered (t : String) : Nat → Block → Bool
  | 0, _ => true
  | count + 1, later :: earlier :: rest =>
    later.value?.any (·.leads t) &&
      earlier.asNameAssign?.any (fun (name, v) => name == t && !v.isStarred) &&
      isOrdered t count (earlier :: rest)
  | _ + 1, _ => false

namespace Strategy

open Block (Inside)
open Machine (Folds)

variable {t : String}

/-- What takes the value of an assignment up can stand in its place. -/
theorem isOrdered_head {count : Nat} {s s' : Stmt} {rest : Block}
    (h : ∀ e ∈ s.value?, e.leads t = true → ∃ e' ∈ s'.value?, e'.leads t = true)
    (hs : Idiom.isOrdered t count (s :: rest) = true) :
    Idiom.isOrdered t count (s' :: rest) = true := by
  cases count with
  | zero => rfl
  | succ count =>
    cases rest with
    | nil => simp [Idiom.isOrdered] at hs
    | cons earlier rest =>
      simp only [Idiom.isOrdered, Bool.and_eq_true, Option.any_eq_true] at hs ⊢
      obtain ⟨⟨⟨e, he, hleads⟩, hearlier⟩, hrest⟩ := hs
      exact ⟨⟨h e he hleads, hearlier⟩, hrest⟩

/-- Folding an ordered chain goes step by step, from the last assignment to the first. -/
theorem foldReturn_steps (after : Block) (count : Nat) (before : Block) (e : Expr)
    (h : Idiom.isOrdered t count (.ret (some e) :: before.reverse) = true) :
    ∃ b, foldReturn count (before ++ .ret (some e) :: after) before.length = some b ∧
      Relation.ReflTransGen (Inside (Folds t)) (before ++ .ret (some e) :: after) b := by
  induction count generalizing before e with
  | zero => exact ⟨_, by rw [foldReturn], .refl⟩
  | succ count ih =>
    rcases before.eq_nil_or_concat' with rfl | ⟨init, s, rfl⟩
    · simp [Idiom.isOrdered] at h
    · simp only [List.reverse_append, List.reverse_cons, List.reverse_nil,
        List.nil_append, List.singleton_append, Idiom.isOrdered, Bool.and_eq_true, Option.any_eq_true,
        Stmt.value?, Option.some.injEq, exists_eq_left', beq_iff_eq, Bool.not_eq_true'] at h
      obtain ⟨⟨he, ⟨name, v⟩, hs, hname, hv⟩, hrest⟩ := h
      obtain rfl : t = name := hname.symm
      obtain rfl := eq_of_asNameAssign? hs
      -- The return has taken the value up, and leads with the name as the value does.
      have hordered : Idiom.isOrdered t count (.ret (some (e.substitute t v)) :: init.reverse) =
          true := by
        refine isOrdered_head (fun w hw hleads => ?_) hrest
        cases hw
        exact ⟨_, rfl, by rw [Expr.substitute_eq_map]; exact Expr.leads_map hleads e he⟩
      obtain ⟨b, hb, hsteps⟩ := ih init _ hordered
      have hstep : Inside (Folds t)
          ((init ++ [.assign [.name t] v none]) ++ .ret (some e) :: after)
          (init ++ .ret (some (e.substitute t v)) :: after) := by
        rw [List.append_assoc, List.singleton_append]
        exact .after init (.here (.intro none after hv he))
      refine ⟨b, ?_, .head ?_ hsteps⟩
      · rw [List.length_append, List.length_singleton, foldReturn_succ, hb]
      · exact hstep

/-- Folding a chain, as the strategy does it, where the chain is ordered as far as it is folded. -/
theorem inlineChain_steps {wanted i : Nat} {block folded : Block}
    (hordered : Idiom.isOrdered t (min wanted (Idiom.returnChainLength block i))
      (block.take (i + 1)).reverse = true)
    (h : inlineChain wanted block i = some folded) :
    Relation.ReflTransGen (Inside (Folds t)) block folded := by
  unfold inlineChain at h
  split at h
  · cases h
  · next count hcount =>
    have hlength : Idiom.returnChainLength block i ≠ 0 := by
      intro hzero
      exact hcount (by rw [hzero, Nat.min_zero])
    obtain ⟨e, hret⟩ := exists_return (decide_eq_true (Nat.pos_of_ne_zero hlength))
    obtain ⟨hlt, hget⟩ := List.getElem?_eq_some_iff.mp hret
    have hblock : block = block.take i ++ .ret (some e) :: block.drop (i + 1) := by
      rw [← hget, List.getElem_cons_drop, List.take_append_drop]
    have hi : (block.take i).length = i := List.length_take_of_le (Nat.le_of_lt hlt)
    rw [List.take_succ_eq_append_getElem hlt, hget, List.reverse_append, List.reverse_singleton,
      List.singleton_append] at hordered
    obtain ⟨b, hb, hsteps⟩ :=
      foldReturn_steps (block.drop (i + 1)) _ (block.take i) e hordered
    rw [← hblock, hi, h] at hb
    cases hb
    rw [← hblock] at hsteps
    exact hsteps

end Strategy

/-! ## Runs -/

open Machine Probe

variable {t : String} {fuel depth : Nat} {entry : String} {data : List Datum} {r : Probe.Run}

/-- A run that comes to an end comes to the same end with assignments folded into returns. -/
theorem Probe.runOn_folds {f : Function} {before after b b' : Block}
    (hsteps : Relation.ReflTransGen (Block.Inside (Folds t)) b b')
    (hfits : FitsIn [t] .running (Block.nodes b))
    (hrun : runOn ⟨fuel, depth⟩ ⟨before ++ .define { f with body := b } :: after⟩ entry data = .ok r) :
    ∃ need, ∀ fuel', need ≤ fuel' → ∃ cs,
      runOn ⟨fuel', depth⟩ ⟨before ++ .define { f with body := b' } :: after⟩ entry data =
        .ok { r with heap := r.heap.withClosures cs } := by
  let swaps (b b' : Block) : Prop :=
    Block.Inside (Folds t) b b' ∧ FitsIn [t] .running (Block.nodes b)
  have hswaps : Attains.Exchanges [t] swaps := fun _ _ hcalls _ _ hb _ =>
    (hcalls.inside (fun _ _ hb hfits => hcalls.folds hb hfits) hb.1 hb.2).weaken fun _ _ => trivial
  have hsame (b : Block) : List.Forall₂ (Exchanged swaps) b b :=
    List.forall₂_same.mpr fun s _ => .same s
  induction hsteps using Relation.ReflTransGen.head_induction_on generalizing fuel r with
  | refl => exact runOn_exchanged hswaps (hsame _) hrun
  | @head x y hstep _ ih =>
    have hdefine : Exchanged swaps (.define { f with body := x }) (.define { f with body := y }) :=
      Exchanged.body (f := { f with body := x }) ⟨hstep, hfits⟩
    have hbodies : List.Forall₂ (Exchanged swaps)
        (before ++ .define { f with body := x } :: after)
        (before ++ .define { f with body := y } :: after) :=
      List.rel_append (hsame before) (.cons hdefine (hsame after))
    obtain ⟨need, hneed⟩ := runOn_exchanged hswaps hbodies hrun
    obtain ⟨cs, hnext⟩ := hneed need (Nat.le_refl need)
    have hlast := ih (fitsIn_of_inside (fun _ _ hb => hb.fitsIn) hstep hfits) hnext
    -- The two changes of the heap concern the code of functions, and the last one counts.
    exact hlast

namespace Strategy

/-- Folding a chain of assignments into a return preserves every run that comes to an end, if the chain
is ordered as far as it is folded, stands in the function's own code outside of guarded blocks, and the
name is neither declared to belong elsewhere nor mentioned in a function that is made there. -/
theorem inlineChain_preserves {m m' : Module} {f : Function} {site : Site} {wanted i : Nat}
    {block : Block} (hf : m.function? site.function = some f)
    (hsite : (Block.sites Idiom.isReturnChain f.body)[site.occurrence]? = some (block, i))
    (hordered : Idiom.isOrdered t (min wanted (Idiom.returnChainLength block i))
      (block.take (i + 1)).reverse = true)
    (hopen : (Block.nodes f.body).all (·.isOpen Idiom.isReturnChain) = true)
    (hshelters : (Block.nodes f.body).all (·.shelters [t]) = true)
    (hedit : editAt Idiom.isReturnChain (inlineChain wanted) site m = .ok (some m'))
    (hrun : runOn ⟨fuel, depth⟩ m entry data = .ok r) :
    ∃ need, ∀ fuel', need ≤ fuel' → ∃ cs,
      runOn ⟨fuel', depth⟩ m' entry data = .ok { r with heap := r.heap.withClosures cs } := by
  have hresult : m.editFunction? site.function (fun f =>
      (Block.editNth? Idiom.isReturnChain (inlineChain wanted) f.body site.occurrence).map
        fun body => { f with body }) = some m' := by
    simpa only [editAt, inBody, inFunction, hf, Except.ok.injEq] using hedit
  obtain ⟨g, before, after, hg, hbody, hbody'⟩ := Module.eq_of_editFunction? hf hresult
  obtain ⟨b, hb, rfl⟩ := Option.map_eq_some_iff.mp hg
  obtain ⟨folded, hfold, hinside⟩ := Block.editNth?_inside
    (R := Relation.ReflTransGen (Block.Inside (Folds t))) (List.all_eq_true.mp hopen) hsite hb
  have hsteps := (hinside (inlineChain_steps hordered hfold)).steps
  obtain ⟨body⟩ := m
  obtain ⟨body'⟩ := m'
  cases hbody
  cases hbody'
  exact Probe.runOn_folds hsteps (List.all_eq_true.mp hshelters) hrun

/-- Two assignments folded into a return that stands in a branch. -/
theorem inlineChain_preserves_branch :
    let t : Expr := .name "t"
    let x : Expr := .name "x"
    let chain : Block :=
      [.assign [t] (.bin .add x (.int 1)) none, .assign [t] (.bin .mul t (.int 2)) none,
        .ret (some (.bin .sub t x))]
    let folded : Block :=
      [.ret (some (.bin .sub (.bin .mul (.bin .add x (.int 1)) (.int 2)) x))]
    let program (branch : Block) : Module :=
      ⟨[.define ⟨"f", [⟨"x", .regular, none, none⟩], [.cond x branch []], [], none, false⟩]⟩
    ∃ r, runOn ⟨100, 1⟩ (program chain) "f" [.int 3] = .ok r ∧ r.outcome.text r.heap = "5" ∧
      ∃ need, ∀ fuel', need ≤ fuel' → ∃ cs, runOn ⟨fuel', 1⟩ (program folded) "f" [.int 3] =
        .ok { r with heap := r.heap.withClosures cs } := by
  intro t x chain folded program
  have htext : ((runOn ⟨100, 1⟩ (program chain) "f" [.int 3]).toOption.map fun r =>
      r.outcome.text r.heap) = some "5" := by decide +kernel
  cases hrun : runOn ⟨100, 1⟩ (program chain) "f" [.int 3] with
  | error e =>
    rw [hrun] at htext
    cases htext
  | ok r =>
    rw [hrun] at htext
    have hf : (program chain).function? (Site.mk "f" 0).function =
        some ⟨"f", [⟨"x", .regular, none, none⟩], [.cond x chain []], [], none, false⟩ := rfl
    have hsite : (Block.sites Idiom.isReturnChain [.cond x chain []])[(Site.mk "f" 0).occurrence]? =
        some (chain, 2) := rfl
    have hordered : Idiom.isOrdered "t" (min 2 (Idiom.returnChainLength chain 2))
        (chain.take 3).reverse = true := by decide +kernel
    have hedit : editAt Idiom.isReturnChain (inlineChain 2) ⟨"f", 0⟩ (program chain) =
        .ok (some (program folded)) := rfl
    exact ⟨r, rfl, Option.some.inj htext, inlineChain_preserves hf hsite hordered (by decide +kernel)
      (by decide +kernel) hedit hrun⟩

end Strategy

namespace Machine

open Strategy (inlineChain)

/-- `log == [] and t`, where `t` was taken off `log`: with the value in the place of the name, the
comparison comes first, and nothing is taken off. -/
theorem inlineChain_reordered :
    let pop : Expr := .call (.attribute (.name "log") "pop") []
    let compared : Expr := .compare (.name "log") [(.eq, .list [])]
    let start : Stmt := .assign [.name "log"] (.list [.name "x"]) none
    let block : Block :=
      [start, .assign [.name "t"] pop none, .ret (some (.logic .and compared (.name "t")))]
    let folded : Block := [start, .ret (some (.logic .and compared pop))]
    let answer (body : Block) :=
      (invoke ⟨100, 1⟩ ⟨[.define ⟨"f", [⟨"x", .regular, none, none⟩], body, [], none, false⟩]⟩ "f"
        fun h => ([.int 0], h)).toOption.map fun r => r.1.text r.2.2
    inlineChain 1 block 2 = some folded ∧
      answer block = some "0" ∧ answer folded = some "False" := by
  intro pop compared start block folded answer
  exact ⟨by rfl, by decide +kernel, by decide +kernel⟩

end Machine

end Concord

/-!
## Stores that nothing reads

A store to a variable of a function is dead if the first statement behind it that mentions the variable
overwrites it, or none mentions it (`Idiom.deadStores`). Then nothing reads what it stores, as long as no
function that is made in the body can: only its value is left to be evaluated, and of a constant nothing
is left.

Main statements:

* `Strategy.deadStore_preserves`: a run of a module that comes to an end comes to the same end without
  the store.
* `Machine.deadStores_read`: a function that was made before reads a store that counts as dead.
* `Machine.deadStores_raise`: a store that counts as dead raises an exception, which the caller handles.
-/

namespace Concord

namespace Machine

variable {t : String} {g : Stage} {i : Nat} {swaps : Block → Block → Prop} {call call' : Call}

/-! ### Dropping a store -/

/-- A store that nothing reads is dropped from a block: its value is still evaluated, unless it is a
constant. -/
inductive Discards (t : String) : Block → Block → Prop
  | store (v : Expr) {post : Block} (hpost : Idiom.isUnread t post = true) :
    Discards t (.assign [.name t] v none :: post) (.expr v :: post)
  | whole {v : Expr} (hv : v.isConstant = true) {post : Block} (hpost : Idiom.isUnread t post = true) :
    Discards t (.assign [.name t] v none :: post) post
  | pass {v : Expr} (hv : v.isConstant = true) {post : Block} (hpost : Idiom.isUnread t post = true) :
    Discards t (.assign [.name t] v none :: post) (.pass :: post)
  | later (s : Stmt) {b b' : Block} (h : Discards t b b') : Discards t (s :: b) (s :: b')

/-- The expression mentions the name nowhere, and so it fits where the name is hidden. -/
theorem fits_of_notMem {e : Expr} (hg : g.reserved [t] ⊆ [t])
    (hx : ∀ x ∈ Stmt.exprNodes e.subterms, x.secludes [t] = true)
    (h : t ∉ e.nameOccurrences) : Fits [t] g e.subterms := by
  apply fits_of_secludes hg hx
  intro _ hmem
  obtain ⟨x, hxmem, hname⟩ := List.mem_map.mp hmem
  cases hname
  exact h (List.mem_filterMap.mpr ⟨_, hxmem, rfl⟩)

/-- The statement does not mention the name, and so it fits where the name is hidden. -/
theorem fitsIn_of_notMem {s : Stmt} (hg : g.reserved [t] ⊆ [t]) (hx : ∀ x ∈ s.nodes, x.secludes [t] = true)
    (hdeclared : t ∉ s.declared) (hnames : t ∉ Block.nameOccurrences [s])
    (hbound : t ∉ Stmt.bound true s) : FitsIn [t] g s.nodes := by
  refine fitsIn_of_secludes hg s hx hdeclared fun _ => ⟨fun hmem => ?_, hbound⟩
  apply hnames
  refine List.mem_filterMap.mpr ⟨.name t, List.mem_filterMap.mpr ⟨.expr (.name t), ?_, rfl⟩, rfl⟩
  rw [Block.nodes, Stmt.nodesList, Stmt.nodesList, List.append_nil]
  exact hmem

namespace Attains

/-- What comes behind a store that nothing reads, up to where the variable is overwritten or to the
end of the call. -/
theorem Calls.ends (h : Calls [t] swaps call call') {start : Stages} (post : Block)
    (hunread : Idiom.isUnread t post = true)
    (hx : ∀ x ∈ Stmt.nodesList post, x.secludes [t] = true) (hdeclared : t ∉ Stmt.declaredList post) :
    Ends [t] swaps i start (Machine.execBlock call (some i) post)
      (Machine.execBlock call' (some i) post) := by
  induction post with
  | nil =>
    rw [Machine.execBlock, Machine.execBlock]
    exact Ends.ret _
  | cons s rest ih =>
    simp only [Stmt.nodesList, List.forall_mem_append] at hx
    simp only [Stmt.declaredList, List.mem_append, not_or] at hdeclared
    rw [Idiom.isUnread] at hunread
    split at hunread
    · -- The statement overwrites the variable, and from there on the runs agree.
      split at hunread
      · next name next hs =>
        simp only [Bool.and_eq_true, beq_iff_eq, Bool.not_eq_true', ← Bool.not_eq_true,
          List.contains_iff_mem] at hunread
        obtain ⟨rfl, hnext⟩ := hunread
        obtain rfl := Strategy.eq_of_asNameAssign? hs
        simp only [Stmt.nodes, List.forall_mem_cons, Stmt.exprNodes, List.map_append,
          List.forall_mem_append] at hx
        have hvalue (g : Stage) (hg : g.reserved [name] ⊆ [name]) :=
          h.eval (some i) (g := g) next (fits_of_notMem hg hx.1.2.1 hnext)
        have hrest := h.execBlock (some i) (g := .running) rest
          (fitsIn_of_secludesList (List.Subset.refl _) rest hx.2 hdeclared.2 (absurd · Bool.false_ne_true))
        rw [execBlock_assign, execBlock_assign]
        exact Ends.bind (charge 1) (charge 1) fun _ =>
          Ends.bind (hvalue .ended (List.Subset.refl _)) (hvalue .running (List.Subset.refl _)) fun w =>
          Ends.overwrite hrest w
      · cases hunread
    · next hmentions =>
      simp only [Bool.or_eq_true, List.contains_iff_mem, not_or] at hmentions
      have hstep (g : Stage) (hg : g.reserved [t] ⊆ [t]) := h.exec (some i) (g := g) s
        (fitsIn_of_notMem hg hx.1 hdeclared.1 hmentions.1 hmentions.2)
      rw [Machine.execBlock, Machine.execBlock]
      refine Ends.bind (hstep .ended (List.Subset.refl _)) (hstep .running (List.Subset.refl _))
        fun flow => ?_
      cases flow with
      | next => exact ih hunread hx.2 hdeclared.2
      | _ => exact Ends.ret _

/-- Where a store that nothing reads is dropped, the runs part at the end of the call at the most. -/
theorem Calls.discards (h : Calls [t] swaps call call') {b b' : Block} (hb : Discards t b b')
    (hx : ∀ x ∈ Stmt.nodesList b, x.secludes [t] = true) (hdeclared : t ∉ Stmt.declaredList b) :
    Parts [t] swaps i (fun _ => True) (Machine.execBlock call (some i) b)
      (Machine.execBlock call' (some i) b') := by
  have hdropped {v : Expr} (hv : v.isConstant = true) {post : Block}
      (hends : ∀ start, Ends [t] swaps i start (Machine.execBlock call (some i) post)
        (Machine.execBlock call' (some i) post)) :
      Parts [t] swaps i (fun _ => True)
        (Machine.execBlock call (some i) (.assign [.name t] v none :: post))
        (Machine.execBlock call' (some i) post) := by
    obtain ⟨c, hc⟩ := eval_constant hv
    rw [execBlock_assign, hc, bind_assoc]
    exact ((Parts.discard c hends).paid 1).paid 1
  induction hb with
  | @store v post hpost =>
    simp only [Stmt.nodesList, Stmt.nodes, List.forall_mem_append, List.forall_mem_cons,
      Stmt.exprNodes, List.map_append] at hx
    simp only [Stmt.declaredList, List.mem_append, not_or] at hdeclared
    have hvalue := h.eval (some i) (g := .running) v 
      (fits_of_secludes (List.Subset.refl _) hx.1.2.1 (absurd · Bool.false_ne_true))
    rw [execBlock_assign, Machine.execBlock, Machine.exec]
    simp only [bind_assoc, pure_bind]
    exact .after (charge 1) fun _ => .after hvalue fun w =>
      .discard w fun start => h.ends post hpost hx.2 hdeclared.2
  | @whole v hv post hpost =>
    simp only [Stmt.nodesList, List.forall_mem_append] at hx
    simp only [Stmt.declaredList, List.mem_append, not_or] at hdeclared
    exact hdropped hv fun start => h.ends post hpost hx.2 hdeclared.2
  | @pass v hv post hpost =>
    simp only [Stmt.nodesList, List.forall_mem_append] at hx
    simp only [Stmt.declaredList, List.mem_append, not_or] at hdeclared
    have hpass : Machine.execBlock call' (some i) (.pass :: post) =
        (Exec.charge 1 >>= fun _ => Machine.execBlock call' (some i) post) := by
      simp only [Machine.execBlock, Machine.exec, bind_assoc, pure_bind]
    rw [hpass]
    exact (hdropped hv fun start => h.ends post hpost hx.2 hdeclared.2).paying 1
  | later s _ ih =>
    simp only [Stmt.nodesList, List.forall_mem_append] at hx
    simp only [Stmt.declaredList, List.mem_append, not_or] at hdeclared
    have hstep := h.exec (some i) (g := .running) s 
      (fitsIn_of_secludes (List.Subset.refl _) s hx.1 hdeclared.1 (absurd · Bool.false_ne_true))
    rw [Machine.execBlock, Machine.execBlock]
    refine .after hstep fun flow => ?_
    cases flow with
    | next => exact ih hx.2 hdeclared.2
    | _ => exact (Attains.ret _).parts

end Attains

end Machine

/-! ### Stores that count as dead -/

namespace Strategy

open Machine Probe

variable {t : String} {v : Expr} {k : Nat}

theorem mem_deadStores {f : Function} (hk : k ∈ Idiom.deadStores f)
    (hstore : f.body[k]?.bind Stmt.asNameAssign? = some (t, v)) :
    t ∉ Block.declaredOuter f.body ∧ Idiom.isUnread t (f.body.drop (k + 1)) = true := by
  obtain ⟨-, hdead⟩ := List.mem_filter.mp hk
  rw [hstore] at hdead
  simp only [Bool.and_eq_true, Bool.not_eq_true', ← Bool.not_eq_true, List.contains_iff_mem] at hdead
  exact ⟨hdead.1.1, hdead.2⟩

/-- A statement at a position, with the statements before it. -/
theorem discards_at {b : Block} (hstore : b[k]? = some (.assign [.name t] v none)) {post' : Block}
    (h : Discards t (.assign [.name t] v none :: b.drop (k + 1)) post') :
    Discards t b (b.take k ++ post') := by
  induction b generalizing k with
  | nil => cases hstore
  | cons s rest ih =>
    cases k with
    | zero =>
      cases hstore
      exact h
    | succ k =>
      exact .later s (ih hstore h)

/-- What is left of a body without a dead store: the value is still evaluated, unless it is a constant
and nothing is left of the store. -/
theorem discards_of_mem_deadStores {f : Function} (hk : k ∈ Idiom.deadStores f)
    (hstore : f.body[k]?.bind Stmt.asNameAssign? = some (t, v)) {body : Block}
    (hbody : body = f.body.set k (.expr v) ∨
      v.isConstant = true ∧ body = nonempty (f.body.eraseIdx k)) : Discards t f.body body := by
  obtain ⟨-, hunread⟩ := mem_deadStores hk hstore
  obtain ⟨s, hs, hassign⟩ := Option.bind_eq_some_iff.mp hstore
  obtain rfl := eq_of_asNameAssign? hassign
  have hlt : k < f.body.length := (List.getElem?_eq_some_iff.mp hs).1
  obtain rfl | ⟨hv, rfl⟩ := hbody
  · rw [List.set_eq_take_append_cons_drop, if_pos hlt]
    exact discards_at hs (.store v hunread)
  · rw [nonempty, List.eraseIdx_eq_take_drop_succ]
    split
    · next hempty =>
      -- The store is all there is.
      obtain ⟨hbefore, hafter⟩ := List.append_eq_nil_iff.mp (List.isEmpty_iff.mp hempty)
      have h := discards_at hs (Discards.pass hv hunread)
      rwa [hbefore, hafter] at h
    · exact discards_at hs (.whole hv hunread)

/-! ### Runs -/

variable {fuel depth : Nat} {name entry : String} {data : List Datum} {r : Probe.Run}

/-- A run of a module that comes to an end, by a return or an exception, comes to the same end without
a dead store of a function, with the same arguments and containers, if no function that is made in its
body mentions the variable: without the store, the value is still evaluated, and a constant is not even
that. -/
theorem deadStore_preserves {m m' : Module} {f : Function} {body : Block}
    (hf : m.function? name = some f) (hdead : k ∈ Idiom.deadStores f)
    (hstore : f.body[k]?.bind Stmt.asNameAssign? = some (t, v))
    (hsecludes : (Block.nodes f.body).all (·.secludes [t]) = true)
    (hbody : body = f.body.set k (.expr v) ∨
      v.isConstant = true ∧ body = nonempty (f.body.eraseIdx k))
    (hedit : m.editFunction? name (fun f => some { f with body }) = some m')
    (hrun : runOn ⟨fuel, depth⟩ m entry data = .ok r) :
    ∃ need, ∀ fuel', need ≤ fuel' → ∃ cs,
      runOn ⟨fuel', depth⟩ m' entry data = .ok { r with heap := r.heap.withClosures cs } := by
  have hdiscards := discards_of_mem_deadStores hdead hstore hbody
  have hdeclared : t ∉ Stmt.declaredList f.body := fun hmem =>
    (mem_deadStores hdead hstore).1 (Names.mem_ofList.mpr hmem)
  obtain ⟨g, before, after, hg, hm, hm'⟩ := Module.eq_of_editFunction? hf hedit
  cases hg
  let swaps (b b' : Block) : Prop := Discards t b b' ∧
    (∀ x ∈ Stmt.nodesList b, x.secludes [t] = true) ∧ t ∉ Stmt.declaredList b
  have hswaps : Attains.Exchanges [t] swaps := fun _ _ hcalls _ _ hb _ =>
    hcalls.discards hb.1 hb.2.1 hb.2.2
  have hsame (b : Block) : List.Forall₂ (Exchanged swaps) b b :=
    List.forall₂_same.mpr fun s _ => .same s
  have hdefine : Exchanged swaps (.define f) (.define { f with body }) :=
    .body ⟨hdiscards, List.all_eq_true.mp hsecludes, hdeclared⟩
  have hbodies : List.Forall₂ (Exchanged swaps) m.body m'.body := by
    rw [hm, hm']
    exact List.rel_append (hsame before) (.cons hdefine (hsame after))
  exact runOn_exchanged hswaps hbodies hrun

/-- A store that is overwritten two statements later. -/
theorem deadStore_preserves_overwritten :
    let t : Expr := .name "t"
    let x : Expr := .name "x"
    let value : Expr := .list [x]
    let rest : Block :=
      [.assign [.name "y"] (.bin .add x (.int 1)) none, .assign [t] (.bin .mul (.name "y") x) none,
        .ret (some t)]
    let program (s : Stmt) : Module :=
      ⟨[.define ⟨"f", [⟨"x", .regular, none, none⟩], s :: rest, [], none, false⟩]⟩
    ∃ r, runOn ⟨100, 1⟩ (program (.assign [t] value none)) "f" [.int 3] = .ok r ∧
      r.outcome.text r.heap = "12" ∧
      ∃ need, ∀ fuel', need ≤ fuel' → ∃ cs, runOn ⟨fuel', 1⟩ (program (.expr value)) "f" [.int 3] =
        .ok { r with heap := r.heap.withClosures cs } := by
  intro t x value rest program
  have htext : ((runOn ⟨100, 1⟩ (program (.assign [t] value none)) "f" [.int 3]).toOption.map
      fun r => r.outcome.text r.heap) = some "12" := by decide +kernel
  cases hrun : runOn ⟨100, 1⟩ (program (.assign [t] value none)) "f" [.int 3] with
  | error e =>
    rw [hrun] at htext
    cases htext
  | ok r =>
    rw [hrun] at htext
    let f : Function := ⟨"f", [⟨"x", .regular, none, none⟩], .assign [t] value none :: rest, [], none,
      false⟩
    have hf : (program (.assign [t] value none)).function? "f" = some f := rfl
    have hdead : 0 ∈ Idiom.deadStores f := by decide +kernel
    have hedit : (program (.assign [t] value none)).editFunction? "f"
        (fun f => some { f with body := .expr value :: rest }) = some (program (.expr value)) := rfl
    exact ⟨r, rfl, Option.some.inj htext, deadStore_preserves hf hdead (t := "t") (v := value) rfl
      (by decide +kernel) (.inl rfl) hedit hrun⟩

end Strategy

/-! ### Stores that are not dead -/

namespace Machine

open Strategy (nonempty)

/-- The function made before the store reads what it stores. -/
theorem deadStores_read :
    let f : Function := ⟨"f", [],
      [.assign [.name "x"] (.int 1) none,
        .define ⟨"g", [], [.ret (some (.name "x"))], [], none, false⟩,
        .assign [.name "x"] (.int 2) none, .ret (some (.call (.name "g") []))], [], none, false⟩
    let answer (body : Block) :=
      (invoke ⟨100, 2⟩ ⟨[.define { f with body }]⟩ "f" fun h => ([], h)).toOption.map fun r =>
        r.1.text r.2.2
    Idiom.deadStores f = [2] ∧
      answer f.body = some "2" ∧ answer (nonempty (f.body.eraseIdx 2)) = some "1" := by
  intro f answer
  exact ⟨by decide +kernel, by decide +kernel, by decide +kernel⟩

/-- The store raises an exception in an inner call of the function, which the outer one handles. -/
theorem deadStores_raise :
    let n : Expr := .name "n"
    let inner : Stmt := .ret (some (.call (.name "f") [.positional (.bin .sub n (.int 1))]))
    let f : Function := ⟨"f", [⟨"n", .regular, none, none⟩],
      [.tryBlock [.cond n [inner] []]
          [⟨some (.name "ZeroDivisionError"), none, [.ret (some (.int 5))]⟩] [] [],
        .assign [.name "t"] (.bin .floorDiv (.int 1) n) none, .ret (some (.int 7))], [], none, false⟩
    let answer (body : Block) :=
      (invoke ⟨100, 2⟩ ⟨[.define { f with body }]⟩ "f" fun h => ([.int 1], h)).toOption.map fun r =>
        r.1.text r.2.2
    Idiom.deadStores f = [1] ∧
      answer f.body = some "5" ∧ answer (nonempty (f.body.eraseIdx 1)) = some "7" := by
  intro n inner f answer
  exact ⟨by decide +kernel, by decide +kernel, by decide +kernel⟩

end Machine

end Concord
