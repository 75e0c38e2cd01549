import Concord.Proofs.Machine.Folding

/-!
# Stores that nothing reads

One run stores a value in a variable of a call, and the other run does without the store. The variable
then differs, and the next statement of the call that mentions it overwrites it, or none does.

While the variable differs, code of the call that does not mention it runs as it would in a call that is
over. But the call goes on, and when the variable is overwritten, the runs agree again. What has to be
known for this about the scope of the call (it declares nothing about the variable, and the scope around
it is not over) is known of a scope whose call goes on. So both views of the first run are kept at a time
(`Divided`): one where the call is over, against the second run, and one where it goes on, against the
first run itself.
-/

namespace Concord

/-! ## Functions without access to a name -/

namespace Node

/-- The part makes no function that mentions one of the names, not even as a parameter. -/
def secludes (names : List String) : Node → Bool
  | .expr (.lambda params body) =>
    params.all (!names.contains ·.name) && body.subterms.all fun e => avoids names (.expr e)
  | .stmt (.define f) =>
    f.params.all (!names.contains ·.name) && (Block.nodes f.body).all (avoids names)
  | _ => true

end Node

namespace Machine

variable {t : String} {g : Stage}

/-- A part that avoids a name avoids what no scope of the stage declares, if that is the name. -/
theorem avoids_reserved {x : Node} (hg : g.reserved [t] ⊆ [t]) (h : x.avoids [t] = true) :
    x.avoids (g.reserved [t]) = true := by
  simp only [Node.avoids, List.all_eq_true, Bool.not_eq_true', ← Bool.not_eq_true,
    List.contains_iff_mem] at h ⊢
  exact fun n hn hmem => h n hn (hg hmem)

/-- A part that makes nothing with access to the name may run where it mentions nothing hidden. -/
theorem suits_of_avoids {x : Node} (hg : g.reserved [t] ⊆ [t]) (h : x.avoids [t] = true)
    (hx : x.secludes [t] = true) : g.suits [t] x = true := by
  cases g with
  | apart => rfl
  | ended | pinned | shaded | clear => exact avoids_reserved hg h
  | running =>
    cases x with
    | expr e =>
      cases e with
      | lambda params body => exact (Bool.and_eq_true_iff.mp hx).2
      | _ => rfl
    | stmt s =>
      cases s with
      | define f => exact (Bool.and_eq_true_iff.mp hx).2
      | globals names | nonlocals names => exact h
      | _ => rfl

theorem suits_expr {e : Expr} (hg : g.reserved [t] ⊆ [t]) (hx : Node.secludes [t] (.expr e) = true)
    (h : g.hides = true → e ≠ .name t) : g.suits [t] (.expr e) = true := by
  cases e with
  | name n =>
    cases g with
    | ended | pinned | shaded | clear =>
      have hne : n ≠ t := fun he => h rfl (congrArg Expr.name he)
      exact avoids_reserved hg (by simpa [Node.avoids, Node.mentioned] using hne)
    | _ => rfl
  | lambda params body =>
    refine suits_of_avoids hg ?_ hx
    simpa [Node.avoids, Node.mentioned] using (Bool.and_eq_true_iff.mp hx).1
  | _ => exact suits_of_avoids hg rfl hx

theorem fits_of_secludes {es : List Expr} (hg : g.reserved [t] ⊆ [t])
    (hx : ∀ x ∈ Stmt.exprNodes es, x.secludes [t] = true)
    (h : g.hides = true → Node.expr (.name t) ∉ Stmt.exprNodes es) : Fits [t] g es := by
  intro e he
  have hmem : Node.expr e ∈ Stmt.exprNodes es := List.mem_map_of_mem he
  apply suits_expr hg (hx _ hmem)
  rintro hended rfl
  exact h hended hmem

theorem names_of_handlers {hs : List Handler} (h : t ∉ Stmt.boundHandlers true hs) :
    ∀ k ∈ hs, ∀ n ∈ k.name, n ≠ t := by
  induction hs with
  | nil => nofun
  | cons k rest ih =>
    obtain ⟨type, name, body⟩ := k
    simp only [Stmt.boundHandlers, List.mem_append, not_or] at h
    refine List.forall_mem_cons.mpr ⟨?_, ih h.2.2⟩
    rintro n hn rfl
    exact h.1 (Option.mem_toList.mpr hn)

mutual

/-- A statement that declares nothing about the name and makes nothing with access to it fits; where
the name is hidden, it must not mention it either. -/
theorem fitsIn_of_secludes (hg : g.reserved [t] ⊆ [t]) : (s : Stmt) → (∀ x ∈ s.nodes, x.secludes [t] = true) →
    t ∉ s.declared → (g.hides = true → Node.expr (.name t) ∉ s.nodes ∧ t ∉ Stmt.bound true s) →
    FitsIn [t] g s.nodes
  | .define ⟨name, params, body, decorators, returns, isAsync⟩, hx, hdeclared, h => by
    simp only [Stmt.nodes, List.forall_mem_cons, List.forall_mem_append] at hx
    simp only [Stmt.nodes, Stmt.bound, List.mem_cons, List.mem_append, List.not_mem_nil, or_false,
      not_or, reduceCtorEq, false_or] at h
    simp only [Stmt.nodes, fitsIn_cons, fitsIn_append, fitsIn_exprNodes]
    obtain ⟨hdefine, hdecorators, hparams, hbody⟩ := hx
    have hinside := Bool.and_eq_true_iff.mp hdefine
    refine ⟨?_, fits_of_secludes hg hdecorators fun he => (h he).1.1,
      fits_of_secludes hg hparams fun he => (h he).1.2.1, ?_⟩
    · cases g with
      | ended | pinned | shaded | clear =>
        have hname : name ≠ t := fun he => (h rfl).2 he.symm
        refine avoids_reserved hg ?_
        simpa [Node.avoids, Node.mentioned, hname] using hinside.1
      | apart => rfl
      | running => exact hinside.2
    · intro x hmem
      exact suits_of_avoids hg (List.all_eq_true.mp hinside.2 x hmem) (hbody x hmem)
  | .cond test body orelse, hx, hdeclared, h | .whileLoop test body orelse, hx, hdeclared, h => by
    simp only [Stmt.nodes, List.forall_mem_cons, List.forall_mem_append] at hx
    simp only [Stmt.declared, List.mem_append, not_or] at hdeclared
    simp only [Stmt.nodes, Stmt.bound, List.mem_cons, List.mem_append, not_or, reduceCtorEq,
      not_false_eq_true, true_and] at h
    simp only [Stmt.nodes, fitsIn_cons, fitsIn_append, fitsIn_exprNodes]
    refine ⟨suits_of_avoids hg rfl hx.1, fits_of_secludes hg hx.2.1 fun he => (h he).1.1,
      fitsIn_of_secludesList hg body hx.2.2.1 hdeclared.1 fun he => ⟨(h he).1.2.1, (h he).2.1⟩,
      fitsIn_of_secludesList hg orelse hx.2.2.2 hdeclared.2 fun he => ⟨(h he).1.2.2, (h he).2.2⟩⟩
  | .forLoop target iter body orelse, hx, hdeclared, h => by
    simp only [Stmt.nodes, List.forall_mem_cons, List.forall_mem_append] at hx
    simp only [Stmt.declared, List.mem_append, not_or] at hdeclared
    simp only [Stmt.nodes, Stmt.bound, List.mem_cons, List.mem_append, not_or, reduceCtorEq,
      not_false_eq_true, true_and] at h
    simp only [Stmt.nodes, fitsIn_cons, fitsIn_append, fitsIn_exprNodes]
    refine ⟨suits_of_avoids hg rfl hx.1, ?_,
      fitsIn_of_secludesList hg body hx.2.2.1 hdeclared.1 fun he => ⟨(h he).1.2.1, (h he).2.2.1⟩,
      fitsIn_of_secludesList hg orelse hx.2.2.2 hdeclared.2 fun he => ⟨(h he).1.2.2, (h he).2.2.2⟩⟩
    exact fits_of_secludes hg hx.2.1 fun he => (h he).1.1
  | .tryBlock body handlers orelse final, hx, hdeclared, h => by
    simp only [Stmt.nodes, List.forall_mem_cons, List.forall_mem_append] at hx
    simp only [Stmt.declared, List.mem_append, not_or] at hdeclared
    simp only [Stmt.nodes, Stmt.bound, List.mem_cons, List.mem_append, not_or, reduceCtorEq,
      not_false_eq_true, true_and] at h
    simp only [Stmt.nodes, fitsIn_cons, fitsIn_append]
    refine ⟨?_, fitsIn_of_secludesList hg body hx.2.1 hdeclared.1 fun he => ⟨(h he).1.1, (h he).2.1⟩,
      fitsIn_of_secludesHandlers hg handlers hx.2.2.1 hdeclared.2.1 fun he =>
        ⟨(h he).1.2.1, (h he).2.2.1⟩,
      fitsIn_of_secludesList hg orelse hx.2.2.2.1 hdeclared.2.2.1 fun he =>
        ⟨(h he).1.2.2.1, (h he).2.2.2.1⟩,
      fitsIn_of_secludesList hg final hx.2.2.2.2 hdeclared.2.2.2 fun he =>
        ⟨(h he).1.2.2.2, (h he).2.2.2.2⟩⟩
    cases g with
    | ended | pinned | shaded | clear =>
      refine avoids_reserved hg (List.all_eq_true.mpr fun n hn => ?_)
      obtain ⟨k, hk, hname⟩ := List.mem_filterMap.mp hn
      have hne : n ≠ t := names_of_handlers (h rfl).2.2.1 k hk n hname
      simpa using hne
    | _ => rfl
  | .globals names, hx, hdeclared, _ | .nonlocals names, hx, hdeclared, _ => by
    rw [Stmt.declared] at hdeclared
    simp only [Stmt.nodes, List.forall_mem_cons] at hx
    simp only [Stmt.nodes, fitsIn_cons]
    refine ⟨suits_of_avoids hg ?_ hx.1, nofun⟩
    simp only [Node.avoids, Node.mentioned, List.all_eq_true]
    intro n hn
    have hne : n ≠ t := fun he => hdeclared (he ▸ hn)
    simpa using hne
  | .ret _, hx, _, h | .expr _, hx, _, h | .assign _ _ _, hx, _, h | .augAssign _ _ _, hx, _, h
  | .raise _ _, hx, _, h | .assert _ _, hx, _, h => by
    simp only [Stmt.nodes, List.forall_mem_cons] at hx
    simp only [Stmt.nodes, List.mem_cons, not_or] at h
    rw [Stmt.nodes, fitsIn_cons, fitsIn_exprNodes]
    exact ⟨suits_of_avoids hg rfl hx.1, fits_of_secludes hg hx.2 fun he => (h he).1.2⟩
  | .importNames _, hx, _, _ | .importFrom _ _, hx, _, _ | .pass, hx, _, _ | .break, hx, _, _
  | .continue, hx, _, _ | .verbatim _ _ _, hx, _, _ => by
    simp only [Stmt.nodes, List.forall_mem_cons] at hx
    simp only [Stmt.nodes, fitsIn_cons]
    exact ⟨suits_of_avoids hg rfl hx.1, nofun⟩

theorem fitsIn_of_secludesList (hg : g.reserved [t] ⊆ [t]) : (b : List Stmt) →
    (∀ x ∈ Stmt.nodesList b, x.secludes [t] = true) → t ∉ Stmt.declaredList b →
    (g.hides = true → Node.expr (.name t) ∉ Stmt.nodesList b ∧ t ∉ Stmt.boundList true b) →
    FitsIn [t] g (Stmt.nodesList b)
  | [], _, _, _ => nofun
  | s :: rest, hx, hdeclared, h => by
    simp only [Stmt.nodesList, List.forall_mem_append] at hx
    simp only [Stmt.declaredList, List.mem_append, not_or] at hdeclared
    simp only [Stmt.nodesList, Stmt.boundList, List.mem_append, not_or] at h
    simp only [Stmt.nodesList, fitsIn_append]
    exact ⟨fitsIn_of_secludes hg s hx.1 hdeclared.1 fun he => ⟨(h he).1.1, (h he).2.1⟩,
      fitsIn_of_secludesList hg rest hx.2 hdeclared.2 fun he => ⟨(h he).1.2, (h he).2.2⟩⟩

theorem fitsIn_of_secludesHandlers (hg : g.reserved [t] ⊆ [t]) : (hs : List (HandlerOf Stmt)) →
    (∀ x ∈ Stmt.nodesHandlers hs, x.secludes [t] = true) → t ∉ Stmt.declaredHandlers hs →
    (g.hides = true → Node.expr (.name t) ∉ Stmt.nodesHandlers hs ∧ t ∉ Stmt.boundHandlers true hs) →
    FitsIn [t] g (Stmt.nodesHandlers hs)
  | [], _, _, _ => nofun
  | ⟨type, name, body⟩ :: rest, hx, hdeclared, h => by
    simp only [Stmt.nodesHandlers, List.forall_mem_append] at hx
    simp only [Stmt.declaredHandlers, List.mem_append, not_or] at hdeclared
    simp only [Stmt.nodesHandlers, Stmt.boundHandlers, List.mem_append, not_or] at h
    simp only [Stmt.nodesHandlers, fitsIn_append, fitsIn_exprNodes]
    exact ⟨fits_of_secludes hg hx.1 fun he => (h he).1.1,
      fitsIn_of_secludesList hg body hx.2.1 hdeclared.1 fun he => ⟨(h he).1.2.1, (h he).2.2.1⟩,
      fitsIn_of_secludesHandlers hg rest hx.2.2 hdeclared.2 fun he =>
        ⟨(h he).1.2.2, (h he).2.2.2⟩⟩

end

/-! ## Frames beside themselves -/

variable {α β : Type} {hidden : List String} {swaps : Block → Block → Prop} {W W' : Stages}
  {F G : Frame} {i : Nat}

/-- The stage when the first run is put beside itself. -/
def Stage.mirror : Stage → Stage
  | .pinned left _ => .pinned left left
  | g => g

@[simp] theorem Stage.hides_mirror (g : Stage) : g.mirror.hides = g.hides := by cases g <;> rfl

@[simp] theorem Stage.reserved_mirror {hidden : List String} (g : Stage) :
    g.mirror.reserved hidden = g.reserved hidden := by cases g <;> rfl

@[simp] theorem Stage.mirror_eq_clear_iff {names : List String} {p : Nat} :
    g.mirror = .clear names p ↔ g = .clear names p := by
  cases g <;> simp [Stage.mirror]

theorem Stage.Within.mirror {outer : Stage} (h : g.Within outer) : g.mirror.Within outer.mirror := by
  cases g with
  | apart =>
    cases h
    rfl
  | running => exact (Stage.hides_mirror outer).trans h
  | ended | pinned | shaded | clear => trivial

theorem Stages.At.mirror {env : Env} (h : W.At env g) :
    Stages.At (W.map Stage.mirror) env g.mirror := by
  cases env with
  | none =>
    cases h
    rfl
  | some i =>
    show (W.map Stage.mirror)[i]? = some g.mirror
    rw [List.getElem?_map, show W[i]? = some g from h]
    rfl

theorem Code.Akin.left {c d : Code} (h : Code.Akin hidden swaps g c d) :
    Code.Akin hidden swaps g.mirror c c := by
  cases g with
  | apart => exact .inl rfl
  | running | ended | pinned | shaded | clear => exact ⟨rfl, h.2⟩

/-- What is akin to something is akin to itself. -/
theorem Frame.Akin.self (h : F.Akin hidden swaps W G) :
    F.Akin hidden swaps (W.map Stage.mirror) F := by
  have hclosures {cs ds : List Closure} (h : List.Forall₂ (Closure.Akin hidden swaps W) cs ds) :
      List.Forall₂ (Closure.Akin hidden swaps (W.map Stage.mirror)) cs cs := by
    induction h with
    | nil => exact .nil
    | cons hcd _ ih =>
      obtain ⟨g, hat, hcode⟩ := hcd.made
      exact .cons ⟨rfl, rfl, rfl, g.mirror, hat.mirror, hcode.left⟩ ih
  have hsize : F.scopes.size = (W.map Stage.mirror).length := by rw [h.left, List.length_map]
  refine ⟨rfl, rfl, hclosures h.closures, hsize, hsize, fun g' hg' hof => ?_, fun i g' hi => ?_⟩
  · obtain ⟨g, hg, rfl⟩ := List.mem_map.mp hg'
    refine h.exchanged g hg ?_
    cases g <;> simp_all [Stage.mirror]
  rw [List.getElem?_map] at hi
  obtain ⟨g, hg, rfl⟩ := Option.map_eq_some_iff.mp hi
  obtain ⟨a, b, ha, -, hab⟩ := h.scopes i g hg
  obtain ⟨p, hp, hwithin⟩ := hab.outer
  refine ⟨a, a, ha, ha, rfl, hab.earlier, ⟨p.mirror, hp.mirror, hwithin.mirror⟩, fun _ _ => rfl, rfl,
    rfl, fun n hn => hab.own n (Stage.reserved_mirror g ▸ hn), fun l r hpin n hn => ?_,
    fun names p hg => hab.clears names p (Stage.mirror_eq_clear_iff.mp hg)⟩
  cases g with
  | pinned left right =>
    cases hpin
    have hleft := (hab.pins _ right rfl n hn).1
    exact ⟨hleft, hleft⟩
  | _ => cases hpin

/-! ## A call that goes on again -/

namespace Stages

theorem getElem?_of_prefix (h : W <+: W') {j : Nat} (hj : j < W.length) : W'[j]? = W[j]? := by
  obtain ⟨more, rfl⟩ := h
  exact List.getElem?_append_left hj

theorem close_close : (W.close i).close i = W.close i := by
  apply List.ext_getElem?
  intro j
  rw [getElem?_close, getElem?_close]
  split
  · rfl
  · rw [Option.map_map]
    congr 1
    funext g
    cases g <;> rfl

/-- The stages when the call goes on again whose scope is the one numbered `i`. -/
def reopen (W : Stages) (i : Nat) : Stages := W.set i .running

theorem getElem?_reopen (hi : i < W.length) (j : Nat) :
    (W.reopen i)[j]? = if i = j then some .running else W[j]? := by
  rw [reopen, List.getElem?_set]
  by_cases hj : i = j
  · rw [if_pos hj, if_pos hj, if_pos hi]
  · rw [if_neg hj, if_neg hj]

theorem close_reopen (h : W.At (some i) .ended) : (W.reopen i).close i = W.close i := by
  have hi : i < W.length := (List.getElem?_eq_some_iff.mp h).1
  apply List.ext_getElem?
  intro j
  rw [getElem?_close, getElem?_close, getElem?_reopen hi]
  by_cases hj : i = j
  · subst hj
    rw [if_neg (Nat.lt_irrefl i), if_neg (Nat.lt_irrefl i), if_pos rfl,
      show W[i]? = some Stage.ended from h]
    rfl
  · rw [if_neg hj]

end Stages

/-- Code made in a call that is over might have been made while it went on. -/
theorem Closure.Akin.reopen {c d : Closure} (h : c.Akin hidden swaps W d)
    (hover : W.At (some i) .ended) : c.Akin hidden swaps (W.reopen i) d := by
  have hi : i < W.length := (List.getElem?_eq_some_iff.mp hover).1
  obtain ⟨g, hat, hcode⟩ := h.made
  cases henv : c.env with
  | none =>
    rw [henv] at hat
    exact { h with made := ⟨g, henv ▸ hat, hcode⟩ }
  | some j =>
    rw [henv] at hat
    replace hat : W[j]? = some g := hat
    have hat' := Stages.getElem?_reopen hi j
    by_cases hj : i = j
    · subst hj
      cases hat.symm.trans hover
      rw [if_pos rfl] at hat'
      exact { h with made := ⟨.running, henv ▸ hat', hcode⟩ }
    · rw [if_neg hj, hat] at hat'
      exact { h with made := ⟨g, henv ▸ hat', hcode⟩ }

/-- Both runs give the variable that differs one value, so that the call goes on as if it had never
differed. -/
theorem Frame.Akin.reopen (h : F.Akin [t] swaps W G) (hover : W.At (some i) .ended) {a : Scope}
    (ha : F.scopes[i]? = some a) (hown : t ∉ a.globals ∧ t ∉ a.nonlocals)
    (houter : ∃ p, W.At a.parent p ∧ Stage.running.Within p) (v : Value) :
    Frame.Akin [t] swaps (W.reopen i)
      { F with scopes := F.scopes.modify i fun a => { a with vars := a.vars.set t v } }
      { G with scopes := G.scopes.modify i fun a => { a with vars := a.vars.set t v } } := by
  have hi : i < W.length := (List.getElem?_eq_some_iff.mp hover).1
  refine { h with closures := ?_, left := ?_, right := ?_, exchanged := ?_, scopes := ?_ }
  · exact h.closures.imp fun _ _ hcd => hcd.reopen hover
  · rw [Array.size_modify, h.left, Stages.reopen, List.length_set]
  · rw [Array.size_modify, h.right, Stages.reopen, List.length_set]
  · exact fun _ _ _ => h.exchanged .ended (List.mem_of_getElem? hover) (.inr rfl)
  · intro j g hj
    rw [Stages.getElem?_reopen hi] at hj
    dsimp only
    rw [Array.getElem?_modify, Array.getElem?_modify]
    by_cases hij : i = j
    · -- The scope of the call.
      subst hij
      obtain ⟨a', b, ha', hb, hab⟩ := h.scopes i .ended hover
      obtain rfl : a = a' := Option.some.inj (ha.symm.trans ha')
      rw [if_pos rfl] at hj
      cases hj
      refine ⟨{ a with vars := a.vars.set t v }, { b with vars := b.vars.set t v }, by simp [ha],
        by simp [hb], ?_⟩
      obtain ⟨p, hp, hwithin⟩ := houter
      refine { hab with
        outer := ⟨p, ?_, hwithin⟩, vars := fun n _ => ?_, own := fun n hn => ?_, pins := nofun,
        clears := nofun }
      · cases hparent : a.parent with
        | none =>
          rw [hparent] at hp
          exact hp
        | some k =>
          have hlt := hab.earlier k hparent
          show (W.reopen i)[k]? = some p
          rw [Stages.getElem?_reopen hi, if_neg (by omega)]
          exact show W.At (some k) p from hparent ▸ hp
      · simp only [Bindings.get?_set, beq_iff_eq]
        split
        · rfl
        · rename_i hne
          exact hab.vars n fun hmem => hne (List.mem_singleton.mp hmem).symm
      · rw [List.mem_singleton.mp hn]
        exact hown
    · -- Another scope: it may stand in that of the call.
      rw [if_neg hij] at hj ⊢
      rw [if_neg hij]
      obtain ⟨a', b, ha', hb, hab⟩ := h.scopes j g hj
      refine ⟨a', b, ha', hb, { hab with outer := ?_ }⟩
      obtain ⟨p, hp, hwithin⟩ := hab.outer
      cases hparent : a'.parent with
      | none =>
        rw [hparent] at hp
        exact ⟨p, hp, hwithin⟩
      | some k =>
        rw [hparent] at hp
        replace hp : W[k]? = some p := hp
        have hat := Stages.getElem?_reopen hi k
        by_cases hk : i = k
        · subst hk
          cases hp.symm.trans hover
          rw [if_pos rfl] at hat
          exact ⟨.running, hat, by cases g <;> simp_all [Stage.Within, Stage.hides]⟩
        · rw [if_neg hk, hp] at hat
          exact ⟨p, hat, hwithin⟩

/-! ## While the variable differs -/

section

variable (hidden : List String) (swaps : Block → Block → Prop) (i : Nat) (start : Stages)

/-- In the scope numbered `i` of a call the hidden variables differ, since stages `start`. Against the
second run the call is over (`W`); by itself the first run goes on with it (`V`). -/
structure Divided (W V : Stages) (s : State) (F : Frame) : Prop where
  inside : i < start.length
  grown : start.close i <+: W
  ended : W.At (some i) .ended
  going : V.At (some i) .running
  outside : ∀ j < i, W[j]?.map Stage.hides = V[j]?.map Stage.hides
  akin : s.frame.Akin hidden swaps W F
  alone : s.frame.Akin hidden swaps V s.frame

/-- From where the hidden variables differ, the second step attains the first, with which the call
ends. -/
def Ends (x y : Exec α) : Prop :=
  ∀ (W V : Stages) (s : State) (F : Frame), Divided hidden swaps i start W V s F →
    Spent (x s) ∨ ∃ W' F', start.close i <+: W' ∧
      (Ending.state (x s)).frame.Akin hidden swaps W' F' ∧ Ample y s F F' (x s)

end

namespace Ends

variable {start : Stages} {x y : Exec α}

theorem ret (a : α) : Ends hidden swaps i start (pure a) (pure a) :=
  fun W _ _ F h => .inr ⟨W, F, h.grown, h.akin, .here _ fun _ => rfl⟩

/-- Go on after a step that does not mention the hidden variables. -/
theorem bind {f k : α → Exec β} (hover : Attains hidden swaps (some i) .ended x y)
    (hgoing : Attains hidden swaps (some i) .running x y)
    (hf : ∀ a, Ends hidden swaps i start (f a) (k a)) :
    Ends hidden swaps i start (x >>= f) (y >>= k) := by
  intro W V s F h
  rw [Exec.bind_apply]
  obtain ⟨t, hx, ht⟩ | ⟨W₁, F₁, hW₁, hF₁, hample⟩ := hover W s F h.ended h.akin
  · rw [hx]
    exact .inl ⟨t, rfl, ht⟩
  obtain ⟨t, hx, ht⟩ | ⟨V₁, G, hV₁, hG, -⟩ := hgoing V s s.frame h.going h.alone
  · rw [hx]
    exact .inl ⟨t, rfl, ht⟩
  cases hx : x s with
  | error e t =>
    rw [hx] at hF₁ hample
    refine .inr ⟨W₁, F₁, h.grown.trans hW₁, hF₁, ?_⟩
    refine hample.next (z := MonadExcept.throw e) (t := t) (.here _ fun _ => rfl) fun u left hu => ?_
    rw [Exec.bind_apply, hu]
    rfl
  | ok a t =>
    rw [hx] at hF₁ hG hample
    have hdivided : Divided hidden swaps i start W₁ (V₁.map Stage.mirror) t F₁ :=
      { inside := h.inside
        grown := h.grown.trans hW₁
        ended := h.ended.mono hW₁
        going := (h.going.mono hV₁).mirror
        outside := fun j hj => by
          have hW : i < W.length := (List.getElem?_eq_some_iff.mp h.ended).1
          have hV : i < V.length := (List.getElem?_eq_some_iff.mp h.going).1
          have hhides : Stage.hides ∘ Stage.mirror = Stage.hides := funext Stage.hides_mirror
          rw [List.getElem?_map, Option.map_map, hhides, Stages.getElem?_of_prefix hW₁ (by omega),
            Stages.getElem?_of_prefix hV₁ (by omega)]
          exact h.outside j hj
        akin := hF₁
        alone := hG.self }
    refine (hf a W₁ _ t F₁ hdivided).imp id ?_
    rintro ⟨W₂, F₂, hW₂, hF₂, hrest⟩
    refine ⟨W₂, F₂, hW₂, hF₂, hample.next hrest fun u left hu => ?_⟩
    rw [Exec.bind_apply, hu]
    rfl

/-- Both runs overwrite the variable, and the call goes on. -/
theorem overwrite (h : Attains [t] swaps (some i) .running x y) (v : Value) :
    Ends [t] swaps i start (Exec.bind (some i) t v >>= fun _ => x)
      (Exec.bind (some i) t v >>= fun _ => y) := by
  intro W V s F hD
  obtain ⟨a, b, ha, hb, hab⟩ := hD.akin.scopes i .ended hD.ended
  obtain ⟨a', _, ha', -, halone⟩ := hD.alone.scopes i .running hD.going
  obtain rfl : a = a' := Option.some.inj (ha.symm.trans ha')
  have hown := halone.own t (List.mem_singleton_self t)
  -- The scope around that of the call is the same in both views, and it is not over.
  have houter : ∃ p, W.At a.parent p ∧ Stage.running.Within p := by
    obtain ⟨p, hp, hwithin⟩ := halone.outer
    cases hparent : a.parent with
    | none =>
      rw [hparent] at hp
      exact ⟨p, hp, hwithin⟩
    | some k =>
      have hk : V[k]? = some p := show V.At (some k) p from hparent ▸ hp
      have hsame := hD.outside k (halone.earlier k hparent)
      rw [hk] at hsame
      obtain ⟨q, hq, hhides⟩ := Option.map_eq_some_iff.mp hsame
      exact ⟨q, hq, hhides.trans hwithin⟩
  have hbind {s : State} {a : Scope} (ha : s.scopes[i]? = some a)
      (hown : t ∉ a.globals ∧ t ∉ a.nonlocals) (z : Exec α) :
      (Exec.bind (some i) t v >>= fun _ => z) s = z { s with
        scopes := s.scopes.modify i fun a => { a with vars := a.vars.set t v } } := by
    rw [Exec.bind_apply, Exec.bind_some_apply ha, if_neg hown.1, if_neg hown.2]
    rfl
  have hright (fuel : Nat) := hbind (s := s.under F fuel) hb
    ⟨hab.globals ▸ hown.1, hab.nonlocals ▸ hown.2⟩ y
  rw [hbind ha hown x]
  have hagain := hD.akin.reopen hD.ended ha hown houter v
  have hrunning : (W.reopen i).At (some i) .running := by
    show (W.reopen i)[i]? = some .running
    rw [Stages.getElem?_reopen (List.getElem?_eq_some_iff.mp hD.ended).1, if_pos rfl]
  refine (h (W.reopen i) _ _ hrunning hagain).imp id ?_
  rintro ⟨W', F', hW', hF', hample⟩
  refine ⟨Stages.close W' i, F', ?_, hF'.close, fun spare => ?_⟩
  · have hinside : i < (start.close i).length := Stages.close_length.symm ▸ hD.inside
    have hrest : (W.reopen i).close i <+: Stages.close W' i :=
      Stages.close_mono hW' (List.getElem?_eq_some_iff.mp hrunning).1
    rw [Stages.close_reopen hD.ended] at hrest
    rw [← Stages.close_close]
    exact (Stages.close_mono hD.grown hinside).trans hrest
  · obtain ⟨need, hneed⟩ := hample spare
    refine ⟨need, fun fuel hfuel => ?_⟩
    obtain ⟨left, hleft, hy⟩ := hneed fuel hfuel
    refine ⟨left, hleft, ?_⟩
    rw [hright]
    exact hy

end Ends

/-- Only the first run stores a value, and where the second one attains it in spite of that, the call
may be over. -/
theorem Parts.discard {x y : Exec α} (v : Value) (h : ∀ start, Ends [t] swaps i start x y) :
    Parts [t] swaps i (fun _ => True) (Exec.bind (some i) t v >>= fun _ => x) y := by
  intro W s F hat hF
  obtain ⟨a, b, ha, -, hab⟩ := hF.scopes i .running hat
  obtain ⟨hg, hn⟩ := hab.own t (List.mem_singleton_self t)
  rw [Exec.bind_apply, Exec.bind_some_apply ha, if_neg hg, if_neg hn]
  show Spent (x { s with
    scopes := s.scopes.modify i fun a => { a with vars := a.vars.set t v } }) ∨ _
  have halone : Stages.At (W.map Stage.mirror) (some i) .running := hat.mirror
  have hdivided : Divided [t] swaps i W (W.close i) (W.map Stage.mirror)
      { s with scopes := s.scopes.modify i fun a => { a with vars := a.vars.set t v } } F :=
    { inside := (List.getElem?_eq_some_iff.mp hat).1
      grown := List.prefix_rfl
      ended := by
        show (W.close i)[i]? = some .ended
        rw [Stages.getElem?_close, if_neg (Nat.lt_irrefl i), show W[i]? = some Stage.running from hat]
        rfl
      going := halone
      outside := fun j hj => by
        have hhides : Stage.hides ∘ Stage.mirror = Stage.hides := funext Stage.hides_mirror
        rw [Stages.getElem?_close, if_pos hj, List.getElem?_map, Option.map_map, hhides]
      akin := hF.setHidden hat (List.mem_singleton_self t) v
      alone := by
        refine hF.self.setVar (n := t) ?_ v
        intro p hp
        cases hp.symm.trans halone
        nofun }
  refine (h W _ _ _ _ hdivided).imp id ?_
  rintro ⟨W', F', hW', hF', hample⟩
  refine ⟨W', F', .inr ⟨hW', ?_⟩, hF', hample⟩
  show Ending.Leaves (fun _ => True) (x _)
  cases x { s with scopes := s.scopes.modify i fun a => { a with vars := a.vars.set t v } } <;> trivial

/-- The first run may pay more. -/
theorem Parts.paid {leaves : α → Prop} {x y : Exec α} (h : Parts hidden swaps i leaves x y) (n : Nat) :
    Parts hidden swaps i leaves (Exec.charge n >>= fun _ => x) y := by
  intro W s F hat hF
  rw [Exec.bind_apply, Exec.charge_apply]
  by_cases hn : s.fuel < n
  · rw [if_pos hn]
    exact .inl ⟨{ s with fuel := 0 }, rfl, rfl⟩
  · rw [if_neg hn]
    exact h W { s with fuel := s.fuel - n } F hat hF

end Machine

end Concord
