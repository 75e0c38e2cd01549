import Concord.Proofs.Machine.Filled
import Concord.Proofs.Machine.Looping
import Concord.Proofs.Probe.Verdict
import Concord.Proofs.Strategy.Rewriting
import Concord.Proofs.Strategy.Settled
import Concord.Proofs.Tree.Idempotent
import Concord.Proofs.Tree.Reads
import Mathlib.Data.List.Perm.Subperm

/-!
# Loops over indices that become loops over elements

The edit of a loop over the indices of a sequence picks a name that is free and lets the loop run over the
elements under that name. It is tied to the two loops of `Iteration` (`Strategy.exists_iterates`), and a
run that comes to an end comes to the same end after it, if the loop leaves its sequence as it is and the
index and the elements are read in the loop itself.

Main statements:

* `Strategy.freshName_notMem`: the search for a free name ends with one.
* `Strategy.iterateAt_preserves`: what the edit preserves.
* `Strategy.iterateAt_rebound`, `Strategy.iterateAt_captured`: what it does where the index is bound anew
  in the loop, or the new name.
-/

namespace Concord

open Machine Probe

/-! ## A name that is free -/

/-- Among numbered names, more than there are names taken, one is free. -/
theorem Strategy.freshName_notMem (taken : List String) (base : String) :
    freshName taken base ∉ taken := by
  unfold freshName
  split
  · next hfree =>
    simp only [Bool.and_eq_true, Bool.not_eq_true', List.contains_eq_mem, decide_eq_false_iff_not] at hfree
    exact hfree.1
  · let numbered := (List.range (taken.length + 1)).map fun n => base ++ "_" ++ toString (n + 1)
    have hnodup : numbered.Nodup := by
      refine List.nodup_range.map fun i j hij => ?_
      have hdigits : Nat.toDigits 10 (i + 1) = Nat.toDigits 10 (j + 1) := by
        have hlist := congrArg String.toList hij
        simpa [ToString.toString, Nat.repr] using hlist
      exact Nat.succ_injective (toDigits_inj hdigits)
    have hfree : ∃ n ∈ numbered, (!taken.contains n) = true := by
      by_contra hall
      simp only [not_exists, not_and, Bool.not_eq_true', Bool.not_eq_false, List.contains_iff_mem] at hall
      have hlength := (hnodup.subperm hall).length_le
      simp only [numbered, List.length_map, List.length_range] at hlength
      omega
    obtain ⟨n, hn⟩ := Option.isSome_iff_exists.mp (List.find?_isSome.mpr hfree)
    have hnot := List.find?_some hn
    show (numbered.find? (!taken.contains ·)).getD base ∉ taken
    rw [hn]
    simpa using hnot

/-! ## Loops that are accepted -/

theorem Expr.mem_subtermsList {y : Expr} {es : List Expr} :
    y ∈ subtermsList es ↔ ∃ e ∈ es, y ∈ e.subterms := by
  induction es with
  | nil => simp [subtermsList]
  | cons e es ih => simp [subtermsList, ih]

namespace Iteration

variable {L : Iteration} {body : Block}

/-- Where no element is written and no loop has one in its target, nothing else is a target with one. -/
theorem isElement_of_targets (hwrites : Idiom.writesElement L.sequence L.index body = false) {x : Node}
    (hx : x ∈ Block.nodes body) (hconfines : x.confines L.sequence L.index = true) :
    ∀ y ∈ Expr.subtermsList x.targets, L.isElement y = false := by
  have hstmt {s : Stmt} (hs : .stmt s ∈ Block.nodes body) := List.any_eq_false.mp hwrites s
    (List.mem_filterMap.mpr ⟨_, hs, rfl⟩)
  intro y hy
  obtain ⟨t, ht, hyt⟩ := Expr.mem_subtermsList.mp hy
  rw [← Bool.not_eq_true]
  intro helement
  have hoccurs : t.subterms.any (Idiom.isElement L.sequence L.index) = true :=
    List.any_eq_true.mpr ⟨y, hyt, helement⟩
  cases x with
  | expr e => cases ht
  | stmt s =>
    cases s with
    | assign ts v a => exact hstmt hx (List.any_eq_true.mpr ⟨t, ht, hoccurs⟩)
    | augAssign target op v =>
      obtain rfl := List.mem_singleton.mp ht
      exact hstmt hx hoccurs
    | forLoop target iter inner orelse =>
      obtain rfl := List.mem_singleton.mp ht
      simp [Node.confines, hoccurs] at hconfines
    | _ => cases ht

/-- Where a loop is accepted, the index is only used to read elements. What the idiom does not look at is
how functions, comprehensions and handlers in the body bind names. -/
theorem reads_of_accepted (h : Idiom.indexIteration? [L.indexLoop body] 0 = some (L.index, L.sequence))
    (hconfines : ∀ x ∈ Block.nodes body, x.confines L.sequence L.index = true)
    (hfresh : ∀ x ∈ Block.nodes body, x.avoids [L.element] = true) : L.Reads body := by
  change (if _ then none else some (L.index, L.sequence)) = some (L.index, L.sequence) at h
  split at h
  · cases h
  · next hcond =>
    simp only [Bool.or_eq_true, beq_iff_eq, bne_iff_ne, ne_eq, not_or, not_not, Bool.not_eq_true] at hcond
    obtain ⟨⟨⟨-, hread⟩, hcount⟩, hwrites⟩ := hcond
    exact
      { other := sequence_ne_index hcount hread
        free := notMem_index_map hcount
        admits := fun x hx =>
          ⟨hconfines x hx, hfresh x hx, isElement_of_targets hwrites hx (hconfines x hx)⟩ }

end Iteration

/-! ## The edit -/

/-- The names that a part binds or declares, other than by an expression that is a name. -/
def Node.binds : Node → List String
  | .expr (.name _) => []
  | x => x.mentioned

namespace Strategy

/-- The names that an edit of a function of the module keeps away from. -/
def taken (m : Module) (f : Function) : List String :=
  Block.nameOccurrences f.body ++ f.paramNames ++ m.globals

/-- The edit lets the loop over indices at this spot of the function run over elements. -/
structure Iterates (site : Site) (m m' : Module) (f : Function) (L : Iteration) (P : Spot)
    (body : Block) : Prop where
  function : m.function? site.function = some f
  loop : f.body = P.fill (L.indexLoop body)
  accepted : Idiom.indexIteration? [L.indexLoop body] 0 = some (L.index, L.sequence)
  element : L.element = freshName (taken m f) "item"
  edited : m.editFunction? site.function
    (fun f => some { f with body := P.fill (L.elementLoop body) }) = some m'

/-- The indices of a sequence. -/
def indicesOf (sequence : String) : Expr :=
  .call (.name "range") [.positional (.call (.name "len") [.positional (.name sequence)])]

theorem eq_of_rangeOfLength? {e : Expr} {sequence : String}
    (h : Idiom.rangeOfLength? e = some sequence) : e = indicesOf sequence := by
  unfold Idiom.rangeOfLength? at h
  split at h
  · next arg hrange =>
    split at h
    · next name hlen =>
      obtain rfl := Option.some.inj h
      rw [indicesOf, Expr.eq_of_asSimpleCall? hrange, Expr.eq_of_asSimpleCall? hlen]
    · cases h
  · cases h

variable {index sequence : String}

/-- A loop that is accepted runs over the indices of a sequence. -/
theorem exists_of_indexIteration? {block : Block} {i : Nat}
    (h : Idiom.indexIteration? block i = some (index, sequence)) :
    ∃ front body rest, block = front ++ .forLoop (.name index) (indicesOf sequence) body [] :: rest ∧
      i = front.length := by
  unfold Idiom.indexIteration? at h
  split at h
  · next iter body hget =>
    obtain ⟨name, hname, hcond⟩ := Option.bind_eq_some_iff.mp h
    dsimp only at hcond
    split at hcond
    · cases hcond
    · cases hcond
      obtain ⟨hi, hloop⟩ := List.getElem?_eq_some_iff.mp hget
      refine ⟨block.take i, body, block.drop (i + 1), ?_, (List.length_take_of_le (Nat.le_of_lt hi)).symm⟩
      rw [← eq_of_rangeOfLength? hname, ← hloop, List.getElem_cons_drop, List.take_append_drop]
  · cases h

/-- Whether a loop is accepted depends on the loop only. -/
theorem indexIteration?_append (front rest : Block) (s : Stmt) :
    Idiom.indexIteration? (front ++ s :: rest) front.length = Idiom.indexIteration? [s] 0 := by
  unfold Idiom.indexIteration?
  simp

/-- The loop over elements takes the place of an accepted loop. -/
theorem iterateElements_append {front body rest : Block}
    (h : Idiom.indexIteration? [.forLoop (.name index) (indicesOf sequence) body []] 0 =
      some (index, sequence)) (element : String) :
    iterateElements element (front ++ .forLoop (.name index) (indicesOf sequence) body [] :: rest)
        front.length =
      some (front ++ .forLoop (.name element) (.name sequence) (Stmt.mapList id
        (fun e => if Idiom.isElement sequence index e then .name element else e) body) [] :: rest) := by
  rw [iterateElements, indexIteration?_append, h]
  simp [List.set_append_right]

/-- Names in the body of a function count as taken. -/
theorem mem_taken {m : Module} {f : Function} {n : String} (h : .expr (.name n) ∈ Block.nodes f.body) :
    n ∈ taken m f :=
  List.mem_append_left _ (List.mem_append_left _ (Names.mem_ofList.mp (Block.mem_names_iff.mpr h)))

/-- Whatever the edit gives, it let a loop over indices run over elements. -/
theorem exists_iterates {site : Site} {m m' : Module} (h : iterateAt site m = .ok (some m')) :
    ∃ f L P body, Iterates site m m' f L P body := by
  unfold iterateAt inFunction at h
  split at h
  · cases h
  · next f hf =>
    replace h := Except.ok.inj h
    obtain ⟨before, after, -, hedit⟩ := Module.editFunction?_eq_map hf
    rw [hedit] at h
    obtain ⟨g, hg, rfl⟩ := Option.map_eq_some_iff.mp h
    obtain ⟨b', hb', rfl⟩ := Option.map_eq_some_iff.mp hg
    have hlt : site.occurrence < (Block.sites Idiom.isIndexIteration f.body).length := by
      by_contra hge
      rw [Block.editNth?, Block.editFrom_of_length_le (Nat.not_lt.mp hge)] at hb'
      cases hb'
    obtain ⟨⟨block, i⟩, hsite⟩ : ∃ place, (Block.sites Idiom.isIndexIteration f.body)[site.occurrence]? =
        some place := ⟨_, List.getElem?_eq_getElem hlt⟩
    obtain ⟨⟨index, sequence⟩, hloop⟩ := Option.isSome_iff_exists.mp (Block.holds_of_sites hsite)
    obtain ⟨front, body, rest, rfl, rfl⟩ := exists_of_indexIteration? hloop
    rw [indexIteration?_append] at hloop
    obtain ⟨P, hbefore, hafter⟩ := Block.exists_spot hsite (iterateElements_append hloop _) hb'
    have hinside : (Stmt.forLoop (.name index) (indicesOf sequence) body []).nodes ⊆ Block.nodes f.body :=
      hbefore ▸ List.Subset.trans P.hole.nodes_subset P.nodes_subset
    have hfresh (n : String) (hn : .expr (.name n) ∈
        (Stmt.forLoop (.name index) (indicesOf sequence) body []).nodes) :
        freshName (taken m f) "item" ≠ n :=
      fun he => freshName_notMem _ _ (he ▸ mem_taken (hinside hn))
    let L : Iteration :=
      { sequence, index
        element := freshName (taken m f) "item"
        element_ne_index := hfresh index (by simp [Stmt.nodes, Stmt.exprNodes, Expr.subterms])
        element_ne_sequence := hfresh sequence (by
          simp [indicesOf, Stmt.nodes, Stmt.exprNodes, Expr.subterms, Expr.subtermsArgs]) }
    subst hafter
    exact ⟨f, L, P, body, hf, hbefore, hloop, rfl, hedit _⟩

/-! ## Runs -/

variable {site : Site} {m m' : Module} {f : Function} {L : Iteration} {P : Spot} {body : Block}
  {fuel depth : Nat} {entry : String} {data : List Datum} {r : Probe.Run}

/-- An expression that names the new name stands neither around the loop nor in it. -/
theorem Iterates.avoids_element (h : Iterates site m m' f L P body) {x : Node}
    (hx : x ∈ Block.nodes (P.hole.fill .pass) ∨ x ∈ Block.nodes body) (hbinds : L.element ∉ x.binds) :
    x.avoids [L.element] = true := by
  have hfree : L.element ∉ taken m f := h.element ▸ freshName_notMem _ _
  have hinside : ∀ e, .expr e = x → .expr e ∈ Block.nodes f.body := by
    rintro e rfl
    rw [h.loop]
    refine P.nodes_subset ?_
    obtain hx | hx := hx
    · exact P.hole.expr_mono (by simp [Stmt.nodes]) hx
    · refine P.hole.nodes_subset ?_
      simp only [Iteration.indexLoop, Stmt.nodes, List.mem_cons, List.mem_append]
      exact .inr (.inr (.inl hx))
  refine Node.avoids_iff.mpr fun n hn hmem => ?_
  obtain rfl := List.mem_singleton.mp hmem
  by_cases hname : x = .expr (.name L.element)
  · exact hfree (mem_taken (hinside _ hname.symm))
  · refine hbinds ?_
    cases x with
    | stmt s => exact hn
    | expr e =>
      cases e with
      | name n =>
        obtain rfl := List.mem_singleton.mp hn
        exact absurd rfl hname
      | _ => exact hn

/-- Where the edit lets a loop run over elements, a run that comes to an end, by a return or an exception,
comes to the same end after it, with the same arguments and containers, given enough fuel. The loop has to
leave its sequence as it is whenever the run comes to it, and to read elements where it runs; the index
is not mentioned around the loop; and nothing there or in the loop binds the new name, which is not
taken. -/
theorem iterateAt_preserves (h : Iterates site m m' f L P body)
    (houter : (Block.nodes (P.hole.fill .pass)).all (fun x =>
      x.avoids [L.index] && !x.binds.contains L.element) = true)
    (hinner : (Block.nodes body).all (fun x =>
      x.confines L.sequence L.index && !x.binds.contains L.element) = true)
    (hrun : runBy (L.watchedAt body P.hole) ⟨fuel, depth⟩ m entry data = .ok r) :
    L.element ∉ taken m f ∧ runOn ⟨fuel, depth⟩ m entry data = .ok r ∧
      ∃ need, ∀ fuel', need ≤ fuel' → ∃ cs,
        runOn ⟨fuel', depth⟩ m' entry data = .ok { r with heap := r.heap.withClosures cs } := by
  simp only [List.all_eq_true, Bool.and_eq_true, Bool.not_eq_true', ← Bool.not_eq_true,
    List.contains_iff_mem] at houter hinner
  have hreads : L.Reads body := Iteration.reads_of_accepted h.accepted (fun x hx => (hinner x hx).1)
    fun x hx => h.avoids_element (.inr hx) (hinner x hx).2
  have hoff : ∀ x ∈ Block.nodes (P.hole.fill .pass), x.avoids L.hidden = true := fun x hx =>
    Iteration.avoids_hidden (houter x hx).1 (h.avoids_element (.inl hx) (houter x hx).2)
  refine ⟨h.element ▸ freshName_notMem _ _, ?_, ?_⟩
  · rw [← runBy_callAt]
    exact runBy_follows (L.follows_watchedAt body P.hole) hrun
  · obtain ⟨g, before, after, hg, hm, hm'⟩ := Module.eq_of_editFunction? h.function h.edited
    cases hg
    have hsame (b : Block) : List.Forall₂
        (Exchanged (P.Differ (L.indexLoop body) (L.elementLoop body))) b b :=
      List.forall₂_same.mpr fun s _ => .same s
    have hbodies : List.Forall₂ (Exchanged (P.Differ (L.indexLoop body) (L.elementLoop body)))
        m.body m'.body := by
      rw [hm, hm']
      exact List.rel_append (hsame before) (.cons (.body (h.loop ▸ P.differ_fill)) (hsame after))
    exact runBy_exchanged (Iteration.attains_watchedAt hreads hoff) hbodies hrun

/-- A module with one function, which runs a loop between an assignment and a return. -/
def around (start : Expr) (loop : Stmt) : Module :=
  ⟨[.define ⟨"f", [⟨"xs", .regular, none, none⟩],
    [.assign [.name "t"] start none, loop, .ret (some (.name "t"))], [], none, false⟩]⟩

/-- A loop that adds up the elements that are not negative. -/
theorem iterateAt_preserves_sum :
    let t : Expr := .name "t"
    let body (x : Expr) : Block := [.cond (.compare x [(.gtEq, .int 0)]) [.augAssign t .add x] []]
    let m := around (.int 0)
      (.forLoop (.name "i") (indicesOf "xs") (body (.subscript (.name "xs") (.name "i"))) [])
    let m' := around (.int 0) (.forLoop (.name "item") (.name "xs") (body (.name "item")) [])
    let data : List Datum := [.list [.int 3, .int (-1), .int 2]]
    iterateAt ⟨"f", 0⟩ m = .ok (some m') ∧
      ∃ r, runOn ⟨60, 1⟩ m "f" data = .ok r ∧ r.outcome.text r.heap = "5" ∧
        ∃ need, ∀ fuel', need ≤ fuel' → ∃ cs,
          runOn ⟨fuel', 1⟩ m' "f" data = .ok { r with heap := r.heap.withClosures cs } := by
  intro t body m m' data
  let L : Iteration := ⟨"xs", "i", "item", by decide, by decide⟩
  let b := body (.subscript (.name "xs") (.name "i"))
  let P : Spot := .own (.later (.assign [t] (.int 0) none) (.here [.ret (some t)]))
  let f : Function := ⟨"f", [⟨"xs", .regular, none, none⟩], P.fill (L.indexLoop b), [], none, false⟩
  have hiterates : Iterates ⟨"f", 0⟩ m m' f L P b :=
    { function := rfl
      loop := rfl
      accepted := by decide +kernel
      element := by decide +kernel
      edited := by decide +kernel }
  have htext : ((runBy (L.watchedAt b P.hole) ⟨60, 1⟩ m "f" data).toOption.map
      fun r => r.outcome.text r.heap) = some "5" := by decide +kernel
  cases hrun : runBy (L.watchedAt b P.hole) ⟨60, 1⟩ m "f" data with
  | error e =>
    rw [hrun] at htext
    cases htext
  | ok r =>
    rw [hrun] at htext
    obtain ⟨-, hsame, hafter⟩ :=
      iterateAt_preserves hiterates (by decide +kernel) (by decide +kernel) hrun
    exact ⟨by decide +kernel, r, hsame, Option.some.inj htext, hafter⟩

/-- The lambda in the loop has a parameter of the name of the index, so what it reads is not the element
of the turn. -/
theorem iterateAt_rebound :
    let body (x : Expr) : Block :=
      [.assign [.name "g"] (.lambda [⟨"i", .regular, none, none⟩] x) none,
        .augAssign (.name "t") .add (.call (.name "g") [.positional (.int 0)])]
    let m := around (.int 0)
      (.forLoop (.name "i") (indicesOf "xs") (body (.subscript (.name "xs") (.name "i"))) [])
    let m' := around (.int 0) (.forLoop (.name "item") (.name "xs") (body (.name "item")) [])
    let answer (m : Module) := (runOn {} m "f" [.list [.int 3, .int 1, .int 2]]).toOption.map fun r =>
      r.outcome.text r.heap
    iterateAt ⟨"f", 0⟩ m = .ok (some m') ∧ answer m = some "9" ∧ answer m' = some "6" := by
  intro body m m' answer
  exact ⟨by decide +kernel, by decide +kernel, by decide +kernel⟩

/-- A handler in the loop binds the new name, which is free among the names that are expressions. -/
theorem iterateAt_captured :
    let body (x : Expr) : Block :=
      [.tryBlock [.expr (.bin .floorDiv (.int 1) (.int 0))]
          [⟨some (.name "ZeroDivisionError"), some "item", [.pass]⟩] [] [],
        .augAssign (.name "t") .add x]
    let m := around (.int 0)
      (.forLoop (.name "i") (indicesOf "xs") (body (.subscript (.name "xs") (.name "i"))) [])
    let m' := around (.int 0) (.forLoop (.name "item") (.name "xs") (body (.name "item")) [])
    let answer (m : Module) := (runOn {} m "f" [.list [.int 3, .int 1]]).toOption.map fun r =>
      r.outcome.text r.heap
    iterateAt ⟨"f", 0⟩ m = .ok (some m') ∧ answer m = some "4" ∧
      answer m' = some "raised TypeError: unsupported operand type(s) for +: 'int' and 'exception'" := by
  intro body m m' answer
  exact ⟨by decide +kernel, by decide +kernel, by decide +kernel⟩

end Strategy

end Concord
