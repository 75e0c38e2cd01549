import Concord.Proofs.Source.Bracket

/-!
# Reading targets

A target is printed like the expression it looks like, except that a tuple loses its parentheses.
So a target inside another one is read twice: first as an atom with what follows it, which settles
names, attributes and subscripts, and then by its bracket.
-/

namespace Concord

namespace Expr

/-! ## The pieces of targets -/

theorem wrapPieces_of_le {e : Expr} {min : Nat} (h : min ≤ e.precedence) (ps : List Piece) :
    wrapPieces min e ps = ps := by
  rw [wrapPieces, if_neg (by omega)]

theorem precedence_isSimpleTarget {e : Expr} (h : e.isSimpleTarget = true) : 16 ≤ e.precedence := by
  cases e <;> simp_all [isSimpleTarget, precedence]

/-- The kinds of targets that stand inside others. -/
theorem isInnerTarget_cases {e : Expr} (h : e.isInnerTarget = true) :
    e.isSimpleTarget = true ∨ (∃ a, e = .starred a ∧ a.isSimpleTarget = true) ∨ e = .tuple [] ∨
      ∃ items, e = .list items ∧ areInnerTargets items = true := by
  match e, h with
  | .name _, _ | .attribute _ _, _ | .subscript _ _, _ => exact .inl rfl
  | .starred a, h => exact .inr (.inl ⟨a, rfl, h⟩)
  | .tuple [], _ => exact .inr (.inr (.inl rfl))
  | .list items, h => exact .inr (.inr (.inr ⟨items, rfl, h⟩))

theorem one_le_precedence {e : Expr} (h : e.isInnerTarget = true) : 1 ≤ e.precedence := by
  obtain hsimple | ⟨a, rfl, -⟩ | rfl | ⟨items, rfl, -⟩ := isInnerTarget_cases h
  · exact Nat.le_trans (by decide) (precedence_isSimpleTarget hsimple)
  · exact Nat.le_refl 1
  · decide
  · exact show 1 ≤ 17 by decide

mutual

/-- A target inside another one is printed like an expression. -/
theorem piecesTarget_inner (e : Expr) (h : e.isInnerTarget = true) :
    piecesTarget e e.pieces = e.pieces := by
  obtain hsimple | ⟨a, rfl, -⟩ | rfl | ⟨items, rfl, hitems⟩ := isInnerTarget_cases h
  · have hmin := precedence_isSimpleTarget hsimple
    match e, hsimple with
    | .name _, _ | .attribute _ _, _ | .subscript _ _, _ =>
      rw [piecesTarget, wrapPieces_of_le hmin]
      all_goals simp
  · rfl
  · rfl
  · rw [piecesTarget, pieces, piecesTargets_inner items hitems]
termination_by sizeOf e

theorem piecesTargets_inner (es : List Expr) (h : areInnerTargets es = true) :
    piecesTargets es = piecesList es := by
  match es with
  | [] => rfl
  | e :: es =>
    rw [areInnerTargets, Bool.and_eq_true] at h
    rw [piecesTargets, piecesList, piecesTarget_inner e h.1, piecesTargets_inner es h.2,
      wrapPieces_of_le (one_le_precedence h.1)]
termination_by sizeOf es

end

end Expr

namespace Source

variable {self : ExprReader} {ctx : Context} {e : Expr} {ts rest : Cursor} {n depth : Nat}

/-! ## Simple targets -/

theorem Reads.simpleTarget (h : Reads self n) (he : e.isSimpleTarget = true) (hp : e.Printable)
    (hlen : e.pieces.length < n) (hs : Spells e.pieces ts rest) (hdepth : ts.length < depth)
    (hstop : Stops ctx trailerMarks rest) :
    Source.simpleTarget ctx (primary self depth) ts = some (e, rest) := by
  have hread := (h.simple he hp hlen).reads depth ts rest hs hdepth hstop
  unfold Source.simpleTarget
  simp only [hread, Option.bind_eq_bind, Option.bind_some]
  match e, he with
  | .name m, _ =>
    obtain ⟨t, rfl, ht⟩ := spells_singleton hs
    simp [Expr.isFollowed, ht.next, isIdentifier_of_isName ht hp.regular]
  | .attribute _ _, _ | .subscript _ _, _ => rfl

/-- What is read as another kind of expression is no simple target. -/
theorem simpleTarget_eq_none {followed : Bool} (he : e.isSimpleTarget = false)
    (hread : primary self depth ctx ts = some ((e, followed), rest)) :
    Source.simpleTarget ctx (primary self depth) ts = none := by
  unfold Source.simpleTarget
  simp only [hread, Option.bind_eq_bind, Option.bind_some]
  split
  · simp [Expr.isSimpleTarget] at he
  · simp [Expr.isSimpleTarget] at he
  · simp [Expr.isSimpleTarget] at he
  · rfl

/-- A display is read as an atom before it is tried as a target. -/
theorem Reads.simpleTarget_display (h : Reads self n) (he : e.isSimpleTarget = false)
    (hplain : e.isPlain = true) (hp : e.Printable) (hrank : 15 ≤ e.rank) (hlen : e.pieces.length < n)
    (hs : Spells e.pieces ts rest) (hdepth : ts.length < depth) (hstop : Stops ctx trailerMarks rest) :
    Source.simpleTarget ctx (primary self depth) ts = none := by
  have hlevel : ReadsAt self ctx e e.pieces e.rank := h.level hplain hp hlen (.inr (by omega))
  obtain ⟨k, hk⟩ := Nat.exists_eq_add_of_le hrank
  rw [hk, Nat.add_comm] at hlevel
  obtain ⟨followed, hfeeds⟩ := hlevel
  exact simpleTarget_eq_none he (hfeeds.reads depth ts rest hs hdepth hstop)

/-- An asterisk before a simple target. -/
theorem Reads.primary_starred {a : Expr} (h : Reads self n) (ha : a.isSimpleTarget = true)
    (hp : a.Printable) (hlen : a.pieces.length < n) {t : Token} {us : Cursor}
    (ht : t.Spells (Piece.op "*")) (hs : Spells a.pieces us rest)
    (hdepth : (t :: us).length < depth) (hstop : Stops ctx trailerMarks rest) :
    primary self depth ctx (t :: us) = some ((.starred a, false), rest) := by
  cases depth with
  | zero => omega
  | succ depth =>
    have hkind : t.kind = .op := ht.kind
    have htext : t.text = "*" := ht.text
    simp only [List.length_cons] at hdepth
    have hread := h.simpleTarget ha hp hlen hs (by omega : us.length < depth) hstop
    obtain ⟨u, vs, p, rfl, hu⟩ := exists_token a.pieces_ne_nil hs
    have hahead := hstop.ahead
    simp only [trailerMarks, List.mem_cons, List.not_mem_nil, or_false, not_or] at hahead
    rw [primary]
    simp only [ht.operand?, Option.bind_eq_bind, Option.bind_some]
    unfold atom
    simp only [ht.next, ht.advance, hkind, htext, hu.operand?, hread, hu.continuations,
      Option.bind_eq_bind, Option.bind_some, List.headD_nil]
    rw [trailers]
    split
    · exact absurd ‹_› hahead.1
    · exact absurd ‹_› hahead.2.1
    · exact absurd ‹_› hahead.2.2
    · rfl

/-! ## Targets inside others -/

mutual

/-- A target that stands inside another one. -/
theorem Reads.target (h : Reads self n) (e : Expr) (he : e.isInnerTarget = true) (hp : e.Printable)
    (hlen : e.pieces.length < n) {ctx : Context} {fuel depth : Nat} {ts rest : Cursor}
    (hs : Spells e.pieces ts rest) (hfuel : ts.length < fuel) (hdepth : ts.length < depth)
    (hstop : Stops ctx trailerMarks rest) :
    Source.target ctx (primary self depth) fuel ts = some (e, rest) := by
  obtain ⟨fuel, rfl⟩ : ∃ k, fuel = k + 1 := ⟨fuel - 1, by omega⟩
  obtain hsimple | ⟨a, rfl, ha⟩ | rfl | ⟨items, rfl, hitems⟩ := Expr.isInnerTarget_cases he
  · have hread := h.simpleTarget hsimple hp hlen hs hdepth hstop
    obtain ⟨t, us, p, rfl, ht⟩ := exists_token e.pieces_ne_nil hs
    rw [Source.target]
    simp [ht.operand?, hread]
  · obtain ⟨-, ha'⟩ := Expr.printable_starred.mp hp
    rw [Expr.pieces, Expr.wrapPieces_of_le (Expr.precedence_isSimpleTarget ha)] at hs hlen
    obtain ⟨t, us, rfl, ht, hs⟩ := hs
    have htext : t.text = "*" := ht.text
    have hlen : a.pieces.length < n := Nat.lt_of_succ_lt hlen
    have hstarred := h.primary_starred ha ha' hlen ht hs hdepth hstop
    have hnone := simpleTarget_eq_none rfl hstarred
    have hread := h.simpleTarget ha ha' hlen hs (Nat.lt_of_succ_lt hdepth) hstop
    obtain ⟨u, vs, p, rfl, hu⟩ := exists_token a.pieces_ne_nil hs
    rw [Source.target]
    simp [ht.operand?, ht.next, ht.advance, htext, hnone, hu.operand?, hread, hu.continuations]
  · have hnone := h.simpleTarget_display rfl rfl hp (by decide) hlen hs hdepth hstop
    obtain ⟨t, us, rfl, ht, hs⟩ := hs
    obtain ⟨u, rfl, hu⟩ := spells_singleton hs
    have htext : t.text = "(" := ht.text
    rw [Source.target]
    simp [ht.operand?, ht.next, ht.advance, htext, hnone,
      bracketItems_close (hu.clean rest) (hu.ahead_op rest {}), hu.advance]
  · have hrank : 15 ≤ (Expr.list items).rank := show 15 ≤ 17 by decide
    have hnone := h.simpleTarget_display rfl rfl hp hrank hlen hs hdepth hstop
    obtain ⟨hitems', hp'⟩ := Expr.printable_list.mp hp
    obtain ⟨t, us, rfl, ht, hs⟩ := hs
    have htext : t.text = "[" := ht.text
    simp only [List.length_cons, Expr.pieces, List.length_append] at hlen hfuel hdepth
    have hreads := Reads.innerTargets h items hitems hp' (length_lt_of_mem (by omega))
      ctx.inBrackets (show us.length < fuel by omega) (show us.length < depth by omega)
      ["]"] (by decide)
    have hopens := opens_items fun i hi => ⟨hitems' i hi, hp' i hi⟩
    have hmore := bracketItems_reads (by decide) (by decide) (some id) hreads
      (fun part hpart => (hopens part hpart).mono (by decide)) (us.length + 1 + 1) [] us rest hs
      (by omega) (Nat.le_refl _)
    rw [Source.target]
    simp [ht.operand?, ht.next, ht.advance, htext, hnone, hmore]
termination_by sizeOf e

theorem Reads.innerTargets (h : Reads self n) (es : List Expr)
    (he : Expr.areInnerTargets es = true) (hp : ∀ e ∈ es, e.Printable)
    (hlen : ∀ part ∈ Expr.piecesList es, part.length < n) (ctx : Context)
    {fuel depth bound : Nat} (hfuel : bound < fuel) (hdepth : bound < depth)
    (closers : List String) (hclosers : ∀ s ∈ "," :: closers, s ∉ trailerMarks) :
    List.Forall₂ (ItemReads (Source.target ctx (primary self depth) fuel) bound ("," :: closers))
      (Expr.piecesList es) es := by
  match es with
  | [] => exact .nil
  | e :: es =>
    rw [Expr.areInnerTargets, Bool.and_eq_true] at he
    rw [Expr.piecesList] at hlen ⊢
    obtain ⟨hp, hps⟩ := List.forall_mem_cons.mp hp
    obtain ⟨hlen, hlens⟩ := List.forall_mem_cons.mp hlen
    rw [Expr.wrapPieces_of_le (Expr.one_le_precedence he.1)] at hlen ⊢
    refine .cons ?_ (Reads.innerTargets h es he.2 hps hlens ctx hfuel hdepth closers hclosers)
    intro ts rest hs hclose hbound
    exact Reads.target h e he.1 hp hlen hs (by omega) (by omega) (hclose.stops ctx hclosers)
termination_by sizeOf es

end

/-! ## Targets in a row -/

/-- The marks that follow the targets of an assignment. -/
def assignMarks : List String :=
  ["=", ":", "+=", "-=", "*=", "/=", "//=", "%=", "**=", "@=", "<<=", ">>=", "|=", "^=", "&="]

/-- What follows targets: the keyword `in` or a mark of an assignment. -/
def TargetEnd (rest : Cursor) : Prop :=
  ∃ t us, rest = t :: us ∧
    (t.Spells (Piece.word "in") ∨ ∃ s ∈ assignMarks, t.Spells (Piece.op s))

theorem TargetEnd.closes (h : TargetEnd rest) : Closes ("in" :: assignMarks) rest := by
  obtain ⟨t, us, rfl, ht | ⟨s, hs, ht⟩⟩ := h
  · exact ⟨t, us, _, rfl, ht, .inl rfl, List.mem_cons_self⟩
  · exact ⟨t, us, _, rfl, ht, .inr rfl, List.mem_cons_of_mem _ hs⟩

theorem TargetEnd.stops (h : TargetEnd rest) (ctx : Context) : Stops ctx trailerMarks rest :=
  h.closes.stops ctx (by decide)

theorem TargetEnd.ahead_ne (h : TargetEnd rest) (ctx : Context) : Cursor.ahead ctx rest ≠ "," := by
  have hstop : Stops ctx [","] rest := h.closes.stops ctx (by decide)
  exact fun he => hstop.ahead (List.mem_singleton.mpr he)

/-- A piece that no atom starts with: a keyword, or an operator that is no bracket. -/
def Blocks (p : Piece) : Prop :=
  (p.kind = .word ∧ keywords.contains p.text = true ∧ constant? p.text = none) ∨
    (p.kind = .op ∧ p.text ∉ ["(", "[", "\x7b", "...", "*"])

theorem Blocks.atom {t : Token} {p : Piece} (hp : Blocks p) (ht : t.Spells p)
    (us : Cursor) (r : PrimaryReader) : Source.atom self ctx r (t :: us) = none := by
  unfold Source.atom
  obtain ⟨hkind, hkeyword, hconstant⟩ | ⟨hkind, htext⟩ := hp
  · have hid : t.isIdentifier = false := by
      rw [Token.isIdentifier, ht.text, hkeyword]
      exact Bool.and_false _
    simp [ht.next, ht.kind, ht.text, hkind, hconstant, hid]
  · simp only [ht.next, ht.kind, ht.text, hkind]
    simp only [List.mem_cons, List.not_mem_nil, or_false, not_or] at htext
    split
    · exact absurd ‹_› htext.1
    · exact absurd ‹_› htext.2.1
    · exact absurd ‹_› htext.2.2.1
    · exact absurd ‹_› htext.2.2.2.1
    · exact absurd ‹_› htext.2.2.2.2
    · rfl

theorem Blocks.primary {t : Token} {p : Piece} (hp : Blocks p) (ht : t.Spells p)
    (us : Cursor) : Source.primary self depth ctx (t :: us) = none := by
  cases depth with
  | zero => rfl
  | succ depth =>
    rw [Source.primary]
    simp [ht.operand?, hp.atom ht us]

/-- No target starts with such a piece. -/
theorem Blocks.target {t : Token} {p : Piece} (hp : Blocks p) (ht : t.Spells p)
    (us : Cursor) (fuel : Nat) :
    Source.target ctx (Source.primary self depth) fuel (t :: us) = none := by
  have hsimple : Source.simpleTarget ctx (Source.primary self depth) (t :: us) = none := by
    unfold Source.simpleTarget
    simp [hp.primary ht us]
  have hbracket : t.text ∉ ["(", "[", "*"] := by
    rw [ht.text]
    obtain ⟨-, hkeyword, -⟩ | ⟨-, htext⟩ := hp
    · intro hmem
      simp only [List.mem_cons, List.not_mem_nil, or_false] at hmem
      rcases hmem with h | h | h <;> simp [h, keywords] at hkeyword
    · exact fun hmem => htext ((by decide : ["(", "[", "*"] ⊆ _) hmem)
  cases fuel with
  | zero => rfl
  | succ fuel =>
    simp only [List.mem_cons, List.not_mem_nil, or_false, not_or] at hbracket
    rw [Source.target]
    simp only [ht.operand?, ht.next, hsimple, Option.bind_eq_bind, Option.bind_some]
    split
    · exact absurd ‹_› hbracket.1
    · exact absurd ‹_› hbracket.2.1
    · exact absurd ‹_› hbracket.2.2
    · rfl

/-- No target starts with a mark that follows targets. -/
theorem TargetEnd.target_eq_none (h : TargetEnd rest) (fuel : Nat) :
    Source.target ctx (primary self depth) fuel rest = none := by
  obtain ⟨t, us, rfl, ht | ⟨s, hs, ht⟩⟩ := h
  · exact Blocks.target (.inl ⟨rfl, by decide, rfl⟩) ht us fuel
  · have hmarks : ∀ s ∈ assignMarks, s ∉ ["(", "[", "\x7b", "...", "*"] := by decide
    exact Blocks.target (.inr ⟨rfl, hmarks s hs⟩) ht us fuel

/-- Two or more targets with commas between them. -/
theorem Reads.targetsRead_many {es : List Expr} (h : Reads self n)
    (he : Expr.areInnerTargets es = true) (hes : 1 < es.length) (hp : ∀ e ∈ es, e.Printable)
    (hlen : (Piece.commas (Expr.piecesList es)).length < n)
    (hs : Spells (Piece.commas (Expr.piecesList es)) ts rest) (hdepth : ts.length < depth)
    (hend : TargetEnd rest) : targets ctx (primary self depth) ts = some (.tuple es, rest) := by
  have hreads := h.innerTargets es he hp (length_lt_of_mem hlen) ctx
    (Nat.lt_succ_self ts.length) hdepth ("in" :: assignMarks) (by decide)
  have hlast : List.Forall₂ (LastReads (Source.target ctx (primary self depth) (ts.length + 1))
      ts.length TargetEnd) (Expr.piecesList es) es := by
    refine hreads.imp fun part e hread ts rest hs hrest hbound => hread ts rest hs ?_ hbound
    rcases hrest with hcomma | hend
    · exact hcomma.mono (by simp)
    · exact hend.closes.mono (List.subset_cons_self _ _)
  have hne : Expr.piecesList es ≠ [] := by
    rintro hnil
    rw [hnil] at hreads
    cases hreads
    simp at hes
  have hparts : ∀ part ∈ Expr.piecesList es, part ≠ [] := fun part hpart hnil => by
    have htight := Expr.tight_piecesList es part hpart
    rw [hnil] at htight
    exact htight
  have hitems := commaItems_reads (some id) (fun rest hend => hend.ahead_ne ctx) hlast hne hparts
    (ts.length + 1) ts rest hs (Nat.lt_succ_self _) (Nat.le_refl _) hend
  rw [decide_eq_true hes] at hitems
  unfold targets
  simp [hitems]

/-- A target that a comma makes a tuple. -/
theorem Reads.targetsRead_one (h : Reads self n) (he : e.isInnerTarget = true) (hp : e.Printable)
    (hlen : e.pieces.length < n) (hs : Spells (e.pieces ++ [Piece.op ","]) ts rest)
    (hdepth : ts.length < depth) (hend : TargetEnd rest) :
    targets ctx (primary self depth) ts = some (.tuple [e], rest) := by
  obtain ⟨mid, hs, hmid⟩ := spells_append.mp hs
  obtain ⟨u, rfl, hu⟩ := spells_singleton hmid
  have hstop : Stops ctx trailerMarks (u :: rest) := hu.stops rest ctx (.inr rfl) (by decide)
  have hread := h.target e he hp hlen hs (Nat.lt_succ_self ts.length) hdepth hstop
  have hmore : commaItems ctx (some id) (Source.target ctx (primary self depth) (ts.length + 1))
      ts.length (Cursor.advance (u :: rest)) = none := by
    rw [hu.advance]
    cases ts.length with
    | zero => rfl
    | succ k =>
      rw [commaItems]
      simp [hend.target_eq_none]
  have hitems := commaItems_end hread (hu.clean rest) (hu.ahead_op rest ctx) hmore
  unfold targets
  simp [hitems, hu.advance]

/-- The targets of an assignment, a loop or a comprehension. -/
theorem Reads.targetsRead (h : Reads self n) (he : e.isTarget = true) (hp : e.Printable)
    (hlen : (Expr.piecesTarget e e.pieces).length < n)
    (hs : Spells (Expr.piecesTarget e e.pieces) ts rest) (hdepth : ts.length < depth)
    (hend : TargetEnd rest) : targets ctx (primary self depth) ts = some (e, rest) := by
  by_cases hinner : e.isInnerTarget = true
  · rw [Expr.piecesTarget_inner e hinner] at hs hlen
    have hread := h.target e hinner hp hlen hs (Nat.lt_succ_self ts.length) hdepth (hend.stops ctx)
    unfold targets
    simp [commaItems_one hread (hend.ahead_ne ctx)]
  · match e, he, hinner with
    | .tuple (i :: is), he, _ =>
      obtain ⟨-, hitems⟩ := Expr.printable_tuple.mp hp
      have hpieces : Expr.piecesTarget (.tuple (i :: is)) (Expr.tuple (i :: is)).pieces =
          Piece.commasTuple (Expr.piecesList (i :: is)) := by
        rw [Expr.piecesTarget, ← Expr.piecesTargets_inner _ he, Expr.piecesTargets]
      rw [hpieces] at hs hlen
      cases is with
      | nil =>
        have hi : i.isInnerTarget = true := by
          simpa [Expr.isTarget, Expr.areInnerTargets] using he
        rw [Expr.piecesList, Expr.wrapPieces_of_le (Expr.one_le_precedence hi)] at hs hlen
        rw [show Piece.commasTuple (i.pieces :: Expr.piecesList []) = i.pieces ++ [Piece.op ","]
          from rfl] at hs hlen
        rw [List.length_append] at hlen
        exact h.targetsRead_one hi (hitems i (by simp)) (by omega) hs hdepth hend
      | cons j js =>
        exact h.targetsRead_many he (by simp) hitems hlen hs hdepth hend

end Source

end Concord

/-!
## Reading comprehensions

A comprehension is an element, or a key and a value, followed by clauses. The iterable and the
conditions of a clause are read where no conditional expression may stand, so that the keyword `if`
after them starts the next condition.
-/

namespace Concord.Source

open Expr (wrapPieces)

variable {self : ExprReader} {ctx inner : Context} {e : Expr} {ps : List Piece} {ts rest : Cursor}
  {n depth : Nat}

/-- The brackets that close a comprehension. -/
def closingBrackets : List String := [")", "]", "\x7d"]

/-- An operand of a clause, which no conditional expression may be. -/
theorem Reads.clauseOperand {closers : List String} (h : Reads self n) (hinner : inner.ternary = false)
    (he : e.isPlain = true) (hp : e.Printable) (hlen : (wrapPieces 3 e e.pieces).length < n)
    (hs : Spells (wrapPieces 3 e e.pieces) ts rest) (hclose : Closes closers rest)
    (hapart : ∀ s ∈ closers, s ∉ "as" :: disjunctionMarks) :
    self inner ts = some (e, rest) := by
  refine h.whole he hp hlen (.inr (Nat.le_refl 3)) ts rest hs (hclose.stops inner fun s hs hmem => ?_)
  rw [wholeMarks, hinner] at hmem
  exact hapart s hs (aliasMarks_subset inner hmem)

/-- What may follow the conditions of a clause. -/
def clauseEnds : List String := "for" :: closingBrackets

theorem Reads.conditions (h : Reads self n) (hinner : inner.ternary = false) (ifs : List Expr)
    (hifs : ∀ i ∈ ifs, i.isPlain = true) (hp : ∀ i ∈ ifs, i.Printable)
    (hlen : (Expr.piecesConditions ifs).length < n) (hrest : Closes clauseEnds rest) :
    ∀ {fuel : Nat} {ts : Cursor}, Spells (Expr.piecesConditions ifs) ts rest → ts.length < fuel →
      clauses.conditions self ctx inner fuel ts = some (ifs, rest) ∧
        Closes ("if" :: clauseEnds) ts := by
  induction ifs with
  | nil =>
    rintro (_ | fuel) ts hs hfuel
    · omega
    obtain rfl : ts = rest := hs
    have hne : Cursor.ahead ctx ts ≠ "if" := by
      have hstop : Stops ctx ["if"] ts := hrest.stops ctx (by decide)
      exact fun he => hstop.ahead (List.mem_singleton.mpr he)
    exact ⟨by simp [clauses.conditions, hne], hrest.mono (List.subset_cons_self _ _)⟩
  | cons e es ih =>
    rintro (_ | fuel) ts hs hfuel
    · omega
    obtain ⟨he, hes⟩ := List.forall_mem_cons.mp hifs
    obtain ⟨hp, hps⟩ := List.forall_mem_cons.mp hp
    obtain ⟨t, us, rfl, ht, hs⟩ := hs
    obtain ⟨mid, hcond, hs⟩ := spells_append.mp hs
    rw [spells_after] at hcond
    have ht := ht.unspaced
    have hlen' := hcond.length
    simp only [Expr.piecesConditions, List.length_cons, List.length_append,
      Piece.length_after] at hlen hfuel
    obtain ⟨hmore, hmid⟩ := ih hes hps (by omega) hs (show mid.length < fuel by omega)
    have hread := h.clauseOperand hinner he hp (by omega) hcond hmid (by decide)
    obtain ⟨u, vs, p, rfl, hu⟩ := exists_token (Expr.wrapPieces_ne_nil 3 e) hcond
    refine ⟨?_, ⟨t, u :: vs, _, rfl, ht, .inl rfl, by simp [Piece.word]⟩⟩
    rw [clauses.conditions]
    simp [ht.ahead_word, ht.advance, hread, hmore, hu.continuations]

/-- What the parts of a clause are. -/
def IsClause (c : Clause) : Prop :=
  (c.target.isTarget = true ∧ c.iter.isPlain = true ∧ ∀ i ∈ c.ifs, i.isPlain = true) ∧
    c.iter.Printable ∧ c.target.Printable ∧ ∀ i ∈ c.ifs, i.Printable

/-- Clauses start with their keyword. -/
theorem closes_clauses {cs : List Clause} (hs : Spells (Expr.piecesClauses cs) ts rest)
    (hrest : Closes closingBrackets rest) : Closes clauseEnds ts := by
  cases cs with
  | nil =>
    obtain rfl : ts = rest := hs
    exact hrest.mono (List.subset_cons_self _ _)
  | cons c cs =>
    obtain ⟨t, us, rfl, ht, -⟩ := hs
    exact ⟨t, us, _, rfl, ht, .inl rfl, by simp [clauseEnds, Piece.word, Piece.spaced]⟩

theorem Reads.clauses (h : Reads self n) (cs : List Clause) (hne : cs ≠ [])
    (hcs : ∀ c ∈ cs, IsClause c) (hlen : (Expr.piecesClauses cs).length < n)
    (hrest : Closes closingBrackets rest) :
    ∀ {fuel : Nat} {ts : Cursor}, Spells (Expr.piecesClauses cs) ts rest → ts.length < fuel →
      ts.length < depth →
        Source.clauses self ctx (primary self depth) fuel ts = some ((cs, false), rest) := by
  induction cs with
  | nil => exact absurd rfl hne
  | cons c cs ih =>
    rintro (_ | fuel) ts hs hfuel hdepth
    · omega
    obtain ⟨hc, hcs'⟩ := List.forall_mem_cons.mp hcs
    obtain ⟨target, iter, ifs⟩ := c
    simp only [IsClause] at hc
    obtain ⟨⟨htarget, hiter, hifs⟩, hiterp, htargetp, hifsp⟩ := hc
    obtain ⟨t, us, rfl, ht, hs⟩ := hs
    obtain ⟨mid, hs1, v, vs, rfl, hv, hs⟩ := spells_append.mp hs
    obtain ⟨ws, hs2, hs⟩ := spells_append.mp hs
    obtain ⟨xs, hs3, hs4⟩ := spells_append.mp hs
    rw [spells_after] at hs1 hs2
    have hlen1 := hs1.length
    have hlen2 := hs2.length
    have hlen3 := hs3.length
    simp only [Expr.piecesClauses, List.length_cons, List.length_append, Piece.length_after]
      at hlen hfuel hdepth hlen1
    have hends := closes_clauses hs4 hrest
    have htargets : targets ctx (primary self depth) us = some (target, v :: vs) :=
      h.targetsRead htarget htargetp (by omega) hs1 (by omega)
        ⟨v, vs, rfl, .inl hv.unspaced⟩
    obtain ⟨inner, hinner⟩ : ∃ inner : Context, inner = { ctx with ternary := false } := ⟨_, rfl⟩
    have hternary : inner.ternary = false := by rw [hinner]
    obtain ⟨hconditions, hws⟩ : Source.clauses.conditions self ctx inner (ws.length + 1) ws =
        some (ifs, xs) ∧ Closes ("if" :: clauseEnds) ws :=
      h.conditions hternary ifs hifs hifsp (by omega) hends hs3 (Nat.lt_add_one ws.length)
    have hread := h.clauseOperand hternary hiter hiterp (by omega) hs2 hws (by decide)
    have hcomma : Cursor.ahead inner ws ≠ "," := by
      have hstop : Stops inner [","] ws := hws.stops _ (by decide)
      exact fun he => hstop.ahead (List.mem_singleton.mpr he)
    have hiters : commaItems inner none (self inner) (vs.length + 1) vs = some ([iter], false, ws) :=
      commaItems_one hread hcomma
    rw [hinner] at hconditions hiters
    have ht := ht.unspaced
    have hv := hv.unspaced
    rw [Source.clauses]
    cases cs with
    | nil =>
      obtain rfl : xs = rest := hs4
      have hstop : Stops ctx ["for", "async"] xs := hrest.stops ctx (by decide)
      have hahead := hstop.ahead
      simp only [List.mem_cons, List.not_mem_nil, or_false, not_or] at hahead
      simp [ht.ahead_word, expect?_word ht, htargets, expect?_word hv, hiters, hconditions, hahead]
    | cons c' cs' =>
      have hmore := ih (by simp) hcs' (by omega) hs4 (show xs.length < fuel by omega) (by omega)
      obtain ⟨u, us', rfl, hu, -⟩ := hs4
      have hu := hu.unspaced
      simp [ht.ahead_word, expect?_word ht, htargets, expect?_word hv, hiters, hconditions,
        hu.ahead_word, hmore]

/-- Clauses and the closing bracket after them. -/
theorem Reads.comprehension {close : String} {cs : List Clause} (h : Reads self n) (hne : cs ≠ [])
    (hcs : ∀ c ∈ cs, IsClause c) (hclose : close ∈ closingBrackets)
    (hlen : (Expr.piecesClauses cs).length < n)
    (hs : Spells (Expr.piecesClauses cs ++ [Piece.op close]) ts rest) (hdepth : ts.length < depth)
    (ctx : Context) (kind : CompKind) (start : Cursor) (e : Expr) (v : Option Expr) :
    Source.comprehension self ctx (primary self depth) kind close start e v ts =
      some (.comp kind e v cs, rest) := by
  obtain ⟨mid, hs, hmid⟩ := spells_append.mp hs
  obtain ⟨u, rfl, hu⟩ := spells_singleton hmid
  have hend : Closes closingBrackets (u :: rest) := ⟨u, rest, _, rfl, hu, .inr rfl, hclose⟩
  have hclauses : Source.clauses self ctx (primary self depth) (ts.length + 1) ts =
      some ((cs, false), u :: rest) :=
    h.clauses cs hne hcs hlen hend hs (Nat.lt_add_one ts.length) hdepth
  unfold Source.comprehension
  simp [hclauses, expect?_op hu]

/-- The first token of clauses. -/
theorem exists_for {cs : List Clause} {qs : List Piece} (hne : cs ≠ [])
    (hs : Spells (Expr.piecesClauses cs ++ qs) ts rest) :
    ∃ t us, ts = t :: us ∧ t.Spells (Piece.word "for") := by
  cases cs with
  | nil => exact absurd rfl hne
  | cons c cs =>
    obtain ⟨t, us, rfl, ht, -⟩ := hs
    exact ⟨t, us, rfl, ht.unspaced⟩

/-- An element and the first token of the clauses after it. -/
theorem Reads.comprehension_element {cs : List Clause} {qs : List Piece} (h : Reads self n)
    (hctx : ctx.ternary = true) (he : e.isPlain = true) (hp : e.Printable) (hne : cs ≠ [])
    (hlen : (wrapPieces 1 e e.pieces).length < n)
    (hs : Spells (wrapPieces 1 e e.pieces ++ (Expr.piecesClauses cs ++ qs)) ts rest) :
    ∃ t us p v vs, ts = t :: us ∧ t.Spells p ∧ p.text ∉ nonStarters ∧
      v.Spells (Piece.word "for") ∧ Spells (Expr.piecesClauses cs ++ qs) (v :: vs) rest ∧
        (v :: vs).length < ts.length ∧ self ctx ts = some (e, v :: vs) := by
  obtain ⟨mid, hs, hmid⟩ := spells_append.mp hs
  have hlength := hs.length
  have hpos := List.length_pos_iff.mpr (Expr.wrapPieces_ne_nil 1 e)
  obtain ⟨v, vs, rfl, hv⟩ := exists_for hne hmid
  have hfor : Closes ["for"] (v :: vs) := ⟨v, vs, _, rfl, hv, .inl rfl, by simp⟩
  have hread := (h.whole he hp hlen (.inl hctx)).closed hs hfor (by decide)
  have hstarts := Expr.starts_wrapPieces (Expr.starts_pieces e he hp) (Nat.le_refl 1) (by decide)
  obtain ⟨t, us, p, rfl, ht, hp⟩ := hstarts.first.cases hs
  exact ⟨t, us, p, v, vs, rfl, ht, hp, hv, hmid, by omega, hread⟩

/-- The bracket that opens a comprehension. -/
def openBracket : CompKind → String
  | .list => "["
  | .generator => "("
  | .set | .dict => "\x7b"

/-- The bracket that closes a comprehension. -/
def closeBracket : CompKind → String
  | .list => "]"
  | .generator => ")"
  | .set | .dict => "\x7d"

theorem bracketPieces_eq (kind : CompKind) (ps : List Piece) :
    Expr.bracketPieces kind ps =
      .op (openBracket kind) :: (ps ++ [.op (closeBracket kind)]) := by
  cases kind <;> rfl

theorem compPieces_eq {kind : CompKind} (hkind : kind ≠ .dict) (e : Expr)
    (element value clauses : List Piece) :
    Expr.compPieces kind e element value clauses = wrapPieces 1 e element ++ clauses := by
  cases kind <;> simp_all [Expr.compPieces]

/-- A comprehension of single elements. -/
theorem atomReads_comp {kind : CompKind} {cs : List Clause} (h : Reads self n)
    (hkind : kind ≠ .dict) (he : e.isPlain = true) (hp : e.Printable) (hne : cs ≠ [])
    (hcs : ∀ c ∈ cs, IsClause c) (hlen : (Expr.comp kind e none cs).pieces.length ≤ n) :
    AtomReads self ctx (.comp kind e none cs) (Expr.comp kind e none cs).pieces := by
  rintro depth ts rest hs hdepth - -
  rw [Expr.pieces, bracketPieces_eq, compPieces_eq hkind] at hs hlen
  simp only [List.length_cons, List.length_append] at hlen
  obtain ⟨t, us, rfl, ht, hs⟩ := hs
  have htkind : t.kind = .op := ht.kind
  have httext : t.text = openBracket kind := ht.text
  have hternary : ctx.inBrackets.ternary = true := rfl
  rw [List.append_assoc] at hs
  obtain ⟨w, ws, p, v, vs, rfl, hw, hpw, hv, hs, hlength, hread⟩ :=
    h.comprehension_element hternary he hp hne (by omega) hs
  simp only [List.length_cons] at hdepth hlength
  have hcomp := h.comprehension hne hcs (by cases kind <;> decide) (by omega) hs
    (show (v :: vs).length < depth by simp only [List.length_cons]; omega) ctx.inBrackets kind
    (t :: w :: ws) e none
  have hspread : p.text ∉ ["*", "yield"] := fun hmem => hpw ((by decide : _ ⊆ nonStarters) hmem)
  have helement : element self ctx.inBrackets (w :: ws) = some (e, v :: vs) := by
    rw [element_eq hw ws hspread, hread]
  have hwhole : whole self ctx.inBrackets (w :: ws) (e, v :: vs) = some (e, v :: vs) :=
    whole_eq hw hspread _
  have hclause : startsClause ctx.inBrackets (v :: vs) = true := by
    simp [startsClause, hv.ahead_word]
  have hfirst : Cursor.ahead ctx.inBrackets (w :: ws) ∉ [")", "]", "\x7d", ",", "**"] :=
    hw.ahead_not_mem ws _ (fun hmem => hpw ((by decide : _ ⊆ nonStarters) hmem)) (by decide)
  simp only [List.mem_cons, List.not_mem_nil, or_false, not_or] at hfirst hspread
  obtain ⟨hstar, hyield⟩ := hspread
  rw [← hw.text] at hstar hyield
  unfold atom
  simp only [ht.next, htkind, httext]
  cases kind with
  | dict => exact absurd rfl hkind
  | list =>
    simp only [closeBracket] at hcomp
    simp only [openBracket]
    unfold bracketed
    simp [ht.advance, hfirst, hw.settle, helement, hclause, hwhole, hcomp]
  | set =>
    simp only [closeBracket] at hcomp
    simp only [openBracket]
    unfold braced
    simp only [ht.advance]
    split
    · exact absurd ‹_› hfirst.2.2.1
    · exact absurd ‹_› hfirst.2.2.2.1
    · exact absurd ‹_› hfirst.2.2.2.2
    · simp [hw.settle, helement, hv.ahead_word, hclause, hwhole, hcomp]
  | generator =>
    simp only [closeBracket] at hcomp
    simp only [openBracket]
    unfold parenthesized
    simp [ht.advance, hfirst, hw.settle, hw.next, hw.continuations, hstar, hyield, helement,
      hv.ahead_word, hwhole, hcomp]

/-- A comprehension of keys and values. -/
theorem atomReads_comp_dict {v : Expr} {cs : List Clause} (h : Reads self n)
    (he : e.isPlain = true) (hp : e.Printable) (hv : v.isPlain = true) (hv' : v.Printable)
    (hne : cs ≠ []) (hcs : ∀ c ∈ cs, IsClause c)
    (hlen : (Expr.comp .dict e (some v) cs).pieces.length ≤ n) :
    AtomReads self ctx (.comp .dict e (some v) cs) (Expr.comp .dict e (some v) cs).pieces := by
  rintro depth ts rest hs hdepth - -
  rw [Expr.pieces, bracketPieces_eq, Expr.compPieces, Expr.piecesOption] at hs hlen
  simp only [List.length_cons, List.length_append, Piece.length_after] at hlen
  obtain ⟨t, us, rfl, ht, hs⟩ := hs
  have htkind : t.kind = .op := ht.kind
  have httext : t.text = "\x7b" := ht.text
  have hternary : ctx.inBrackets.ternary = true := rfl
  rw [List.append_assoc, List.cons_append, List.append_assoc] at hs
  obtain ⟨mid, hks, u, vs, rfl, hu, hs⟩ := spells_append.mp hs
  obtain ⟨xs, hvs, hs⟩ := spells_append.mp hs
  rw [spells_after] at hvs
  have hcolon : Closes [":"] (u :: vs) := ⟨u, vs, _, rfl, hu, .inr rfl, by simp⟩
  have hkey := (h.whole he hp (by omega) (.inl hternary)).closed hks hcolon (by decide)
  obtain ⟨x, xs, rfl, hx⟩ := exists_for hne hs
  have hfor : Closes ["for"] (x :: xs) := ⟨x, xs, _, rfl, hx, .inl rfl, by simp⟩
  have hvalue := (h.whole hv hv' (by omega) (.inl hternary)).closed hvs hfor (by decide)
  have hlen1 := hks.length
  have hlen2 := hvs.length
  simp only [List.length_cons] at hdepth hlen1 hlen2
  have hcomp := h.comprehension hne hcs (by decide : closeBracket .dict ∈ _) (by omega) hs
    (show (x :: xs).length < depth by simp only [List.length_cons]; omega) ctx.inBrackets .dict
    (t :: us) e (some v)
  have hstarts := Expr.starts_wrapPieces (Expr.starts_pieces e he hp) (Nat.le_refl 1) (by decide)
  obtain ⟨w, ws, p, rfl, hw, hpw⟩ := hstarts.first.cases hks
  have hspread : p.text ∉ ["*", "yield"] := fun hmem => hpw ((by decide : _ ⊆ nonStarters) hmem)
  have helement : element self ctx.inBrackets (w :: ws) = some (e, u :: vs) := by
    rw [element_eq hw ws hspread, hkey]
  have hwhole : whole self ctx.inBrackets (w :: ws) (e, u :: vs) = some (e, u :: vs) :=
    whole_eq hw hspread _
  have hclause : startsClause ctx.inBrackets (x :: xs) = true := by
    simp [startsClause, hx.ahead_word]
  have hfirst : Cursor.ahead ctx.inBrackets (w :: ws) ∉ ["\x7d", ",", "**"] :=
    hw.ahead_not_mem ws _ (fun hmem => hpw ((by decide : _ ⊆ nonStarters) hmem)) (by decide)
  simp only [List.mem_cons, List.not_mem_nil, or_false, not_or] at hfirst
  simp only [closeBracket] at hcomp
  unfold atom
  simp only [ht.next, htkind, httext]
  unfold braced
  simp only [ht.advance]
  split
  · exact absurd ‹_› hfirst.1
  · exact absurd ‹_› hfirst.2.1
  · exact absurd ‹_› hfirst.2.2
  · simp [hw.settle, helement, hu.ahead_op, hwhole, expect?_op hu, hvalue, hclause, hcomp]

end Concord.Source
