import Concord.Proofs.Source.Trailer

/-!
# Reading operators

Each operator is read at its own level when its operands are read at theirs. Operators that group to
the left go on from the state in which the loop of their level is after the left operand.
-/

namespace Concord.Source

open Expr (wrapPieces)

variable {self : ExprReader} {ctx : Context} {l r a : Expr} {ps qs : List Piece} {ts rest : Cursor}
  {n : Nat}

/-! ## Signs and powers -/

theorem SignedReads.sign {o : UnaryOp} (ho : sign? o.symbol = some o)
    (ha : SignedReads self ctx a ps) :
    SignedReads self ctx (.unary o a) (.op o.symbol :: ps) := by
  rintro (_ | fuel) ts rest ⟨t, us, rfl, ht, hs⟩ hfuel hstop
  · omega
  · have hkind : t.kind = .op := ht.kind
    have htext : t.text = o.symbol := ht.text
    have hread := ha fuel us rest hs (Nat.lt_of_succ_lt_succ hfuel) hstop
    rw [signed]
    simp [ht.operand?, ht.next, ht.advance, hkind, htext, ho, hread]

/-- A power: what stands on its left is no sign, and what stands on its right may be one. -/
theorem SignedReads.pow {followed : Bool} (hl : PrimaryReads self ctx l followed ps)
    (hstarts : Starts 15 ps) (hr : SignedReads self ctx r qs) :
    SignedReads self ctx (.bin .pow l r) (ps ++ (Piece.op "**").spaced :: Piece.after qs) := by
  intro fuel ts rest hs hfuel hstop
  have hopens : Opens (["-", "+", "~"] ++ ["await"]) ps :=
    (hstarts.sign (Nat.le_refl 15)).join (hstarts.first.mono (by decide))
  obtain ⟨mid, hs, u, vs, rfl, hu, hvs⟩ := spells_append.mp hs
  obtain ⟨t, us, p, rfl, ht, htext⟩ := hopens.cases hs
  rw [List.mem_append, not_or, List.mem_singleton, ← ht.text] at htext
  have hsign : sign? t.text = none := sign?_eq_none htext.1
  have hlen := hs.length
  simp only [List.length_cons] at hlen hfuel
  cases fuel with
  | zero => omega
  | succ fuel =>
    have hleft := hl (us.length + 1 + 1) (t :: us) _ hs (by simp)
      (hu.stops vs ctx (.inr rfl) (by decide))
    have hright := hr fuel vs rest (spells_after.mp hvs) (by omega) hstop
    have hahead : Cursor.ahead ctx (u :: vs) = "**" := hu.ahead_text vs (.inr rfl) ctx
    rw [signed]
    simp [ht.operand?, ht.next, hsign, htext.2, hleft, hahead, hu.advance, hright]

/-! ## Binary operators that group to the left -/

theorem BinaryFeeds.bin {ops : List BinOp} {tighter : List (List BinOp)} {o : BinOp}
    (hl : BinaryFeeds self ctx ops tighter l ps) (hr : BinaryReads self ctx tighter r qs)
    (ho : ops.find? (·.symbol == o.symbol) = some o) (hapart : o.symbol ∉ binaryMarks tighter) :
    BinaryFeeds self ctx ops tighter (.bin o l r)
      (ps ++ (Piece.op o.symbol).spaced :: Piece.after qs) := by
  intro ts rest hs hstop
  obtain ⟨mid, hs, t, us, rfl, ht, hus⟩ := spells_append.mp hs
  obtain ⟨fuel, hfuel, heq⟩ := hl ts _ hs (ht.stops us ctx (.inr rfl) hapart)
  have hright := hr us rest (spells_after.mp hus) hstop
  have hahead : Cursor.ahead ctx (t :: us) = o.symbol := ht.ahead_text us (.inr rfl) ctx
  have hlen := hus.length
  simp only [List.length_cons] at hfuel
  cases fuel with
  | zero => omega
  | succ fuel =>
    refine ⟨fuel, by omega, ?_⟩
    rw [heq, leftChain]
    simp [hahead, ho, ht.advance, hright]

end Concord.Source

namespace Concord.BinOp

/-- The level at which the operator is read. -/
def rank : BinOp → Nat
  | bitAnd => 8
  | bitXor => 9
  | o => o.precedence

end Concord.BinOp

namespace Concord.Source

open Expr (wrapPieces)

variable {self : ExprReader} {ctx : Context} {l r a : Expr} {ps qs : List Piece} {ts rest : Cursor}
  {n : Nat}

theorem ReadsAt.bin {o : BinOp} (ho : o ≠ .pow) (hl : ReadsAt self ctx l ps o.rank)
    (hr : ReadsAt self ctx r qs (o.rank + 1)) :
    ReadsAt self ctx (.bin o l r) (ps ++ (Piece.op o.symbol).spaced :: Piece.after qs) o.rank := by
  cases o with
  | pow => exact absurd rfl ho
  | mul | matMul | div | mod | floorDiv =>
    exact BinaryFeeds.bin hl (SignedReads.binary hr) (by decide) (by decide)
  | bitOr | bitXor | bitAnd | shiftLeft | shiftRight | add | sub =>
    exact BinaryFeeds.bin hl (BinaryFeeds.reads hr) (by decide) (by decide)

/-- The operands of a binary operator bind tightly enough for the reader, or stand in parentheses.
Here it matters that no `&` is an operand of `^`. -/
theorem rank_le_of_precedence {o : BinOp} (ho : o ≠ .pow) (hreg : (Expr.bin o l r).Regular) :
    ((Expr.operandStrengths o).1 ≤ l.precedence → o.rank ≤ l.rank) ∧
      ((Expr.operandStrengths o).2 ≤ r.precedence → o.rank + 1 ≤ r.rank) := by
  obtain ⟨-, -, hxor⟩ := hreg
  have hleft := l.rank_cases
  have hright := r.rank_cases
  cases o with
  | pow => exact absurd rfl ho
  | bitXor =>
    obtain ⟨hl, hr⟩ := hxor rfl
    simp only [hl, hr, Bool.false_eq_true, and_false, false_or] at hleft hright
    constructor
    all_goals
      intro h
      simp only [Expr.operandStrengths, BinOp.precedence, BinOp.rank] at h ⊢
      omega
  | _ =>
    constructor
    all_goals
      intro h
      simp only [Expr.operandStrengths, BinOp.precedence, BinOp.rank] at h ⊢
      omega

/-! ## Comparisons -/

/-- The operator of a link, with what follows it. After `is` no `not` may follow. -/
theorem comparisonAhead_reads (ctx : Context) (o : CmpOp)
    (hs : Spells (Expr.linkPieces o ++ qs) ts rest) (hqs : Opens ["not", "lambda"] qs) :
    ∃ us, comparisonAhead ctx ts = some (o, false, us) ∧ Spells qs us rest ∧
      Stops ctx (binaryMarks binaryLevels) ts := by
  cases o with
  | notSame =>
    obtain ⟨t, us, rfl, ht, u, vs, rfl, hu, hvs⟩ := hs
    have hahead : Cursor.ahead ctx (t :: u :: vs) = "is" := ht.ahead_text _ (.inl rfl) ctx
    have htext : u.text = "not" := hu.text
    refine ⟨vs, ?_, hvs, ht.stops _ ctx (.inl rfl) (by decide)⟩
    unfold comparisonAhead
    simp [hahead, ht.advance, hu.next, hu.advance, htext, hu.solid]
  | notMember =>
    obtain ⟨t, us, rfl, ht, u, vs, rfl, hu, hvs⟩ := hs
    have hahead : Cursor.ahead ctx (t :: u :: vs) = "not" := ht.ahead_text _ (.inl rfl) ctx
    have htext : u.text = "in" := hu.text
    refine ⟨vs, ?_, hvs, ht.stops _ ctx (.inl rfl) (by decide)⟩
    unfold comparisonAhead
    simp [hahead, ht.advance, hu.next, hu.advance, htext, hu.solid]
  | same =>
    obtain ⟨t, us, rfl, ht, hus⟩ := hs
    have hahead : Cursor.ahead ctx (t :: us) = "is" := ht.ahead_text _ (.inl rfl) ctx
    obtain ⟨u, vs, p, rfl, hu, hp⟩ := hqs.cases hus
    have hnot : u.text ≠ "not" := by
      rw [hu.text]
      exact fun he => hp (by simp [he])
    refine ⟨u :: vs, ?_, hus, ht.stops _ ctx (.inl rfl) (by decide)⟩
    unfold comparisonAhead
    simp [hahead, ht.advance, hu.next, hnot]
  | member =>
    obtain ⟨t, us, rfl, ht, hus⟩ := hs
    have hahead : Cursor.ahead ctx (t :: us) = "in" := ht.ahead_text _ (.inl rfl) ctx
    refine ⟨us, ?_, hus, ht.stops _ ctx (.inl rfl) (by decide)⟩
    unfold comparisonAhead
    simp [hahead, ht.advance, comparison?]
  | eq | notEq | lt | ltEq | gt | gtEq =>
    obtain ⟨t, us, rfl, ht, hus⟩ := hs
    have hahead := ht.ahead_text us (.inr rfl) ctx
    refine ⟨us, ?_, hus, ht.stops _ ctx (.inr rfl) (by decide)⟩
    unfold comparisonAhead
    simp [hahead, ht.advance, comparison?, CmpOp.symbol]

/-- The links of a comparison are read one by one. -/
theorem comparisonLinks_reads {links : List (CmpOp × Expr)}
    (hreads : ∀ x ∈ links, BinaryReads self ctx binaryLevels x.2 (wrapPieces 7 x.2 x.2.pieces))
    (hopens : ∀ x ∈ links, Opens ["not", "lambda"] (wrapPieces 7 x.2 x.2.pieces)) :
    ∀ fuel ts rest, Spells (Expr.piecesLinks links) ts rest → ts.length ≤ fuel →
      Stops ctx comparisonMarks rest →
        comparisonLinks ctx (binary self ctx binaryLevels) fuel ts =
            some ((links, false), rest) ∧ Stops ctx (binaryMarks binaryLevels) ts := by
  induction links with
  | nil =>
    rintro fuel ts rest rfl - hstop
    exact ⟨comparisonLinks_nil hstop.ahead fuel, hstop.mono (List.subset_append_right _ _)⟩
  | cons link links ih =>
    obtain ⟨o, e⟩ := link
    intro fuel ts rest hs hfuel hstop
    obtain ⟨hread, hreads⟩ := List.forall_mem_cons.mp hreads
    obtain ⟨hopen, hopens⟩ := List.forall_mem_cons.mp hopens
    rw [Expr.piecesLinks] at hs
    obtain ⟨us, hahead, hus, hstops⟩ :=
      comparisonAhead_reads ctx o hs (hopen.after.append _)
    obtain ⟨mid, hus, hmid⟩ := spells_append.mp hus
    have hlink : 0 < (Expr.linkPieces o).length := by cases o <;> decide
    have hlen := hs.length
    have hlen' := hmid.length
    simp only [List.length_append] at hlen
    cases fuel with
    | zero => omega
    | succ fuel =>
      obtain ⟨hrec, hstops'⟩ := ih hreads hopens fuel mid rest hmid (by omega) hstop
      have hread := hread us mid (spells_after.mp hus) hstops'
      have hclean := (spells_after.mp hus).clean (Expr.wrapPieces_ne_nil 7 e)
      refine ⟨?_, hstops⟩
      rw [comparisonLinks]
      simp [hahead, hread, hrec, hstops.clean.continuations, hclean.continuations]

theorem ComparisonReads.compare {links : List (CmpOp × Expr)}
    (hl : BinaryReads self ctx binaryLevels l ps) (hne : ps ≠ []) (hlinks : links ≠ [])
    (hreads : ∀ x ∈ links, BinaryReads self ctx binaryLevels x.2 (wrapPieces 7 x.2 x.2.pieces))
    (hopens : ∀ x ∈ links, Opens ["not", "lambda"] (wrapPieces 7 x.2 x.2.pieces)) :
    ComparisonReads self ctx (.compare l links) (ps ++ Expr.piecesLinks links) := by
  intro ts rest hs hstop
  obtain ⟨mid, hs, hmid⟩ := spells_append.mp hs
  obtain ⟨hlinks', hstops⟩ :=
    comparisonLinks_reads hreads hopens mid.length mid rest hmid (Nat.le_refl _) hstop
  have hleft := hl ts mid hs hstops
  obtain ⟨t, us, p, rfl, ht⟩ := exists_token hne hs
  unfold comparison
  simp [ht.operand?, hleft, hlinks', hlinks]

/-! ## Negations and short-circuit operators -/

theorem NegationReads.not {marks : List String} (ha : NegationReads self ctx marks a ps) :
    NegationReads self ctx marks (.unary .not a) (.word "not" :: Piece.after ps) := by
  rintro (_ | fuel) ts rest ⟨t, us, rfl, ht, hs⟩ hfuel hstop
  · omega
  · have hkind : t.kind = .word := ht.kind
    have htext : t.text = "not" := ht.text
    have hread := ha fuel us rest (spells_after.mp hs) (Nat.lt_of_succ_lt_succ hfuel) hstop
    rw [negation]
    simp [ht.operand?, ht.next, ht.advance, hkind, htext, hread]

/-- One more operand of a chain of short-circuit operators. -/
theorem logicChain_step {o : BoolOp} {operand : Reader Expr} {fuel : Nat} {t : Token} {us : Cursor}
    (ht : t.Spells (Piece.word o.symbol).spaced) (hr : operand us = some (r, rest)) :
    logicChain ctx o operand (fuel + 1) l (t :: us) =
      logicChain ctx o operand fuel (.logic o l r) rest := by
  have hahead : Cursor.ahead ctx (t :: us) = o.symbol := ht.ahead_text us (.inl rfl) ctx
  rw [logicChain]
  simp [hahead, ht.advance, hr]

theorem ConjunctionFeeds.and (hl : ConjunctionFeeds self ctx negationMarks l ps)
    (hr : NegationReads self ctx negationMarks r qs) :
    ConjunctionFeeds self ctx negationMarks (.logic .and l r)
      (ps ++ (Piece.word "and").spaced :: Piece.after qs) := by
  intro ts rest hs hstop
  obtain ⟨mid, hs, t, us, rfl, ht, hus⟩ := spells_append.mp hs
  obtain ⟨fuel, hfuel, heq⟩ := hl ts _ hs (ht.stops us ctx (.inl rfl) (by decide))
  have hright := hr (us.length + 1) us rest (spells_after.mp hus) (by omega) hstop
  have hlen := hus.length
  simp only [List.length_cons] at hfuel
  cases fuel with
  | zero => omega
  | succ fuel => exact ⟨fuel, by omega, heq.trans (logicChain_step ht hright)⟩

theorem DisjunctionFeeds.or (hl : DisjunctionFeeds self ctx conjunctionMarks l ps)
    (hr : ConjunctionReads self ctx conjunctionMarks r qs) :
    DisjunctionFeeds self ctx conjunctionMarks (.logic .or l r)
      (ps ++ (Piece.word "or").spaced :: Piece.after qs) := by
  intro ts rest hs hstop
  obtain ⟨mid, hs, t, us, rfl, ht, hus⟩ := spells_append.mp hs
  obtain ⟨fuel, hfuel, heq⟩ := hl ts _ hs (ht.stops us ctx (.inl rfl) (by decide))
  have hright := hr us rest (spells_after.mp hus) hstop
  have hlen := hus.length
  simp only [List.length_cons] at hfuel
  cases fuel with
  | zero => omega
  | succ fuel => exact ⟨fuel, by omega, heq.trans (logicChain_step ht hright)⟩

/-! ## Conditional expressions -/

theorem WholeReads.ifExp {t o : Expr} {middle final : List Piece} (hctx : ctx.ternary = true)
    (ha : DisjunctionReads self ctx disjunctionMarks a ps)
    (ht : SelfReads self ctx.unfinished t middle) (hmiddle : middle ≠ [])
    (ho : SelfReads self ctx o final) (hfinal : final ≠ []) :
    WholeReads self ctx (.ifExp t a o) (ps ++ (Piece.word "if").spaced ::
      (Piece.after middle ++ (Piece.word "else").spaced :: Piece.after final)) := by
  intro ts rest hs hstop
  obtain ⟨mid, hs, u, us, rfl, hu, hus⟩ := spells_append.mp hs
  obtain ⟨mid', hus, v, vs, rfl, hv, hvs⟩ := spells_append.mp hus
  have hleft := ha ts _ hs (hu.stops us ctx (.inl rfl) (by decide))
  have hif : Cursor.ahead ctx (u :: us) = "if" := hu.ahead_text us (.inl rfl) ctx
  have hmid := ht us _ (spells_after.mp hus)
    (hv.stops vs ctx.unfinished (.inl rfl) fun hmem =>
      absurd (wholeMarks_subset _ hmem) (by decide))
  have helse : Cursor.ahead ctx.unfinished (v :: vs) = "else" := hv.ahead_text vs (.inl rfl) _
  have hlast := ho vs rest (spells_after.mp hvs) hstop
  have hus' := (spells_after.mp hus).clean hmiddle
  have hvs' := (spells_after.mp hvs).clean hfinal
  unfold conditional aliased
  simp [hleft, hif, hctx, hu.advance, hmid, Cursor.expect?, helse, hv.advance, hlast,
    hu.continuations, hus'.continuations, hv.continuations, hvs'.continuations]

/-! ## Lambdas -/

/-- The pieces of a parameter without an annotation. -/
def plainParamPieces (p : Param) : List Piece :=
  Expr.paramPieces p.name p.kind none (Expr.piecesDefault p.default)

theorem piecesParams_eq_map (params : List Param) :
    Expr.piecesParams (fun _ => none) params = params.map plainParamPieces := by
  induction params with
  | nil => rfl
  | cons p params ih => simp [Expr.piecesParams, plainParamPieces, ih]

/-- A parameter without an annotation, in a lambda or in the head of a function. -/
theorem Reads.parameter {annotated : Bool} {close : String} {bound : Nat} {p : Param}
    (h : Reads self n) (hctx : ctx.ternary = true)
    (hclose : close = ")" ∨ close = ":" ∧ annotated = false) (hp : p.Regular)
    (hnote : p.typeNote = none) (hdefault : ∀ e ∈ p.default, e.Printable)
    (hlen : (plainParamPieces p).length < n) :
    ItemReads (Source.parameter self ctx annotated) bound [",", close] (plainParamPieces p) p := by
  intro ts rest hs hrest _
  have hahead := hrest.ahead_mem ctx
  have hapart : ∀ s ∈ [",", close], s ∉ allMarks := by
    rcases hclose with rfl | ⟨rfl, -⟩ <;> decide
  have hequals : Cursor.ahead ctx rest ≠ "=" := by
    intro he
    rw [he] at hahead
    rcases hclose with rfl | ⟨rfl, -⟩ <;> exact absurd hahead (by decide)
  have htyped : (annotated && Cursor.ahead ctx rest == ":") = false := by
    rcases hclose with rfl | ⟨rfl, rfl⟩
    · have hcolon : Cursor.ahead ctx rest ≠ ":" := fun he => by simp [he] at hahead
      simp [hcolon]
    · rfl
  obtain ⟨name, kind, default, note⟩ := p
  obtain rfl : note = none := hnote
  cases kind with
  | regular =>
    obtain ⟨hname, hplain⟩ := hp
    have hmarks : name ∉ ["*", "**", "/", "("] := hname.not_mem (by decide)
    simp only [List.mem_cons, List.not_mem_nil, or_false, not_or] at hmarks
    cases default with
    | none =>
      obtain ⟨t, rfl, ht⟩ := spells_singleton hs
      have htext : t.text = name := ht.text
      unfold Source.parameter
      simp [ht.next, ht.advance, htext, hmarks, isIdentifier_of_isName ht hname, htyped, hequals]
    | some e =>
      obtain ⟨t, us, rfl, ht, u, vs, rfl, hu, hvs⟩ := hs
      have htext : t.text = name := ht.text
      have hread := (h.whole hplain (hdefault e rfl) (Nat.lt_of_succ_lt (Nat.lt_of_succ_lt hlen))
        (.inl hctx)).closed hvs hrest hapart
      unfold Source.parameter
      simp [ht.next, ht.advance, htext, hmarks, isIdentifier_of_isName ht hname, hu.ahead_op,
        hu.advance, hread]
  | varArgs | kwArgs =>
    obtain ⟨hname, rfl⟩ := hp
    have hmarks : name ∉ [",", ")", ":"] := hname.not_mem (by decide)
    simp only [List.mem_cons, List.not_mem_nil, or_false, not_or] at hmarks
    obtain ⟨t, us, rfl, ht, hus⟩ := hs
    obtain ⟨u, rfl, hu⟩ := spells_singleton hus
    have htext := ht.text
    simp only [Piece.text_op] at htext
    have hutext : u.text = name := hu.text
    unfold Source.parameter
    simpa [ht.next, ht.advance, htext, hu.next, hutext, hmarks, identifier_reads hu hname]
      using htyped
  | keywordOnly =>
    obtain ⟨rfl, rfl, -⟩ := hp
    obtain ⟨t, rfl, ht⟩ := spells_singleton hs
    have htext : t.text = "*" := ht.text
    obtain ⟨u, us, q, rfl, hu, -, hq⟩ := hrest
    have hfollowing : u.text = "," ∨ u.text = ")" ∨ u.text = ":" := by
      rw [hu.text]
      rcases hclose with rfl | ⟨rfl, -⟩ <;> simp at hq <;> rcases hq with hq | hq <;> simp [hq]
    unfold Source.parameter
    simp [ht.next, ht.advance, htext, hu.next, hfollowing, or_assoc]
  | positionalOnly =>
    obtain ⟨rfl, rfl, -⟩ := hp
    obtain ⟨t, rfl, ht⟩ := spells_singleton hs
    have htext : t.text = "/" := ht.text
    have hkind : t.kind = .op := ht.kind
    unfold Source.parameter
    simp [ht.next, ht.advance, htext, hkind]

theorem opens_plainParamPieces {p : Param} (hp : p.Regular) :
    Opens [")", ":", ","] (plainParamPieces p) := by
  obtain ⟨name, kind, default, note⟩ := p
  cases kind with
  | regular => exact hp.1.not_mem (by decide)
  | varArgs | kwArgs | keywordOnly | positionalOnly =>
    simp [plainParamPieces, Expr.paramPieces, Opens]

theorem Reads.parameters {annotated : Bool} {close : String} {bound : Nat} {params : List Param}
    (h : Reads self n) (hctx : ctx.ternary = true)
    (hclose : close = ")" ∨ close = ":" ∧ annotated = false)
    (hps : ∀ p ∈ params, p.Regular ∧ p.typeNote = none)
    (hdefaults : ∀ p ∈ params, ∀ e ∈ p.default, e.Printable)
    (hlen : ∀ part ∈ params.map plainParamPieces, part.length < n) :
    List.Forall₂ (ItemReads (Source.parameter self ctx annotated) bound [",", close])
      (params.map plainParamPieces) params := by
  induction params with
  | nil => exact .nil
  | cons p params ih =>
    obtain ⟨hp, hps⟩ := List.forall_mem_cons.mp hps
    obtain ⟨hdefault, hdefaults⟩ := List.forall_mem_cons.mp hdefaults
    obtain ⟨hlen, hlens⟩ := List.forall_mem_cons.mp hlen
    exact .cons (h.parameter hctx hclose hp.1 hp.2 hdefault hlen) (ih hps hdefaults hlens)

theorem NegationReads.lambda {params : List Param} {body : List Piece} (h : Reads self n)
    (hps : ∀ p ∈ params, p.Regular ∧ p.typeNote = none)
    (hdefaults : ∀ p ∈ params, ∀ e ∈ p.default, e.Printable)
    (hlen : (Piece.commas (params.map plainParamPieces)).length < n)
    (ha : SelfReads self ctx a body) :
    NegationReads self ctx (wholeMarks ctx) (.lambda params a)
      (.word "lambda" :: (Piece.after (Piece.commas (params.map plainParamPieces)) ++
        .op ":" :: Piece.after body)) := by
  rintro (_ | fuel) ts rest ⟨t, us, rfl, ht, hs⟩ hfuel hstop
  · omega
  have hkind : t.kind = .word := ht.kind
  have htext : t.text = "lambda" := ht.text
  have hternary : ctx.unfinished.ternary = true := rfl
  obtain ⟨mid, hs, u, vs, rfl, hu, hvs⟩ := spells_append.mp hs
  have hbody := ha vs rest (spells_after.mp hvs) hstop
  have hinside : Spells (Piece.commas (params.map plainParamPieces) ++ [.op ":"]) us vs :=
    spells_append.mpr ⟨u :: vs, spells_after.mp hs, u, vs, rfl, hu, rfl⟩
  have hopens : ∀ part ∈ params.map plainParamPieces, Opens [":"] part := by
    intro part hpart
    obtain ⟨p, hp, rfl⟩ := List.mem_map.mp hpart
    exact (opens_plainParamPieces (hps p hp).1).mono (by decide)
  rw [negation]
  simp only [ht.operand?, ht.next, ht.advance, hkind, htext, Option.bind_eq_bind, Option.bind_some]
  simp only [beq_self_eq_true, Bool.true_and, show ("lambda" == "not") = false from rfl]
  simp only [Bool.false_eq_true, if_false, if_true]
  unfold lambdaExpr
  cases params with
  | nil =>
    obtain ⟨v, rfl, hv⟩ := spells_singleton hinside
    simp [ht.advance, hv.ahead_op, hv.advance, hbody]
  | cons p params =>
    have hreads : List.Forall₂
        (ItemReads (parameter self ctx.unfinished false) us.length [",", ":"])
        ((p :: params).map plainParamPieces) (p :: params) :=
      h.parameters hternary (.inr ⟨rfl, rfl⟩) hps hdefaults (length_lt_of_mem hlen)
    have hcolon : Cursor.ahead ctx.unfinished us ≠ ":" := by
      have hopen := hopens (plainParamPieces p) List.mem_cons_self
      have hfirst := (opens_commas_cons hopen _ _).ahead hinside (by decide) ctx.unfinished
      exact fun he => hfirst (List.mem_singleton.mpr he)
    have hitems := fun extra => bracketItems_reads (by decide) (by decide) extra hreads hopens
      ((t :: us).length + 1) [] us vs hinside (by simp only [List.length_cons]; omega)
        (Nat.le_refl _)
    simp only [ht.advance, beq_iff_eq, hcolon, if_false, hitems]
    simp [hbody]

end Concord.Source

/-!
## Reading back expressions

The text of a printable expression is read as that expression. The proof goes by induction on the
number of pieces: every level of the reader is right about the expressions of its own rank when the
reader of whole expressions is right about everything with fewer pieces.
-/

namespace Concord.Expr

/-- Whether the expression is a display or a comprehension. -/
def isDisplay : Expr → Bool
  | .list _ | .tuple _ | .set _ | .dict _ | .comp _ _ _ _ => true
  | _ => false

end Concord.Expr

namespace Concord.Source

open Expr (wrapPieces operandStrengths)

variable {self : ExprReader} {ctx : Context} {e : Expr} {n : Nat}

/-! ### One construct -/

/-- A name, an attribute or a subscript, with the flag that tells whether something follows the
atom. -/
theorem Reads.simple_le (h : Reads self n) (hsimple : e.isSimpleTarget = true) (hp : e.Printable)
    (hlen : e.pieces.length ≤ n) : PrimaryFeeds self ctx e e.isFollowed e.pieces := by
  match e, hsimple with
  | .name s, _ => exact (atomReads_name hp.regular).primary (by simp)
  | .attribute a m, _ =>
    obtain ⟨⟨ha, hm⟩, hp⟩ := Expr.printable_attribute.mp hp
    rw [Expr.pieces_attribute] at hlen ⊢
    simp only [List.length_append, List.length_cons] at hlen
    obtain ⟨followed, howner⟩ := h.owner ha hp (by omega)
    exact howner.attribute hm
  | .subscript a i, _ =>
    obtain ⟨⟨ha, hi⟩, hp, hpi⟩ := Expr.printable_subscript.mp hp
    rw [Expr.pieces_subscript] at hlen ⊢
    simp only [List.length_append, List.length_cons] at hlen
    obtain ⟨followed, hread⟩ := h.primary ha hp (by omega)
    exact hread.subscript h hi hpi (by omega)

theorem Reads.call_le {f : Expr} {args : List Arg} (h : Reads self n)
    (hp : (Expr.call f args).Printable) (hlen : (Expr.call f args).pieces.length ≤ n) :
    PrimaryFeeds self ctx (.call f args) true (Expr.call f args).pieces := by
  obtain ⟨⟨hf, hargs⟩, hpf, hpargs⟩ := Expr.printable_call.mp hp
  rw [Expr.pieces_call] at hlen ⊢
  simp only [List.length_append, List.length_cons] at hlen
  obtain ⟨followed, hread⟩ := h.primary hf hpf (by omega)
  exact hread.call h hargs hpargs (by omega)

/-- Displays and comprehensions. -/
theorem Reads.display_le (h : Reads self n) (hplain : e.isPlain = true) (hp : e.Printable)
    (hlen : e.pieces.length ≤ n) (hshape : e.isDisplay = true) :
    AtomReads self ctx e e.pieces := by
  match e, hshape with
  | .list items, _ =>
    obtain ⟨hitems, hps⟩ := Expr.printable_list.mp hp
    rw [Expr.pieces] at hlen
    simp only [List.length_append, List.length_cons] at hlen
    exact atomReads_list h (fun i hi => ⟨hitems i hi, hps i hi⟩) (by omega)
  | .tuple items, _ =>
    obtain ⟨hitems, hps⟩ := Expr.printable_tuple.mp hp
    have hslice : ∀ i ∈ items, (!i.isSlice) = true := List.all_eq_true.mp hplain
    rw [Expr.pieces] at hlen
    simp only [List.length_append, List.length_cons] at hlen
    refine atomReads_tuple h (fun i hi => ⟨(hitems i hi).resolve_right ?_, hps i hi⟩) (by omega)
    simpa using hslice i hi
  | .set [], _ => exact absurd rfl (Expr.printable_set.mp hp).1.1
  | .set (i :: is), _ =>
    obtain ⟨⟨hne, hitems⟩, hps⟩ := Expr.printable_set.mp hp
    rw [Expr.pieces] at hlen
    simp only [List.length_append, List.length_cons] at hlen
    exact atomReads_set h hne (fun j hj => ⟨hitems j hj, hps j hj⟩) (by rw [Expr.piecesList]; omega)
  | .dict entries, _ =>
    obtain ⟨hentries, hps⟩ := Expr.printable_dict.mp hp
    rw [Expr.pieces] at hlen
    simp only [List.length_append, List.length_cons] at hlen
    exact atomReads_dict h hentries hps (by omega)
  | .comp kind a v cs, _ =>
    obtain ⟨⟨ha, hv, hkind, hne, hcs⟩, hpa, hpv, hpcs⟩ := Expr.printable_comp.mp hp
    have hclauses : ∀ c ∈ cs, IsClause c := fun c hc => ⟨hcs c hc, hpcs c hc⟩
    cases v with
    | none =>
      have hkind : kind ≠ .dict := by
        rintro rfl
        simp at hkind
      exact atomReads_comp h hkind ha hpa hne hclauses hlen
    | some v =>
      obtain rfl : kind = .dict := by simpa using hkind.symm
      exact atomReads_comp_dict h ha hpa hv (hpv v rfl) hne hclauses hlen

theorem Reads.bin_le {o : BinOp} {l r : Expr} (h : Reads self n) (hp : (Expr.bin o l r).Printable)
    (hlen : (Expr.bin o l r).pieces.length ≤ n) :
    ReadsAt self ctx (.bin o l r) (Expr.bin o l r).pieces (Expr.bin o l r).rank := by
  obtain ⟨hreg, hpl, hpr⟩ := Expr.printable_bin.mp hp
  rw [Expr.pieces] at hlen ⊢
  simp only [List.length_append, List.length_cons, Piece.length_after] at hlen
  have hlenl : (wrapPieces (operandStrengths o).1 l l.pieces).length < n := by omega
  have hlenr : (wrapPieces (operandStrengths o).2 r r.pieces).length < n := by omega
  by_cases ho : o = .pow
  · subst ho
    have hleft : ReadsAt self ctx l (wrapPieces 15 l l.pieces) 15 :=
      h.operand hreg.1 hpl hlenl (fun hmin => Expr.le_rank hmin (by decide)) (.inr (by decide))
    have hright : ReadsAt self ctx r (wrapPieces 13 r r.pieces) 13 :=
      h.operand hreg.2.1 hpr hlenr (fun hmin => Expr.le_rank hmin (by decide)) (.inr (by decide))
    obtain ⟨followed, hleft⟩ := hleft
    have hstarts := Expr.starts_wrapPieces (Expr.starts_pieces l hreg.1 hpl) (Nat.le_refl 15)
      (by decide)
    exact SignedReads.pow hleft.reads hstarts hright
  · have hrank : (Expr.bin o l r).rank = o.rank := by cases o <;> rfl
    have hthree : 3 ≤ o.rank := by cases o <;> decide
    obtain ⟨hl, hr⟩ := rank_le_of_precedence ho hreg
    rw [hrank]
    exact ReadsAt.bin ho (h.operand hreg.1 hpl hlenl hl (.inr hthree))
      (h.operand hreg.2.1 hpr hlenr hr (.inr (by omega)))

theorem Reads.unary_le {o : UnaryOp} {a : Expr} (h : Reads self n)
    (hp : (Expr.unary o a).Printable) (hlen : (Expr.unary o a).pieces.length ≤ n) :
    ReadsAt self ctx (.unary o a) (Expr.unary o a).pieces (Expr.unary o a).rank := by
  obtain ⟨ha, hpa⟩ := Expr.printable_unary.mp hp
  have hoperand (k : Nat) (hk : k ≤ 8 ∨ 10 ≤ k) (h3 : 3 ≤ k)
      (hlen : (wrapPieces k a a.pieces).length < n) :
      ReadsAt self ctx a (wrapPieces k a a.pieces) k :=
    h.operand ha hpa hlen (fun hmin => Expr.le_rank hmin hk) (.inr h3)
  cases o with
  | not =>
    rw [Expr.pieces] at hlen ⊢
    simp only [List.length_cons, Piece.length_after] at hlen
    exact NegationReads.not (hoperand 5 (by decide) (by decide) (by omega))
  | neg | pos | invert =>
    have hlen' : (wrapPieces 13 a a.pieces).length < n := hlen
    exact SignedReads.sign rfl (hoperand 13 (by decide) (by decide) hlen')

theorem Reads.logic_le {o : BoolOp} {l r : Expr} (h : Reads self n)
    (hp : (Expr.logic o l r).Printable) (hlen : (Expr.logic o l r).pieces.length ≤ n) :
    ReadsAt self ctx (.logic o l r) (Expr.logic o l r).pieces (Expr.logic o l r).rank := by
  obtain ⟨⟨hl, hr⟩, hpl, hpr⟩ := Expr.printable_logic.mp hp
  rw [Expr.pieces] at hlen ⊢
  simp only [List.length_append, List.length_cons, Piece.length_after] at hlen
  have hbounds : 3 ≤ o.precedence ∧ o.precedence ≤ 4 := by cases o <;> decide
  have hleft : ReadsAt self ctx l (wrapPieces o.precedence l l.pieces) o.precedence :=
    h.operand hl hpl (by omega) (fun hmin => Expr.le_rank hmin (by omega)) (.inr hbounds.1)
  have hright : ReadsAt self ctx r (wrapPieces (o.precedence + 1) r r.pieces) (o.precedence + 1) :=
    h.operand hr hpr (by omega) (fun hmin => Expr.le_rank hmin (by omega)) (.inr (by omega))
  cases o with
  | and => exact ConjunctionFeeds.and hleft hright
  | or =>
    exact DisjunctionFeeds.or hleft
      (ConjunctionFeeds.reads hright (List.subset_cons_self _ _) (by simp [conjunctionMarks]))

theorem length_lt_piecesLinks {links : List (CmpOp × Expr)} {x : CmpOp × Expr} (hx : x ∈ links) :
    (wrapPieces 7 x.2 x.2.pieces).length < (Expr.piecesLinks links).length := by
  induction links with
  | nil => simp at hx
  | cons y links ih =>
    obtain ⟨o, a⟩ := y
    have hlink : 0 < (Expr.linkPieces o).length := by cases o <;> decide
    rw [Expr.piecesLinks]
    simp only [List.length_append, Piece.length_after]
    rcases List.mem_cons.mp hx with rfl | hx
    · simp only
      omega
    · have := ih hx
      omega

theorem Reads.compare_le {l : Expr} {links : List (CmpOp × Expr)} (h : Reads self n)
    (hp : (Expr.compare l links).Printable) (hlen : (Expr.compare l links).pieces.length ≤ n) :
    ComparisonReads self ctx (.compare l links) (Expr.compare l links).pieces := by
  obtain ⟨⟨hl, hne, hlinks⟩, hpl, hplinks⟩ := Expr.printable_compare.mp hp
  obtain ⟨x, hx⟩ := List.exists_mem_of_ne_nil _ hne
  have hpos := length_lt_piecesLinks hx
  rw [Expr.pieces] at hlen ⊢
  simp only [List.length_append] at hlen
  have hoperand {a : Expr} (ha : a.isPlain = true) (hpa : a.Printable)
      (hlen : (wrapPieces 7 a a.pieces).length < n) :
      BinaryReads self ctx binaryLevels a (wrapPieces 7 a a.pieces) := by
    have hread : ReadsAt self ctx a (wrapPieces 7 a a.pieces) 7 :=
      h.operand ha hpa hlen (fun hmin => Expr.le_rank hmin (by decide)) (.inr (by decide))
    exact BinaryFeeds.reads hread
  refine ComparisonReads.compare (hoperand hl hpl (by omega)) (Expr.wrapPieces_ne_nil 7 l) hne
    (fun y hy => ?_) (fun y hy => ?_)
  · have := length_lt_piecesLinks hy
    exact hoperand (hlinks y hy) (hplinks y hy) (by omega)
  · exact (Expr.starts_wrapPieces (Expr.starts_pieces y.2 (hlinks y hy) (hplinks y hy))
      (Nat.le_refl 7) (by decide)).word (by decide)

theorem Reads.ifExp_le {t a b : Expr} (h : Reads self n) (hctx : ctx.ternary = true)
    (hp : (Expr.ifExp t a b).Printable) (hlen : (Expr.ifExp t a b).pieces.length ≤ n) :
    WholeReads self ctx (.ifExp t a b) (Expr.ifExp t a b).pieces := by
  obtain ⟨⟨ht, ha, hb⟩, hpt, hpa, hpb⟩ := Expr.printable_ifExp.mp hp
  rw [Expr.pieces] at hlen ⊢
  simp only [List.length_append, List.length_cons, Piece.length_after] at hlen
  have hleft : ReadsAt self ctx a (wrapPieces 3 a a.pieces) 3 :=
    h.operand ha hpa (by omega) (fun hmin => Expr.le_rank hmin (by decide)) (.inr (by decide))
  exact WholeReads.ifExp hctx
    (DisjunctionFeeds.reads hleft (List.subset_cons_self _ _) (by simp [disjunctionMarks]))
    (h.whole ht hpt (by omega) (.inr (by decide))) (Expr.wrapPieces_ne_nil 3 t)
    (h.whole hb hpb (by omega) (.inl hctx)) (Expr.wrapPieces_ne_nil 2 b)

theorem Reads.lambda_le {ps : List Param} {b : Expr} (h : Reads self n) (hctx : ctx.ternary = true)
    (hp : (Expr.lambda ps b).Printable) (hlen : (Expr.lambda ps b).pieces.length ≤ n) :
    WholeReads self ctx (.lambda ps b) (Expr.lambda ps b).pieces := by
  obtain ⟨⟨hb, hps⟩, hdefaults, hpb⟩ := Expr.printable_lambda.mp hp
  rw [Expr.pieces, piecesParams_eq_map] at hlen ⊢
  simp only [List.length_append, List.length_cons, Piece.length_after] at hlen
  have hbody : SelfReads self ctx b (wrapPieces 1 b b.pieces) :=
    h.whole hb hpb (by omega) (.inl hctx)
  have hread := NegationReads.lambda h hps hdefaults (by omega) hbody
  have hand : "and" ∈ wholeMarks ctx :=
    disjunctionMarks_subset ctx (by simp [disjunctionMarks, conjunctionMarks])
  have hconj := ConjunctionFeeds.reads hread.feeds (List.Subset.refl _) hand
  exact (DisjunctionFeeds.reads hconj.feeds (List.Subset.refl _) (or_mem_wholeMarks ctx)).whole

/-! ### All constructs -/

/-- Expressions of at most `n` pieces are read at the level of their rank. -/
theorem Reads.level_le (h : Reads self n) (hplain : e.isPlain = true) (hp : e.Printable)
    (hlen : e.pieces.length ≤ n) (hctx : ctx.ternary = true ∨ 3 ≤ e.rank) :
    ReadsAt self ctx e e.pieces e.rank := by
  match e with
  | .name _ | .attribute _ _ | .subscript _ _ => exact ⟨_, h.simple_le rfl hp hlen⟩
  | .call _ _ => exact ⟨_, h.call_le hp hlen⟩
  | .list _ | .tuple _ | .set _ | .dict _ | .comp _ _ _ _ =>
    exact ⟨false, (h.display_le hplain hp hlen rfl).primary (Expr.pieces_ne_nil _)⟩
  | .int v =>
    have hread : ReadsAt self ctx (.int v) (Expr.int v).pieces 17 :=
      ⟨false, (atomReads_int hp.regular.1 hp.regular.2).primary (by simp)⟩
    have hrank : (Expr.int v).rank ≤ 17 := show (if v < 0 then 13 else 17) ≤ 17 by split <;> omega
    exact hread.mono (starts_of_literal (hasLiteralChar_toString hp.regular.1) 17) hrank
  | .float x =>
    have hread : ReadsAt self ctx (.float x) (Expr.float x).pieces 17 :=
      ⟨false, (atomReads_float hp.regular).primary (by simp)⟩
    have hrank : (Expr.float x).rank ≤ 17 :=
      show (if x < 0 then 13 else 17) ≤ 17 by split <;> omega
    exact hread.mono (starts_of_literal (hasLiteralChar_writeFloat hp.regular) 17) hrank
  | .str lit =>
    exact ⟨false, (atomReads_str fun hraw => (hp.regular hraw).1).primary (by simp)⟩
  | .bool true | .bool false | .none =>
    exact ⟨false, (atomReads_constant rfl).primary (by simp)⟩
  | .bin _ _ _ => exact h.bin_le hp hlen
  | .unary _ _ => exact h.unary_le hp hlen
  | .logic _ _ _ => exact h.logic_le hp hlen
  | .compare _ _ => exact h.compare_le hp hlen
  | .ifExp _ _ _ => exact h.ifExp_le (hctx.resolve_right (show ¬3 ≤ 2 by decide)) hp hlen
  | .lambda _ _ => exact h.lambda_le (hctx.resolve_right (show ¬3 ≤ 1 by decide)) hp hlen
  | .slice _ _ _ | .starred _ | .verbatim _ => simp [Expr.isPlain] at hplain

/-- Expressions of at most `n` pieces are read as wholes one level deeper. -/
theorem Reads.whole_le {min : Nat} (h : Reads self n) (hplain : e.isPlain = true)
    (hp : e.Printable) (hlen : (wrapPieces min e e.pieces).length ≤ n)
    (hctx : ctx.ternary = true ∨ 3 ≤ min) : WholeReads self ctx e (wrapPieces min e e.pieces) := by
  obtain ⟨hle, hwrap⟩ := length_wrapPieces min e
  have hread : ReadsAt self ctx e (wrapPieces min e e.pieces) 0 := by
    refine ReadsAt.wrap hplain hp (fun hlt => h.parens hplain hp ?_) (fun hmin => ?_)
      (fun _ => Nat.zero_le _)
    · have := hwrap hlt
      omega
    · refine h.level_le hplain hp (by omega) (hctx.imp_right fun h3 => ?_)
      exact Expr.le_rank (Nat.le_trans h3 hmin) (by decide)
  exact hread

/-- The reader of whole expressions is right about everything with fewer pieces than levels of
nesting it allows. -/
theorem reads_expression : ∀ {n depth : Nat}, n ≤ depth → Reads (expression depth) n
  | 0, _, _ => ⟨fun _ _ hlen => absurd hlen (by omega), fun _ _ hlen => absurd hlen (by omega),
      fun _ _ hlen => absurd hlen (by omega)⟩
  | n + 1, 0, hn => absurd hn (by omega)
  | n + 1, depth + 1, hn => by
    have hself : Reads (expression (depth + 1)) n := reads_expression (by omega)
    have hinner : Reads (expression depth) n := reads_expression (by omega)
    refine ⟨fun hplain hp hlen hctx => ?_, fun hplain hp hlen hctx => ?_, fun hs hp hlen => ?_⟩
    · intro ts rest hs hstop
      exact hinner.whole_le hplain hp (by omega) hctx ts rest hs hstop
    · exact hself.level_le hplain hp (by omega) hctx
    · exact hself.simple_le hs hp (by omega)

end Concord.Source
