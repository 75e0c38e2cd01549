import Concord.Proofs.Source.Target

/-!
# Reading calls, attributes and subscripts

What follows an atom is read in one loop, so each of the three goes on from the state in which the
loop is after its first part.
-/

namespace Concord.Source

open Expr (wrapPieces)

variable {self : ExprReader} {ctx : Context} {e : Expr} {ps : List Piece} {ts rest : Cursor}
  {n bound : Nat}

/-! ## Operands -/

/-- An expression in parentheses. -/
theorem Reads.parens (h : Reads self n) (he : e.isPlain = true) (hp : e.Printable)
    (hlen : e.pieces.length < n) :
    PrimaryFeeds self ctx e false (.op "(" :: (e.pieces ++ [.op ")"])) := by
  have hpieces : wrapPieces 0 e e.pieces = e.pieces := Expr.wrapPieces_of_le (Nat.zero_le _) _
  have hinside : SelfReads self ctx.inBrackets e (wrapPieces 0 e e.pieces) :=
    h.whole he hp (by rw [hpieces]; exact hlen) (.inl rfl)
  rw [hpieces] at hinside
  exact (atomReads_parens hinside (Expr.starts_pieces e he hp).first).primary (by simp)

/-- With parentheses around it where it needs them, an expression is read at every level that its
binding strength allows. -/
theorem ReadsAt.wrap {min k : Nat} (he : e.isPlain = true) (hp : e.Printable)
    (hparens : e.precedence < min →
      PrimaryFeeds self ctx e false (.op "(" :: (e.pieces ++ [.op ")"])))
    (hlevel : min ≤ e.precedence → ReadsAt self ctx e e.pieces e.rank)
    (hk : min ≤ e.precedence → k ≤ e.rank) : ReadsAt self ctx e (wrapPieces min e e.pieces) k := by
  have hstarts := Expr.starts_pieces e he hp
  by_cases hwrap : e.precedence < min
  · rw [wrapPieces, if_pos hwrap]
    have hopens : Opens Expr.equalsSigns (e.pieces ++ [Piece.op ")"]) :=
      (hstarts.first.mono (by decide)).append _
    have hread : ReadsAt self ctx e (Piece.op "(" :: (e.pieces ++ [Piece.op ")"])) (k + 15) :=
      ⟨false, hparens hwrap⟩
    exact hread.mono (Expr.starts_bracket _ (by decide) hopens) (by omega)
  · have hmin : min ≤ e.precedence := by omega
    rw [Expr.wrapPieces_of_le hmin]
    exact (hlevel hmin).mono hstarts (hk hmin)

theorem length_wrapPieces (min : Nat) (e : Expr) :
    e.pieces.length ≤ (wrapPieces min e e.pieces).length ∧
      (e.precedence < min → e.pieces.length + 2 = (wrapPieces min e e.pieces).length) := by
  by_cases h : e.precedence < min
  · have heq : (wrapPieces min e e.pieces).length = e.pieces.length + 2 := by simp [wrapPieces, h]
    exact ⟨by omega, fun _ => heq.symm⟩
  · simp [wrapPieces, h]

/-- An operand of an operator. -/
theorem Reads.operand {min k : Nat} (h : Reads self n) (he : e.isPlain = true) (hp : e.Printable)
    (hlen : (wrapPieces min e e.pieces).length < n) (hk : min ≤ e.precedence → k ≤ e.rank)
    (hctx : ctx.ternary = true ∨ 3 ≤ k) : ReadsAt self ctx e (wrapPieces min e e.pieces) k := by
  obtain ⟨hle, -⟩ := length_wrapPieces min e
  refine ReadsAt.wrap he hp (fun _ => h.parens he hp (by omega)) (fun hmin => ?_) hk
  exact h.level he hp (by omega) (hctx.imp_right fun h3 => Nat.le_trans h3 (hk hmin))

/-- What a call, an attribute or a subscript is taken of. -/
theorem Reads.primary (h : Reads self n) (he : e.isPlain = true) (hp : e.Printable)
    (hlen : (wrapPieces 16 e e.pieces).length < n) :
    ∃ followed, PrimaryFeeds self ctx e followed (wrapPieces 16 e e.pieces) := by
  have hread : ReadsAt self ctx e (wrapPieces 16 e e.pieces) 16 :=
    h.operand he hp hlen (fun hmin => Expr.le_rank hmin (by decide)) (.inr (by decide))
  exact hread

/-! ## Attributes -/

theorem identifier_reads {t : Token} {m : String} (ht : t.Spells (Piece.word m)) (hm : IsName m)
    (us : Cursor) : identifier ctx (t :: us) = some (m, us) := by
  have htext : t.text = m := ht.text
  unfold identifier
  simp [ht.operand?, ht.next, ht.advance, isIdentifier_of_isName ht hm, htext]

theorem PrimaryFeeds.attribute {followed : Bool} {m : String} {a : Expr}
    (h : PrimaryFeeds self ctx a followed ps) (hm : IsName m) :
    PrimaryFeeds self ctx (.attribute a m) true (ps ++ [.op ".", .word m]) := by
  intro depth ts rest hs hdepth hclean hstring
  obtain ⟨mid, hs, t, us, rfl, ht, hus⟩ := spells_append.mp hs
  obtain ⟨u, rfl, hu⟩ := spells_singleton hus
  have hmid : NoString ctx (t :: u :: rest) := (ht.stops _ ctx (.inr rfl) (by decide : _ ∉ [])).noString
  obtain ⟨depth', fuel, hdepth', hfuel, heq⟩ := h depth ts _ hs hdepth (ht.clean _) hmid
  simp only [List.length_cons] at hdepth' hfuel
  cases fuel with
  | zero => omega
  | succ fuel =>
    refine ⟨depth', fuel, by omega, by omega, ?_⟩
    rw [heq, trailers]
    simp [ht.ahead_op, ht.advance, identifier_reads hu hm]

theorem Reads.owner {a : Expr} (h : Reads self n) (ha : a.isPlain = true) (hp : a.Printable)
    (hlen : (Expr.ownerPieces a).length < n) :
    ∃ followed, PrimaryFeeds self ctx a followed (Expr.ownerPieces a) := by
  unfold Expr.ownerPieces at hlen ⊢
  split at hlen
  · rename_i v
    have hv : ¬v < 0 := by
      have := hp.regular.1
      omega
    have hmin : 16 ≤ (Expr.int v).precedence := by simp [Expr.precedence, hv]
    rw [Expr.wrapPieces_of_le hmin] at hlen ⊢
    exact ⟨false, h.parens ha hp (Nat.lt_of_succ_lt (Nat.lt_of_succ_lt hlen))⟩
  · exact h.primary ha hp hlen

/-! ## Arguments -/

/-- An argument of a call. -/
theorem Reads.argument_positional {closers : List String} (h : Reads self n)
    (hctx : ctx.ternary = true) (he : e.isPlain = true) (hp : e.Printable)
    (hlen : (wrapPieces 1 e e.pieces).length < n) (hapart : ∀ s ∈ closers, s ∉ "=" :: allMarks) :
    ItemReads (argument self ctx) bound closers (wrapPieces 1 e e.pieces) (.positional e) := by
  intro ts rest hs hclose _
  have hread := (h.whole he hp hlen (.inl hctx)).closed hs hclose
    fun s hs hmem => hapart s hs (List.mem_cons_of_mem _ hmem)
  have hstarts := Expr.starts_wrapPieces (Expr.starts_pieces e he hp) (Nat.le_refl 1) (by decide)
  have hrest : Cursor.ahead ctx rest ≠ "=" := by
    have hstop : Stops ctx ["="] rest := hclose.stops ctx fun s hs hmem =>
      hapart s hs (by simp [List.mem_singleton.mp hmem])
    exact fun he => hstop.ahead (List.mem_singleton.mpr he)
  obtain ⟨t, us, p, rfl, ht, hpt⟩ := hstarts.first.cases hs
  have hequals : Cursor.ahead ctx us ≠ "=" :=
    hstarts.second.ahead_ne hs (by simp) (by decide) hrest hstarts.ne_nil
  have hstar : t.text ≠ "*" := by
    rw [ht.text]
    exact fun he => hpt (by rw [he]; decide)
  have hstars : t.text ≠ "**" := by
    rw [ht.text]
    exact fun he => hpt (by rw [he]; decide)
  unfold argument
  simp [ht.next, ht.advance, hstar, hstars, hequals, hread]

theorem Reads.argument_keyword {closers : List String} {m : String} (h : Reads self n)
    (hctx : ctx.ternary = true) (hm : IsName m) (he : e.isPlain = true) (hp : e.Printable)
    (hlen : (wrapPieces 1 e e.pieces).length < n) (hapart : ∀ s ∈ closers, s ∉ allMarks) :
    ItemReads (argument self ctx) bound closers (.word m :: .op "=" :: wrapPieces 1 e e.pieces)
      (.keyword m e) := by
  rintro ts rest ⟨t, us, rfl, ht, u, vs, rfl, hu, hs⟩ hclose -
  have hread := (h.whole he hp hlen (.inl hctx)).closed hs hclose hapart
  have htext : t.text = m := ht.text
  have hstar : m ∉ ["*", "**"] := hm.not_mem (by decide)
  simp only [List.mem_cons, List.not_mem_nil, or_false, not_or] at hstar
  unfold argument
  simp [ht.next, ht.advance, htext, hstar, isIdentifier_of_isName ht hm, hu.ahead_op, hu.advance,
    hread]

/-- An argument that an asterisk or two spread. -/
theorem Reads.argument_spread {closers : List String} (h : Reads self n) (hctx : ctx.ternary = true)
    (he : e.isPlain = true) (hp : e.Printable) (hlen : (wrapPieces 16 e e.pieces).length < n)
    (hapart : ∀ s ∈ closers, s ∉ allMarks) :
    ItemReads (argument self ctx) bound closers (.op "*" :: wrapPieces 16 e e.pieces) (.star e) ∧
      ItemReads (argument self ctx) bound closers (.op "**" :: wrapPieces 16 e e.pieces)
        (.doubleStar e) := by
  constructor
  all_goals
    rintro ts rest ⟨t, us, rfl, ht, hs⟩ hclose -
    have hread := (h.whole he hp hlen (.inl hctx)).closed hs hclose hapart
    have hclean := hs.clean (Expr.wrapPieces_ne_nil 16 e)
    have htext := ht.text
    simp only [Piece.text_op] at htext
    unfold argument
    simp [ht.next, ht.advance, htext, hread, hclean.continuations]

/-- The pieces of one argument. -/
def argPieces : Arg → List Piece
  | .positional e => wrapPieces 1 e e.pieces
  | .keyword m e => .word m :: .op "=" :: wrapPieces 1 e e.pieces
  | .star e => .op "*" :: wrapPieces 16 e e.pieces
  | .doubleStar e => .op "**" :: wrapPieces 16 e e.pieces

theorem piecesArgs_eq_map (as : List Arg) : Expr.piecesArgs as = as.map argPieces := by
  induction as with
  | nil => rfl
  | cons a as ih => cases a <;> simp [Expr.piecesArgs, argPieces, ih]

theorem Reads.argument {a : Arg} (h : Reads self n) (hctx : ctx.ternary = true) (ha : a.Regular)
    (hp : a.value.Printable) (hlen : (argPieces a).length < n) :
    ItemReads (Source.argument self ctx) bound [",", ")"] (argPieces a) a := by
  cases a with
  | positional e => exact h.argument_positional hctx ha.1 hp hlen (by decide)
  | keyword m e =>
    exact h.argument_keyword hctx ha.2 ha.1 hp (Nat.lt_of_succ_lt (Nat.lt_of_succ_lt hlen))
      (by decide)
  | star e => exact (h.argument_spread hctx ha.1 hp (Nat.lt_of_succ_lt hlen) (by decide)).1
  | doubleStar e => exact (h.argument_spread hctx ha.1 hp (Nat.lt_of_succ_lt hlen) (by decide)).2

theorem opens_argPieces {a : Arg} (ha : a.Regular) (hp : a.value.Printable) :
    Opens [")", ","] (argPieces a) := by
  cases a with
  | positional e =>
    exact (Expr.starts_wrapPieces (Expr.starts_pieces e ha.1 hp) (Nat.le_refl 1)
      (by decide)).first.mono (by decide)
  | keyword m e => exact opens_cons (ha.2.not_mem (by decide)) _
  | star e | doubleStar e => exact opens_cons (by decide) _

theorem Reads.argumentItems {as : List Arg} (h : Reads self n) (hctx : ctx.ternary = true)
    (has : ∀ a ∈ as, a.Regular) (hp : ∀ a ∈ as, a.value.Printable)
    (hlen : ∀ part ∈ as.map argPieces, part.length < n) :
    List.Forall₂ (ItemReads (Source.argument self ctx) bound [",", ")"]) (as.map argPieces) as := by
  induction as with
  | nil => exact .nil
  | cons a as ih =>
    obtain ⟨ha, has⟩ := List.forall_mem_cons.mp has
    obtain ⟨hp, hps⟩ := List.forall_mem_cons.mp hp
    obtain ⟨hlen, hlens⟩ := List.forall_mem_cons.mp hlen
    exact .cons (h.argument hctx ha hp hlen) (ih has hps hlens)

/-- Arguments in a row. -/
theorem Reads.arguments_commas {as : List Arg} {depth : Nat} {t : Token} {us : Cursor}
    (h : Reads self n) (has : ∀ a ∈ as, a.Regular) (hp : ∀ a ∈ as, a.value.Printable)
    (hlen : (Piece.commas (Expr.piecesArgs as)).length < n) (ht : t.Spells (Piece.op "("))
    (hs : Spells (Piece.commas (Expr.piecesArgs as) ++ [Piece.op ")"]) us rest) :
    arguments self ctx (Source.primary self depth) (t :: us) = some (as, rest) := by
  rw [piecesArgs_eq_map] at hlen hs
  have hternary : ctx.inBrackets.ternary = true := rfl
  have hreads : List.Forall₂ (ItemReads (Source.argument self ctx.inBrackets) us.length [",", ")"])
      (as.map argPieces) as := h.argumentItems hternary has hp (length_lt_of_mem hlen)
  unfold arguments
  cases as with
  | nil =>
    obtain ⟨u, rfl, hu⟩ := spells_singleton hs
    simp [ht.advance, hu.ahead_op, hu.continuations, hu.advance]
  | cons a as =>
    rw [List.map_cons] at hs hreads
    obtain ⟨ha, has⟩ := List.forall_mem_cons.mp has
    obtain ⟨hp, hps⟩ := List.forall_mem_cons.mp hp
    have hopen := opens_argPieces ha hp
    have hopens : ∀ part ∈ as.map argPieces, Opens [")"] part := by
      intro part hpart
      obtain ⟨b, hb, rfl⟩ := List.mem_map.mp hpart
      exact (opens_argPieces (has b hb) (hps b hb)).mono (by decide)
    cases hreads with
    | cons hitem hreads =>
      have hfirst := (opens_commas_cons hopen _ _).ahead hs (by decide) ctx.inBrackets
      simp only [List.mem_cons, List.not_mem_nil, or_false, not_or] at hfirst
      obtain ⟨v, vs, p, rfl, hv, -⟩ := (opens_commas_cons hopen _ _).cases hs
      obtain ⟨mid, hpart, hmid, hcases⟩ := display_first (some .positional) (by decide) (by decide)
        hreads hopens hs (Nat.le_refl _)
      have hread := hitem _ _ hpart hmid (Nat.le_refl _)
      have hmid := hmid.clean
      simp only [ht.advance]
      split
      · exact absurd ‹_› hfirst.1
      · exact absurd ‹_› hfirst.2
      · rcases hcases with ⟨rfl, hahead, hadvance⟩ | ⟨hahead, hmore⟩
        · have hclause := startsClause_eq_false (hahead ctx.inBrackets) (by decide)
          cases a <;> simp [hv.settle, hv.continuations, hread, hclause, hahead, hadvance,
            hmid.continuations]
        · have hclause := startsClause_eq_false (hahead ctx.inBrackets) (by decide)
          cases a <;> simp [hv.settle, hv.continuations, hread, hclause, hahead, hmore,
            hmid.continuations]

/-- A generator that stands alone between the parentheses of a call. -/
theorem Reads.arguments_generator {cs : List Clause} {depth : Nat} {t : Token} {us : Cursor}
    (h : Reads self n) (he : e.isPlain = true) (hp : e.Printable) (hne : cs ≠ [])
    (hcs : ∀ c ∈ cs, IsClause c) (ht : t.Spells (Piece.op "("))
    (hlen : (wrapPieces 1 e e.pieces ++ Expr.piecesClauses cs).length < n)
    (hs : Spells (wrapPieces 1 e e.pieces ++ Expr.piecesClauses cs ++ [Piece.op ")"]) us rest)
    (hdepth : us.length < depth) :
    arguments self ctx (Source.primary self depth) (t :: us) =
      some ([.positional (.comp .generator e none cs)], rest) := by
  have hternary : ctx.inBrackets.ternary = true := rfl
  rw [List.length_append] at hlen
  rw [List.append_assoc] at hs
  have hargument : ∀ mid, Spells (wrapPieces 1 e e.pieces) us mid → Closes ["for"] mid →
      Source.argument self ctx.inBrackets us = some (.positional e, mid) := fun mid hmid hclose =>
    h.argument_positional hternary he hp (by omega) (by decide) us mid hmid hclose (Nat.le_refl _)
  obtain ⟨mid, hpart, hclauses⟩ := spells_append.mp hs
  obtain ⟨v, vs, rfl, hv⟩ := exists_for hne hclauses
  have hlength := hpart.length
  have hread := hargument _ hpart ⟨v, vs, _, rfl, hv, .inl rfl, by simp⟩
  have hcomp := h.comprehension hne hcs (by decide) (by omega) hclauses
    (show (v :: vs).length < depth by omega) ctx.inBrackets .generator (t :: us) e none
  have hstarts := Expr.starts_wrapPieces (Expr.starts_pieces e he hp) (Nat.le_refl 1) (by decide)
  obtain ⟨w, ws, p, rfl, hw, hpw⟩ := hstarts.first.cases hpart
  have hspread : p.text ∉ ["*", "yield"] := fun hmem => hpw ((by decide : _ ⊆ nonStarters) hmem)
  have hwhole : Source.whole self ctx.inBrackets (w :: ws) (e, v :: vs) = some (e, v :: vs) :=
    whole_eq hw hspread _
  have hclause : startsClause ctx.inBrackets (v :: vs) = true := by
    simp [startsClause, hv.ahead_word]
  have hfirst : Cursor.ahead ctx.inBrackets (w :: ws) ∉ [")", ","] :=
    hw.ahead_not_mem ws _ (fun hmem => hpw ((by decide : _ ⊆ nonStarters) hmem)) (by decide)
  simp only [List.mem_cons, List.not_mem_nil, or_false, not_or] at hfirst
  unfold arguments
  simp only [ht.advance]
  split
  · exact absurd ‹_› hfirst.1
  · exact absurd ‹_› hfirst.2
  · simp [hw.settle, hread, hclause, hwhole, hcomp]

/-- What may stand between the parentheses of a call. -/
theorem Reads.arguments {args : List Arg} {depth : Nat} {t : Token} {us : Cursor} (h : Reads self n)
    (hargs : ∀ a ∈ args, a.Regular) (hp : ∀ a ∈ args, a.value.Printable)
    (hlen : (Expr.argumentPieces args).length < n) (ht : t.Spells (Piece.op "("))
    (hs : Spells (Expr.argumentPieces args ++ [Piece.op ")"]) us rest) (hdepth : us.length < depth) :
    Source.arguments self ctx (Source.primary self depth) (t :: us) = some (args, rest) := by
  generalize hpieces : Expr.argumentPieces args = qs at hlen hs
  unfold Expr.argumentPieces at hpieces
  split at hpieces
  · rename_i e v cs
    subst hpieces
    have hcomp := hp _ (List.mem_singleton.mpr rfl)
    obtain ⟨⟨he, -, hv, hne, hcs⟩, he', -, hcs'⟩ := Expr.printable_comp.mp hcomp
    obtain rfl : v = none := by
      cases v with
      | none => rfl
      | some v => simp at hv
    have hkind : CompKind.generator ≠ .dict := by decide
    rw [compPieces_eq hkind] at hlen hs
    exact h.arguments_generator he he' hne (fun c hc => ⟨hcs c hc, hcs' c hc⟩) ht hlen hs hdepth
  · subst hpieces
    exact h.arguments_commas hargs hp hlen ht hs

theorem PrimaryFeeds.call {followed : Bool} {f : Expr} {args : List Arg}
    (hf : PrimaryFeeds self ctx f followed ps) (h : Reads self n)
    (hargs : ∀ a ∈ args, a.Regular) (hp : ∀ a ∈ args, a.value.Printable)
    (hlen : (Expr.argumentPieces args).length < n) :
    PrimaryFeeds self ctx (.call f args) true
      (ps ++ .op "(" :: (Expr.argumentPieces args ++ [.op ")"])) := by
  intro depth ts rest hs hdepth hclean hstring
  obtain ⟨mid, hs, t, us, rfl, ht, hus⟩ := spells_append.mp hs
  have hmid : NoString ctx (t :: us) := (ht.stops _ ctx (.inr rfl) (by decide : _ ∉ [])).noString
  obtain ⟨depth', fuel, hdepth', hfuel, heq⟩ := hf depth ts _ hs hdepth (ht.clean _) hmid
  have hlength := hus.length
  simp only [List.length_cons, List.length_append] at hdepth' hfuel hlength
  have hread : Source.arguments self ctx (Source.primary self depth') (t :: us) = some (args, rest) :=
    h.arguments hargs hp hlen ht hus (by omega)
  cases fuel with
  | zero => omega
  | succ fuel =>
    refine ⟨depth', fuel, by omega, by omega, ?_⟩
    rw [heq, trailers]
    simp [ht.ahead_op, ht.skip, hread]

/-! ## Subscripts -/

/-- An expression is read as an index. -/
theorem Reads.index_plain (h : Reads self n) (hctx : ctx.ternary = true) (he : e.isPlain = true)
    (hp : e.Printable) (hlen : (wrapPieces 1 e e.pieces).length < n) :
    ItemReads (index self ctx) bound [",", "]"] (wrapPieces 1 e e.pieces) e := by
  intro ts rest hs hclose _
  have hread := (h.whole he hp hlen (.inl hctx)).closed hs hclose (by decide)
  have hstarts := Expr.starts_wrapPieces (Expr.starts_pieces e he hp) (Nat.le_refl 1) (by decide)
  have hfirst : Cursor.ahead ctx ts ∉ [":"] := (hstarts.first.mono (by decide)).ahead hs (by decide) ctx
  have hstop : Stops ctx [":"] rest := hclose.stops ctx (by decide)
  have hrest := hstop.ahead
  rw [List.mem_singleton] at hfirst hrest
  unfold index
  simp [hfirst, hread, hrest]

/-- The marks between the parts of an index. -/
def indexMarks : List String := [":", "]", ","]

/-- An optional part of a slice, which a mark follows. -/
theorem Reads.slicePart {o : Option Expr} (h : Reads self n) (hctx : ctx.ternary = true)
    (ho : o.all (·.isPlain) = true) (hp : ∀ e ∈ o, e.Printable)
    (hlen : (Expr.piecesOption 2 o).length < n) (hs : Spells (Expr.piecesOption 2 o) ts rest)
    (hclose : Closes indexMarks rest) :
    (o = none ∧ ts = rest) ∨ ∃ e, o = some e ∧ self ctx ts = some (e, rest) ∧
      Cursor.ahead ctx ts ∉ indexMarks := by
  cases o with
  | none => exact .inl ⟨rfl, hs⟩
  | some e =>
    have he : e.isPlain = true := ho
    have hp := hp e rfl
    have hstarts := Expr.starts_wrapPieces (Expr.starts_pieces e he hp) (Nat.le_refl 2) (by decide)
    exact .inr ⟨e, rfl, (h.whole he hp hlen (.inl hctx)).closed hs hclose (by decide),
      (hstarts.first.mono (by decide)).ahead hs (by decide) ctx⟩

/-- The upper bound and the step of a slice. -/
theorem Reads.sliceUpper {o : Option Expr} (h : Reads self n) (hctx : ctx.ternary = true)
    (ho : o.all (·.isPlain) = true) (hp : ∀ e ∈ o, e.Printable)
    (hlen : (Expr.piecesOption 2 o).length < n) (hs : Spells (Expr.piecesOption 2 o) ts rest)
    (hclose : Closes indexMarks rest) :
    (if (Cursor.ahead ctx ts = ":" ∨ Cursor.ahead ctx ts = "]") ∨ Cursor.ahead ctx ts = "," then
      some (none, ts) else (self ctx ts).map fun x => (some x.1, x.2)) = some (o, rest) := by
  obtain ⟨rfl, rfl⟩ | ⟨e, rfl, hread, hmarks⟩ := h.slicePart hctx ho hp hlen hs hclose
  · have hahead := hclose.ahead_mem ctx
    simp only [indexMarks, List.mem_cons, List.not_mem_nil, or_false] at hahead
    rw [if_pos (or_assoc.mpr hahead)]
  · simp only [indexMarks, List.mem_cons, List.not_mem_nil, or_false, ← or_assoc] at hmarks
    rw [if_neg hmarks, hread]
    rfl

/-- A slice is read as an index. -/
theorem Reads.index_slice {a b c : Option Expr} (h : Reads self n) (hctx : ctx.ternary = true)
    (hp : (Expr.slice a b c).Printable) (hlen : (Expr.slice a b c).pieces.length < n) :
    ItemReads (index self ctx) bound [",", "]"] (Expr.slice a b c).pieces (.slice a b c) := by
  intro ts rest hs hclose _
  obtain ⟨⟨ha, hb, hc⟩, hpa, hpb, hpc⟩ := Expr.printable_slice.mp hp
  have hend : Closes indexMarks rest := hclose.mono (by decide)
  cases c with
  | none =>
    have hstop : Stops ctx [":"] rest := hclose.stops ctx (by decide)
    have hrest : Cursor.ahead ctx rest ≠ ":" := fun he => hstop.ahead (List.mem_singleton.mpr he)
    rw [Expr.pieces] at hs hlen
    simp only [List.length_append, List.length_cons] at hlen
    obtain ⟨mid, hsa, u, us, rfl, hu, hsb⟩ := spells_append.mp hs
    have hcolon : Closes indexMarks (u :: us) := ⟨u, us, _, rfl, hu, .inr rfl, by simp [indexMarks]⟩
    have hupper := h.sliceUpper hctx hb hpb (by omega) hsb hend
    obtain ⟨rfl, rfl⟩ | ⟨a, rfl, hread, hmarks⟩ := h.slicePart hctx ha hpa (by omega) hsa hcolon
    · simp [index, hu.ahead_op, hu.advance, hu.continuations, hupper, hrest]
    · have hne : Cursor.ahead ctx ts ≠ ":" := fun he => hmarks (by simp [he, indexMarks])
      simp [index, hne, hread, hu.ahead_op, hu.advance, hu.continuations, hupper, hrest]
  | some c =>
    rw [Expr.pieces] at hs hlen
    simp only [List.length_append, List.length_cons] at hlen
    obtain ⟨mid, hsa, u, us, rfl, hu, hs⟩ := spells_append.mp hs
    obtain ⟨mid, hsb, v, vs, rfl, hv, hsc⟩ := spells_append.mp hs
    have hcolon : Closes indexMarks (u :: us) := ⟨u, us, _, rfl, hu, .inr rfl, by simp [indexMarks]⟩
    have hcolon' : Closes indexMarks (v :: vs) := ⟨v, vs, _, rfl, hv, .inr rfl, by simp [indexMarks]⟩
    have hupper := h.sliceUpper hctx hb hpb (by omega) hsb hcolon'
    have hlen' : (Expr.piecesOption 2 (some c)).length < n := by
      rw [Expr.piecesOption]
      omega
    have hstep := h.sliceUpper hctx hc hpc hlen' hsc hend
    obtain ⟨rfl, rfl⟩ | ⟨a, rfl, hread, hmarks⟩ := h.slicePart hctx ha hpa (by omega) hsa hcolon
    · simp [index, hu.ahead_op, hu.advance, hu.continuations, hupper, hv.ahead_op, hv.advance,
        hv.continuations, hstep]
    · have hne : Cursor.ahead ctx ts ≠ ":" := fun he => hmarks (by simp [he, indexMarks])
      simp [index, hne, hread, hu.ahead_op, hu.advance, hu.continuations, hupper, hv.ahead_op,
        hv.advance, hv.continuations, hstep]

theorem isIndex_cases {i : Expr} (h : i.isIndex = true) :
    i.isPlain = true ∨ ∃ a b c, i = .slice a b c := by
  rw [Expr.isIndex, Bool.or_eq_true] at h
  rcases h with h | h
  · exact .inl h
  · cases i <;> simp_all [Expr.isSlice]

theorem Reads.indexItem {i : Expr} (h : Reads self n) (hctx : ctx.ternary = true)
    (hi : i.isIndex = true) (hp : i.Printable) (hlen : (wrapPieces 1 i i.pieces).length < n) :
    ItemReads (index self ctx) bound [",", "]"] (wrapPieces 1 i i.pieces) i := by
  obtain hplain | ⟨a, b, c, rfl⟩ := isIndex_cases hi
  · exact h.index_plain hctx hplain hp hlen
  · exact h.index_slice hctx hp hlen

/-- No index starts with the closing bracket. -/
theorem opens_index {i : Expr} (hi : i.isIndex = true) (hp : i.Printable) :
    Opens ["]"] (wrapPieces 1 i i.pieces) := by
  obtain hplain | ⟨a, b, c, rfl⟩ := isIndex_cases hi
  · exact (Expr.starts_wrapPieces (Expr.starts_pieces i hplain hp) (Nat.le_refl 1)
      (by decide)).first.mono (by decide)
  · obtain ⟨⟨ha, -⟩, hpa, -⟩ := Expr.printable_slice.mp hp
    cases a with
    | none => cases c <;> exact opens_cons (by decide) _
    | some a =>
      have hstarts := Expr.starts_wrapPieces (Expr.starts_pieces a ha (hpa a rfl)) (Nat.le_refl 2)
        (by decide)
      have hopens : Opens ["]"] (wrapPieces 2 a a.pieces) := hstarts.first.mono (by decide)
      cases c <;> exact hopens.append _

theorem opens_indices {is : List Expr} (his : ∀ i ∈ is, i.isIndex = true ∧ i.Printable) :
    ∀ part ∈ Expr.piecesList is, Opens ["]"] part := by
  induction is with
  | nil => simp [Expr.piecesList]
  | cons i is ih =>
    obtain ⟨hi, his⟩ := List.forall_mem_cons.mp his
    rw [Expr.piecesList, List.forall_mem_cons]
    exact ⟨opens_index hi.1 hi.2, ih his⟩

theorem Reads.indices {is : List Expr} (h : Reads self n) (hctx : ctx.ternary = true)
    (his : ∀ i ∈ is, i.isIndex = true ∧ i.Printable)
    (hlen : ∀ part ∈ Expr.piecesList is, part.length < n) :
    List.Forall₂ (ItemReads (index self ctx) bound [",", "]"]) (Expr.piecesList is) is := by
  induction is with
  | nil => exact .nil
  | cons i is ih =>
    rw [Expr.piecesList] at hlen ⊢
    obtain ⟨hi, his⟩ := List.forall_mem_cons.mp his
    obtain ⟨hlen, hlens⟩ := List.forall_mem_cons.mp hlen
    exact .cons (h.indexItem hctx hi.1 hi.2 hlen) (ih his hlens)

/-- Several indices make a tuple; one index stands for itself. -/
theorem isSubscript_cases {i : Expr} (h : i.isSubscript = true) :
    ∃ is, is ≠ [] ∧ (∀ j ∈ is, j.isIndex = true ∧ (i.Printable → j.Printable)) ∧
      Expr.indexPieces i = Piece.commas (Expr.piecesList is) ∧
        (match is with
          | [e] => e
          | es => .tuple es) = i := by
  by_cases htuple : ∃ j js, i = .tuple (j :: js)
  · obtain ⟨j, js, rfl⟩ := htuple
    cases js with
    | nil => simp [Expr.isSubscript] at h
    | cons k ks =>
      have hindex : ∀ x ∈ j :: k :: ks, x.isIndex = true := List.all_eq_true.mp h
      exact ⟨j :: k :: ks, by simp,
        fun x hx => ⟨hindex x hx, fun hp => (Expr.printable_tuple.mp hp).2 x hx⟩, rfl, rfl⟩
  · have hindex : i.isIndex = true := by
      unfold Expr.isSubscript at h
      split at h
      · rfl
      · exact absurd ⟨_, _, rfl⟩ htuple
      · rename_i items hne _
        cases items with
        | nil => exact absurd rfl hne
        | cons j js => exact absurd ⟨j, js, rfl⟩ htuple
      · exact h
    refine ⟨[i], by simp, by simp [hindex], ?_, rfl⟩
    unfold Expr.indexPieces
    split
    · exact absurd ⟨_, _, rfl⟩ htuple
    · rfl

theorem PrimaryFeeds.subscript {followed : Bool} {a i : Expr}
    (ha : PrimaryFeeds self ctx a followed ps) (h : Reads self n) (hi : i.isSubscript = true)
    (hp : i.Printable) (hlen : (Expr.indexPieces i).length < n) :
    PrimaryFeeds self ctx (.subscript a i) true
      (ps ++ .op "[" :: (Expr.indexPieces i ++ [.op "]"])) := by
  intro depth ts rest hs hdepth hclean hstring
  obtain ⟨is, hne, his, hpieces, hindex⟩ := isSubscript_cases hi
  rw [hpieces] at hs hlen
  obtain ⟨mid, hs, t, us, rfl, ht, hus⟩ := spells_append.mp hs
  have hmid : NoString ctx (t :: us) := (ht.stops _ ctx (.inr rfl) (by decide : _ ∉ [])).noString
  obtain ⟨depth', fuel, hdepth', hfuel, heq⟩ := ha depth ts _ hs hdepth (ht.clean _) hmid
  have hlength := hus.length
  simp only [List.length_cons, List.length_append] at hdepth' hfuel hlength
  have his : ∀ j ∈ is, j.isIndex = true ∧ j.Printable := fun j hj =>
    ⟨(his j hj).1, (his j hj).2 hp⟩
  have hternary : ctx.inBrackets.ternary = true := rfl
  have hreads : List.Forall₂ (ItemReads (index self ctx.inBrackets) us.length [",", "]"])
      (Expr.piecesList is) is := h.indices hternary his (length_lt_of_mem hlen)
  have hopens := opens_indices his
  have hitems := bracketItems_reads (by decide) (by decide) none hreads hopens (us.length + 1 + 1) []
    us rest hus (by omega) (Nat.le_refl _)
  cases is with
  | nil => exact absurd rfl hne
  | cons j js =>
    have hopen := hopens _ List.mem_cons_self
    have hfirst := (opens_commas_cons hopen _ _).ahead hus (by decide) ctx.inBrackets
    obtain ⟨v, vs, p, rfl, hv, -⟩ := (opens_commas_cons hopen _ _).cases hus
    rw [List.mem_singleton] at hfirst
    cases fuel with
    | zero => omega
    | succ fuel =>
      refine ⟨depth', fuel, by omega, by omega, ?_⟩
      simp only [List.length_cons] at hitems
      rw [heq, trailers]
      simp [ht.ahead_op, ht.advance, hv.operand?, hfirst, hitems]
      exact congrArg (fun i => trailers self ctx (primary self depth') fuel (.subscript a i) true rest)
        hindex

end Concord.Source
