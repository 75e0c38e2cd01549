import Concord.Proofs.Source.Composed
import Concord.Proofs.Source.Operator
import Concord.Source.Statement
import Concord.Tree.Equality

/-!
# Returned expressions

A composed expression is read back from the text of a function that returns it. The text splits into
the tokens of two lines (`tokenize_returned`), and the readers of blocks, functions, lines and
statements are followed down to the expression, where `reads_expression` takes over.
-/

namespace Concord

namespace Source

/-! ## Reading the line -/

variable {e : Expr} {ts us : Cursor} {ret last : Token}

/-- The last token of a text. -/
structure Token.IsEnd (t : Token) : Prop where
  kind : t.kind = .finish
  line : t.line = some 0

/-- The first token of a line, a keyword. -/
structure Token.Leads (t : Token) (word : String) (indent : Nat) : Prop where
  kind : t.kind = .word
  text : t.text = word
  line : t.line = some indent
  holes : t.holes = []

namespace Token

variable {t : Token}

theorem IsEnd.isTrivia (h : t.IsEnd) : t.isTrivia = false := by
  simp [Token.isTrivia, h.kind]

theorem IsEnd.next (h : t.IsEnd) : Cursor.next [t] = t := by
  simp [Cursor.next, Cursor.skip, h.isTrivia]

theorem Leads.isTrivia {word : String} {indent : Nat} (h : t.Leads word indent) :
    t.isTrivia = false := by
  simp [Token.isTrivia, h.kind]

/-- The first token of a line is like one in the middle of it once the line break is settled. -/
theorem Leads.settle {word : String} {indent : Nat} (h : t.Leads word indent) (us : Cursor) :
    ∃ u, Cursor.settle (t :: us) = u :: us ∧ u.Spells (Piece.word word) := by
  have hskip : Cursor.skip (t :: us) = t :: us := by simp [Cursor.skip, h.isTrivia]
  obtain ⟨kind, text, gap, column, line, index, holes⟩ := t
  refine ⟨.mk kind text gap column none index holes, ?_, h.kind, h.text, rfl, h.holes, h.isTrivia⟩
  unfold Cursor.settle
  rw [hskip]

end Token

/-- The end of the text ends an expression at the end of a line. -/
theorem ahead_end {ctx : Context} (h : last.IsEnd) (hbreaks : ctx.breaks = .ends) :
    Cursor.ahead ctx [last] = "" := by
  simp [Cursor.ahead, h.next, hbreaks, h.line]

theorem stops_end {ctx : Context} (h : last.IsEnd) (hbreaks : ctx.breaks = .ends) :
    Stops ctx (wholeMarks ctx) [last] := by
  refine ⟨⟨last, [], rfl, h.isTrivia⟩, ?_, ?_⟩
  · simp [NoString, h.next, h.kind]
  · rw [ahead_end h hbreaks]
    have hmarks : "" ∉ allMarks := by decide
    exact fun hmem => hmarks (wholeMarks_subset ctx hmem)

theorem expressions_returned {depth : Nat} (indent : Nat) (h : e.Composed)
    (hdepth : e.pieces.length < depth) (hs : Spells e.pieces ts [last]) (hlast : last.IsEnd) :
    expressions (expression depth) { indent, breaks := .ends } ts = some (e, [last]) := by
  let ctx : Context := { indent, breaks := .ends }
  have hwrap : Expr.wrapPieces 0 e e.pieces = e.pieces := Expr.wrapPieces_of_le (Nat.zero_le _) _
  have hread : SelfReads (expression depth) ctx e (Expr.wrapPieces 0 e e.pieces) :=
    (reads_expression (Nat.le_refl depth)).whole h.isPlain h.printable (by rwa [hwrap]) (.inl rfl)
  rw [hwrap] at hread
  have hitem := hread ts [last] hs (stops_end hlast rfl)
  have hcomma : Cursor.ahead ctx [last] ≠ "," := by
    rw [ahead_end hlast rfl]
    decide
  unfold expressions
  rw [commaItems_one hitem hcomma]
  rfl

/-- An expression starts with a token that ends no statement. -/
theorem statementEnds_expression (h : e.Composed) (hs : Spells e.pieces ts us) :
    statementEnds ts = false := by
  have hfirst : Expr.Composed.IsFirst (Piece.firstChar ' ' e.pieces) := h.isFirst_pieces
  have htight := Expr.tight_pieces e
  cases hps : e.pieces with
  | nil => exact absurd hps (Expr.pieces_ne_nil e)
  | cons p ps =>
    rw [hps] at hs hfirst htight
    obtain ⟨t, vs, rfl, ht, -⟩ := hs
    have hgap : p.gap = false := htight
    have htext : p.text ≠ ";" := by
      intro htext
      rw [Piece.firstChar, hgap, htext] at hfirst
      exact absurd hfirst (by decide)
    simp [statementEnds, ht.next, ht.line, ht.text, htext]

theorem keywordStmt_return {depth : Nat} (indent : Nat) (h : e.Composed)
    (hdepth : e.pieces.length < depth) (hret : ret.Spells (Piece.word "return"))
    (hs : Spells e.pieces ts [last]) (hlast : last.IsEnd) :
    keywordStmt (expression depth) { indent, breaks := .ends } "return" (ret :: ts) =
      some (.ret (some e), [last]) := by
  obtain ⟨t, us, p, rfl, ht⟩ := exists_token (Expr.pieces_ne_nil e) hs
  have hover : lineIsOver (t :: us) = false := statementEnds_expression h hs
  have hread := expressions_returned indent h hdepth hs hlast
  unfold keywordStmt
  simp [hret.advance, hover, hread, ht.continuations]

theorem simpleStmts_return {depth : Nat} (indent fuel : Nat) (h : e.Composed)
    (hdepth : e.pieces.length < depth) (hret : ret.Spells (Piece.word "return"))
    (hs : Spells e.pieces ts [last]) (hlast : last.IsEnd) :
    simpleStmts (expression depth) indent (fuel + 1) (ret :: ts) =
      some ([.ret (some e)], [last]) := by
  have hends : statementEnds [last] = true := by simp [statementEnds, hlast.next, hlast.line]
  have hrest : lineRest [last] = [last] := by simp [lineRest, hlast.isTrivia]
  have hsimple : simpleStmt (expression depth) { indent, breaks := .ends } (ret :: ts) =
      some (.ret (some e), [last]) := by
    have hword : ret.kind = .word := hret.kind
    have htext : ret.text = "return" := hret.text
    have hkeyword : keywords.contains "return" = true := by decide
    have hread := keywordStmt_return indent h hdepth hret hs hlast
    unfold simpleStmt
    simp only [hret.next, hword, htext, hkeyword, bne_self_eq_false, Bool.false_eq_true, if_false,
      if_true, hread, complete?, Option.filter, hends]
  unfold simpleStmts
  simp [hsimple, hlast.next, hlast.line, hrest]

theorem statement_return {depth : Nat} (block : BlockReader) {indent : Nat} (h : e.Composed)
    (hdepth : e.pieces.length < depth) (hret : ret.Leads "return" indent)
    (hs : Spells e.pieces ts [last]) (hlast : last.IsEnd) :
    statement (expression depth) block indent (ret :: ts) = some ([.ret (some e)], [last]) := by
  obtain ⟨u, hsettle, hu⟩ := hret.settle ts
  have hkind : u.kind = .word := hu.kind
  have htext : u.text = "return" := hu.text
  have hread := simpleStmts_return indent (ts.length + 1) h hdepth hu hs hlast
  unfold statement
  simp [hsettle, hu.next, hkind, htext, hread]

theorem blockFrom_end {depth : Nat} (block : BlockReader) (indent fuel : Nat) (hlast : last.IsEnd) :
    blockFrom (expression depth) block indent (fuel + 1) [last] = some ([], [last]) := by
  unfold blockFrom
  simp [hlast.next, hlast.isTrivia, hlast.kind]

/-- The block that holds nothing but the line. -/
theorem blockFrom_returned {depth : Nat} (block : BlockReader) {indent fuel : Nat} (h : e.Composed)
    (hdepth : e.pieces.length < depth) (hret : ret.Leads "return" indent)
    (hs : Spells e.pieces ts [last]) (hlast : last.IsEnd) :
    blockFrom (expression depth) block indent (fuel + 2) (ret :: ts) =
      some ([.ret (some e)], [last]) := by
  have hnext : Cursor.next (ret :: ts) = ret := by simp [Cursor.next, Cursor.skip, hret.isTrivia]
  have hread := statement_return block h hdepth hret hs hlast
  unfold blockFrom
  simp [hnext, hret.line, hret.kind, hret.isTrivia, hread, blockFrom_end block indent fuel hlast]

/-- The head of the function, behind its keyword. -/
def headPieces : List Piece := [(Piece.word "f").spaced, .op "(", .op ")", .op ":"]

/-- The function that returns an expression. -/
def returning (e : Expr) : Function :=
  { name := "f", params := [], body := [.ret (some e)] }

variable {define : Token}

/-- A function without parameters whose body is the line. -/
theorem function_returned {depth levels indent inner : Nat} (h : e.Composed)
    (hdepth : e.pieces.length < depth) (hdefine : define.Spells (Piece.word "def"))
    (hhead : Spells headPieces us (ret :: ts)) (hret : ret.Leads "return" inner)
    (hinner : indent < inner) (hs : Spells e.pieces ts [last]) (hlast : last.IsEnd) :
    function (expression depth) (blockOf (expression depth) (levels + 1)) indent [] false
      (define :: us) = some (returning e, [last]) := by
  obtain ⟨f, _, rfl, hf, lp, _, rfl, hlp, rp, _, rfl, hrp, colon, _, rfl, hcolon, rfl⟩ := hhead
  have hname : f.isIdentifier = true := by
    rw [Token.isIdentifier, hf.kind, hf.text]
    decide
  have hftext : f.text = "f" := hf.text
  have hparams (extra : Option (Expr → Param)) (item : Reader Param) (fuel : Nat) :
      bracketItems ")" extra item (fuel + 1) [] (rp :: colon :: ret :: ts) =
        some ([], colon :: ret :: ts) := by
    rw [bracketItems_close (hrp.clean _) (hrp.ahead_op _ {}), hrp.advance]
  have hnext : Cursor.next (ret :: ts) = ret := by simp [Cursor.next, Cursor.skip, hret.isTrivia]
  have hbody : blockOf (expression depth) (levels + 1) inner (ret :: ts) =
      some ([.ret (some e)], [last]) := blockFrom_returned _ h hdepth hret hs hlast
  have hsuite : colonSuite (expression depth) (blockOf (expression depth) (levels + 1)) indent
      (colon :: ret :: ts) = some ([.ret (some e)], [last]) := by
    unfold colonSuite suite Cursor.expect?
    simp [hcolon.ahead_op, hcolon.advance, hnext, hret.line, hinner, hbody]
  unfold function identifier typeParams Cursor.expect?
  simp [hdefine.advance, hf.operand?, hf.next, hname, hf.advance, hlp.ahead_op, hlp.advance, hparams,
    hcolon.ahead_op, hsuite, hftext, returning]

/-- The module that holds nothing but the function. -/
theorem blockOf_returned {depth : Nat} (levels : Nat) (h : e.Composed) (hdepth : e.pieces.length < depth)
    (hdefine : define.Leads "def" 0) (hhead : Spells headPieces us (ret :: ts)) {inner : Nat}
    (hret : ret.Leads "return" inner) (hinner : 0 < inner) (hs : Spells e.pieces ts [last])
    (hlast : last.IsEnd) :
    blockOf (expression depth) (levels + 2) 0 (define :: us) =
      some ([.define (returning e)], [last]) := by
  obtain ⟨u, hsettle, hu⟩ := hdefine.settle us
  have hkind : u.kind = .word := hu.kind
  have htext : u.text = "def" := hu.text
  have hread : function (expression depth) (blockOf (expression depth) (levels + 1)) 0 [] false
      (u :: us) = some (returning e, [last]) :=
    function_returned h hdepth hu hhead hret hinner hs hlast
  have hstatement : statement (expression depth) (blockOf (expression depth) (levels + 1)) 0
      (define :: us) = some ([.define (returning e)], [last]) := by
    unfold statement definition
    simp [hsettle, hu.next, hkind, htext, hread]
  have hnext : Cursor.next (define :: us) = define := by
    simp [Cursor.next, Cursor.skip, hdefine.isTrivia]
  unfold blockOf blockFrom
  simp [hnext, hdefine.line, hdefine.kind, hdefine.isTrivia, hstatement, blockFrom_end _ _ _ hlast]

/-! ## Splitting the text -/

/-- A line of a keyword and pieces behind a blank becomes a token that leads it and tokens that spell
the pieces. -/
theorem tokensFrom_line (depth fuel : Nat) (word : String) (place : Place) (gap rest : List Char)
    {c : Char} {ps : List Piece} {indent : Nat} (hgap : ∀ x ∈ gap, isGap x = true)
    (hline : (gap.foldl Place.afterGap place).line = some 0)
    (hindent : (gap.foldl Place.afterGap place).indent = indent)
    (hword : (Piece.word word).isProper = true) (hps : Piece.Splits c ps)
    (hfirst : Piece.firstChar c ps = ' ') (hrest : ∀ x ∈ c :: rest, isStringQuote x = false) :
    ∃ t ts after, t.Leads word indent ∧ (∀ us, Spells ps (ts ++ us) us) ∧
      tokensFrom (depth + 1) (fuel + ps.length + 1) place
          (gap ++ (word.toList ++ ((Piece.spell ps).toList ++ c :: rest))) =
        t :: (ts ++ tokensFrom (depth + 1) fuel after (c :: rest)) := by
  obtain ⟨cs, hcs⟩ := firstChar_spell hps rest
  rw [hfirst] at hcs
  have hquote : ∀ x ∈ word.toList ++ ' ' :: cs, isStringQuote x = false := by
    rw [← hcs, List.forall_mem_append, List.forall_mem_append]
    exact ⟨proper_quote hword, spell_quote hps, hrest⟩
  have hends : (Piece.word word).endsBefore ' ' = true := Expr.Composed.closers_word (by decide)
  let start := gap.foldl Place.afterGap place
  let lexeme : Lexeme := { kind := .word, chars := word.toList, rest := ' ' :: cs }
  have hleads : (lexeme.at gap start).Leads word indent := by
    refine ⟨rfl, String.ofList_toList, ?_, rfl⟩
    show start.line.map (fun _ => start.indent) = some indent
    rw [show start.line = some 0 from hline, show start.indent = indent from hindent]
    rfl
  have hstep : tokensFrom (depth + 1) (fuel + ps.length + 1) place (gap ++ (word.toList ++ ' ' :: cs)) =
      lexeme.at gap start :: tokensFrom (depth + 1) (fuel + ps.length)
        (start.afterToken (lexeme.at gap start).isTrivia word.toList) (' ' :: cs) :=
    tokensFrom_step hgap (proper_head hword) (lexeme_piece hword hends hquote)
  obtain ⟨ts, after, -, hts, hrun⟩ := tokensFrom_spell depth fuel hps hrest
    (show (start.afterToken (lexeme.at gap start).isTrivia word.toList).line = none from rfl)
  refine ⟨_, ts, after, hleads, hts, ?_⟩
  rw [hcs, hstep, ← hcs, hrun]

theorem length_le_spell {c : Char} {ps : List Piece} (h : Piece.Splits c ps) :
    ps.length ≤ (Piece.spell ps).toList.length := by
  induction ps with
  | nil => exact Nat.zero_le _
  | cons p ps ih =>
    obtain ⟨d, ds, htext, -⟩ := proper_head h.1
    have hrest := ih h.2.2
    rw [Piece.spell_cons, String.toList_append, String.toList_append, htext]
    simp only [List.length_append, List.length_cons]
    omega

/-- The text of the function that returns an expression. -/
def returningText (e : Expr) : String := "def f():\n    return " ++ e.text ++ "\n"

theorem toList_returningText (h : e.Composed) :
    (returningText e).toList = "def".toList ++ ((Piece.spell headPieces).toList ++
      ("\n    ".toList ++ ("return".toList ++
        ((Piece.spell (Piece.after e.pieces)).toList ++ ['\n'])))) := by
  have hstart : "def f():\n    return ".toList = "def".toList ++ ((Piece.spell headPieces).toList ++
      ("\n    ".toList ++ ("return".toList ++ " ".toList))) := by decide +kernel
  have hend : "\n".toList = ['\n'] := by decide +kernel
  have htext : Piece.spell (Piece.after e.pieces) = " " ++ e.text := by
    rw [Piece.spell_after (Expr.tight_pieces e), ← Expr.text_eq_spell e h.printable]
  have htext' : returningText e = "def f():\n    return " ++ e.text ++ "\n" := rfl
  simp only [htext, htext', String.toList_append, hstart, hend, List.append_assoc]

theorem tokensFrom_end (depth fuel : Nat) (place : Place) :
    ∃ last, last.IsEnd ∧ tokensFrom (depth + 1) (fuel + 1) place ['\n'] = [last] :=
  ⟨_, ⟨rfl, rfl⟩, rfl⟩

/-- The tokens of the text: the keyword of the function, its head, and the line in the block. -/
theorem tokenize_returned (h : e.Composed) :
    ∃ define us ret ts last, tokenize (returningText e).toList = define :: us ∧
      define.Leads "def" 0 ∧ Spells headPieces us (ret :: ts) ∧ ret.Leads "return" 4 ∧
        Spells e.pieces ts [last] ∧ last.IsEnd := by
  have hsplits : Piece.Splits '\n' (Piece.after e.pieces) :=
    Piece.splits_after.mpr (h.splits (by decide))
  have hhead : Piece.Splits '\n' headPieces := by decide +kernel
  have hfirst : Piece.firstChar '\n' (Piece.after e.pieces) = ' ' :=
    Piece.firstChar_after (Expr.pieces_ne_nil e)
  let line := "return".toList ++ ((Piece.spell (Piece.after e.pieces)).toList ++ ['\n'])
  have hquote : ∀ x ∈ '\n' :: ("    ".toList ++ line), isStringQuote x = false := by
    rw [List.forall_mem_cons, List.forall_mem_append, List.forall_mem_append, List.forall_mem_append]
    exact ⟨by decide, by decide, by decide, spell_quote hsplits, by decide⟩
  -- There is more fuel than there are tokens.
  obtain ⟨fuel, hfuel⟩ : ∃ fuel, (returningText e).toList.length + 1 =
      fuel + 1 + (Piece.after e.pieces).length + 1 + headPieces.length + 1 := by
    have hlen := length_le_spell hsplits
    have hlength : 6 ≤ "def".toList.length + (Piece.spell headPieces).toList.length := by decide
    refine ⟨(returningText e).toList.length + 1 - (e.pieces.length + 7), ?_⟩
    rw [Piece.length_after] at hlen ⊢
    rw [toList_returningText h]
    simp only [List.length_append, headPieces, List.length_cons, List.length_nil] at hlength ⊢
    omega
  let depth := (returningText e).toList.length
  let turns := fuel + 1 + (Piece.after e.pieces).length + 1
  obtain ⟨define, us, p, hdefine, hus, hfunction⟩ := tokensFrom_line depth turns "def" {} []
    ("    ".toList ++ line) (by simp) rfl rfl (by decide +kernel) hhead rfl hquote
  obtain ⟨ret, ts, q, hret, hts, hreturn⟩ := tokensFrom_line depth (fuel + 1) "return" p
    "\n    ".toList [] (by decide) rfl rfl (by decide +kernel) hsplits hfirst (by decide)
  obtain ⟨last, hlast, hend⟩ := tokensFrom_end depth fuel q
  refine ⟨define, us ++ (ret :: (ts ++ [last])), ret, ts ++ [last], last, ?_, hdefine, hus _, hret,
    spells_after.mp (hts _), hlast⟩
  calc
    tokenize (returningText e).toList
      = tokensFrom (depth + 1) (turns + headPieces.length + 1) {} (returningText e).toList :=
        congrArg (tokensFrom (depth + 1) · {} (returningText e).toList) hfuel
    _ = tokensFrom (depth + 1) (turns + headPieces.length + 1) {} ([] ++ ("def".toList ++
          ((Piece.spell headPieces).toList ++ '\n' :: ("    ".toList ++ line)))) :=
        congrArg (tokensFrom (depth + 1) _ {}) (toList_returningText h)
    _ = define :: (us ++ (ret :: (ts ++ tokensFrom (depth + 1) (fuel + 1) q ['\n']))) := by
        rw [hfunction, ← hreturn]
        rfl
    _ = define :: (us ++ (ret :: (ts ++ [last]))) := by rw [hend]

end Source

/-- A composed expression is read back from the function that returns it. -/
theorem Module.parse?_returning {e : Expr} (h : e.Composed) :
    Module.parse? ("def f():\n    return " ++ e.text ++ "\n") =
      some ⟨[.define { name := "f", params := [], body := [.ret (some e)] }]⟩ := by
  obtain ⟨define, us, ret, ts, last, htokens, hdefine, hhead, hret, hs, hlast⟩ :=
    Source.tokenize_returned h
  have hsplits : Piece.Splits '\n' (Piece.after e.pieces) :=
    Piece.splits_after.mpr (h.splits (by decide))
  have hlen := Source.length_le_spell hsplits
  rw [Piece.length_after] at hlen
  have hdepth : e.pieces.length < (Source.returningText e).toList.length + 2 := by
    rw [Source.toList_returningText h]
    simp only [List.length_append]
    omega
  have hread := Source.blockOf_returned (Source.returningText e).toList.length h hdepth hdefine hhead
    hret (by decide) hs hlast
  show Module.parse? (Source.returningText e) = _
  unfold Module.parse?
  simp only [htokens, hread, hlast.next, hlast.kind]
  rfl

/-- A negated base stands in parentheses, and a conditional does as the receiver of a call. -/
theorem Module.parse?_returning_nested :
    let x : Expr := .name "x"
    let e : Expr := .bin .pow (.unary .neg x) (.call (.attribute (.ifExp x (.int 1) .none) "m") [])
    e.text = "(-x) ** (1 if x else None).m()" ∧
      Module.parse? ("def f():\n    return " ++ e.text ++ "\n") =
        some ⟨[.define { name := "f", params := [], body := [.ret (some e)] }]⟩ := by
  intro x e
  have hx : IsName "x" := ⟨⟨'x', [], by decide, by decide, rfl⟩, by decide, by decide⟩
  have hm : IsName "m" := ⟨⟨'m', [], by decide, by decide, rfl⟩, by decide, by decide⟩
  have howner : (Expr.ifExp x (.int 1) .none).Composed :=
    .ifExp (.name hx) (.int (by decide) (by decide)) .none
  have hcall : (Expr.call (.attribute (.ifExp x (.int 1) .none) "m") ([].map .positional)).Composed :=
    .call (.attr hm howner) nofun
  exact ⟨by decide +kernel,
    Module.parse?_returning (.bin nofun nofun (.unary .neg (.name hx)) hcall)⟩

/-- The printer takes `&` to bind tighter than `^`, and the reader does not. -/
theorem Module.parse?_text_bitXor :
    let m : Module := ⟨[.assign [.name "x"] (.bin .bitXor (.bin .bitAnd (.name "a") (.name "b")) (.name "c")) none]⟩
    parse? "x = (a & b) ^ c\n" = some m ∧ m.text = "x = a & b ^ c\n" ∧ parse? m.text ≠ some m := by
  intro m
  exact ⟨by decide +kernel, by decide +kernel, by decide +kernel⟩

end Concord
