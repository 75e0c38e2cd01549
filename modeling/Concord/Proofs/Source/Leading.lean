import Concord.Proofs.Source.Spelling
import Concord.Proofs.Tree.Literal
import Concord.Source.Expression

/-!
# Levels of binding strength

What it means that a reader of one level gives an expression for some pieces. Levels whose operators
group to the left are stated with the loop that goes on after the expression (`Feeds`), because the
same loop reads the operand and what follows it; the other levels are stated with the result
(`Reads`). Each level follows from the next tighter one, so an expression needs one statement, at
its own level. `LevelReads` collects them.
-/

namespace Concord.Source

variable {self : ExprReader} {ctx : Context} {e : Expr} {ps : List Piece} {ts rest : Cursor}

/-! ## What each level goes on with -/

/-- The marks of calls, attributes and subscripts. -/
def trailerMarks : List String := [".", "(", "["]

/-- The marks of the binary operators of the given levels, and of what binds tighter. -/
def binaryMarks : List (List BinOp) → List String
  | [] => "**" :: trailerMarks
  | ops :: tighter => ops.map BinOp.symbol ++ binaryMarks tighter

/-- The marks of comparisons, and of what binds tighter. -/
def comparisonMarks : List String :=
  ["not", "is", "==", "!=", "<>", "<", "<=", ">", ">=", "in"] ++ binaryMarks binaryLevels

/-- The marks of assignment expressions, and of what binds tighter. -/
def negationMarks : List String := ":=" :: comparisonMarks

/-- The marks of conjunctions, and of what binds tighter. -/
def conjunctionMarks : List String := "and" :: negationMarks

/-- The marks of disjunctions, and of what binds tighter. -/
def disjunctionMarks : List String := "or" :: conjunctionMarks

/-- The marks of an alias, where one may follow, and of what binds tighter. -/
def aliasMarks (ctx : Context) : List String :=
  if ctx.aliasing then "as" :: disjunctionMarks else disjunctionMarks

/-- The marks of whole expressions. -/
def wholeMarks (ctx : Context) : List String :=
  if ctx.ternary then "if" :: aliasMarks ctx else aliasMarks ctx

theorem disjunctionMarks_subset (ctx : Context) : disjunctionMarks ⊆ wholeMarks ctx := by
  have h : disjunctionMarks ⊆ aliasMarks ctx := by
    unfold aliasMarks
    split
    · exact List.subset_cons_self _ _
    · exact List.Subset.refl _
  unfold wholeMarks
  split
  · exact fun s hs => List.mem_cons_of_mem _ (h hs)
  · exact h

/-! ## Statements for one level -/

section Statements

variable (self ctx)

/-- Reading an atom with what follows it comes to `e` and goes on with calls, attributes and
subscripts. -/
def PrimaryFeeds (e : Expr) (followed : Bool) (ps : List Piece) : Prop :=
  ∀ depth ts rest, Spells ps ts rest → ts.length < depth → Clean rest → NoString ctx rest →
    ∃ depth' fuel, rest.length < depth' ∧ rest.length < fuel ∧
      primary self depth ctx ts = trailers self ctx (primary self depth') fuel e followed rest

/-- An atom with what follows it is read as `e`. -/
def PrimaryReads (e : Expr) (followed : Bool) (ps : List Piece) : Prop :=
  ∀ depth ts rest, Spells ps ts rest → ts.length < depth → Stops ctx trailerMarks rest →
    primary self depth ctx ts = some ((e, followed), rest)

/-- The level of signs and powers gives `e`. -/
def SignedReads (e : Expr) (ps : List Piece) : Prop :=
  ∀ fuel ts rest, Spells ps ts rest → ts.length < fuel → Stops ctx (binaryMarks []) rest →
    signed self ctx fuel ts = some (e, rest)

/-- The levels of binary operators give `e`. -/
def BinaryReads (levels : List (List BinOp)) (e : Expr) (ps : List Piece) : Prop :=
  ∀ ts rest, Spells ps ts rest → Stops ctx (binaryMarks levels) rest →
    binary self ctx levels ts = some (e, rest)

/-- A level of binary operators comes to `e` and goes on with its own operators. -/
def BinaryFeeds (ops : List BinOp) (tighter : List (List BinOp)) (e : Expr) (ps : List Piece) :
    Prop :=
  ∀ ts rest, Spells ps ts rest → Stops ctx (binaryMarks tighter) rest →
    ∃ fuel, rest.length ≤ fuel ∧ binary self ctx (ops :: tighter) ts =
      leftChain ctx ops (binary self ctx tighter) fuel e rest

/-- The level of comparisons gives `e`. -/
def ComparisonReads (e : Expr) (ps : List Piece) : Prop :=
  ∀ ts rest, Spells ps ts rest → Stops ctx comparisonMarks rest →
    comparison self ctx ts = some (e, rest)

/-- The level of `not` gives `e` where none of `marks` follows. -/
def NegationReads (marks : List String) (e : Expr) (ps : List Piece) : Prop :=
  ∀ fuel ts rest, Spells ps ts rest → ts.length < fuel → Stops ctx marks rest →
    negation self ctx fuel ts = some (e, rest)

/-- The level of `and` comes to `e` and goes on with its operator. -/
def ConjunctionFeeds (marks : List String) (e : Expr) (ps : List Piece) : Prop :=
  ∀ ts rest, Spells ps ts rest → Stops ctx marks rest →
    ∃ fuel, rest.length ≤ fuel ∧ conjunction self ctx ts =
      logicChain ctx .and (fun ts => negation self ctx (ts.length + 1) ts) fuel e rest

/-- The level of `and` gives `e` where none of `marks` follows. -/
def ConjunctionReads (marks : List String) (e : Expr) (ps : List Piece) : Prop :=
  ∀ ts rest, Spells ps ts rest → Stops ctx marks rest → conjunction self ctx ts = some (e, rest)

/-- The level of `or` comes to `e` and goes on with its operator. -/
def DisjunctionFeeds (marks : List String) (e : Expr) (ps : List Piece) : Prop :=
  ∀ ts rest, Spells ps ts rest → Stops ctx marks rest →
    ∃ fuel, rest.length ≤ fuel ∧
      disjunction self ctx ts = logicChain ctx .or (conjunction self ctx) fuel e rest

/-- The level of `or` gives `e` where none of `marks` follows. -/
def DisjunctionReads (marks : List String) (e : Expr) (ps : List Piece) : Prop :=
  ∀ ts rest, Spells ps ts rest → Stops ctx marks rest → disjunction self ctx ts = some (e, rest)

/-- The level of conditional expressions gives `e`. -/
def WholeReads (e : Expr) (ps : List Piece) : Prop :=
  ∀ ts rest, Spells ps ts rest → Stops ctx (wholeMarks ctx) rest →
    conditional self ctx ts = some (e, rest)

end Statements

/-! ## From one level to the next looser one -/

theorem PrimaryFeeds.reads {followed : Bool} (h : PrimaryFeeds self ctx e followed ps) :
    PrimaryReads self ctx e followed ps := by
  intro depth ts rest hs hdepth hstop
  obtain ⟨depth', fuel, -, hfuel, heq⟩ := h depth ts rest hs hdepth hstop.clean hstop.noString
  have hahead := hstop.ahead
  rw [heq]
  cases fuel with
  | zero => omega
  | succ fuel =>
    simp only [trailerMarks, List.mem_cons, List.not_mem_nil, or_false, not_or] at hahead
    rw [trailers]
    split
    · exact absurd ‹_› hahead.1
    · exact absurd ‹_› hahead.2.1
    · exact absurd ‹_› hahead.2.2
    · rfl

theorem sign?_eq_none {s : String} (h : s ∉ ["-", "+", "~"]) : sign? s = none := by
  simp only [List.mem_cons, List.not_mem_nil, or_false, not_or] at h
  rw [sign?]
  · exact h.1
  · exact h.2.1
  · exact h.2.2

theorem PrimaryReads.signed {followed : Bool} (h : PrimaryReads self ctx e followed ps)
    (hsigns : Opens ["-", "+", "~"] ps) (hopens : Opens ["await"] ps) :
    SignedReads self ctx e ps := by
  intro fuel ts rest hs hfuel hstop
  obtain ⟨t, us, p, rfl, ht, htext⟩ := (hsigns.join hopens).cases hs
  rw [List.mem_append, not_or] at htext
  cases fuel with
  | zero => omega
  | succ fuel =>
    have hsign : sign? t.text = none := by
      rw [ht.text]
      exact sign?_eq_none htext.1
    have hawait : t.text ≠ "await" := by
      rw [ht.text]
      exact fun he => htext.2 (List.mem_singleton.mpr he)
    have hread := h (us.length + 1 + 1) (t :: us) rest hs (by simp)
      (hstop.mono (by simp [binaryMarks]))
    have hpow : Cursor.ahead ctx rest ≠ "**" := by
      intro he
      exact hstop.ahead (by simp [he, binaryMarks])
    rw [Source.signed]
    simp [ht.operand?, ht.next, hsign, hawait, hread, hpow]

theorem SignedReads.binary (h : SignedReads self ctx e ps) : BinaryReads self ctx [] e ps := by
  intro ts rest hs hstop
  exact h (ts.length + 1) ts rest hs (by omega) hstop

theorem BinaryReads.feeds {tighter : List (List BinOp)} (h : BinaryReads self ctx tighter e ps)
    (ops : List BinOp) : BinaryFeeds self ctx ops tighter e ps := by
  intro ts rest hs hstop
  refine ⟨rest.length, Nat.le_refl _, ?_⟩
  rw [Source.binary]
  simp [h ts rest hs hstop]

theorem BinaryFeeds.reads {ops : List BinOp} {tighter : List (List BinOp)}
    (h : BinaryFeeds self ctx ops tighter e ps) : BinaryReads self ctx (ops :: tighter) e ps := by
  intro ts rest hs hstop
  obtain ⟨fuel, -, heq⟩ := h ts rest hs (hstop.mono (by simp [binaryMarks]))
  rw [heq]
  cases fuel with
  | zero => rfl
  | succ fuel =>
    have hfind : ops.find? (·.symbol == Cursor.ahead ctx rest) = none := by
      rw [List.find?_eq_none]
      intro o ho he
      refine hstop.ahead ?_
      rw [binaryMarks, List.mem_append]
      exact .inl (List.mem_map.mpr ⟨o, ho, by simpa using he⟩)
    simp [leftChain, hfind]

theorem comparisonAhead_eq_none (h : Cursor.ahead ctx rest ∉ comparisonMarks) :
    comparisonAhead ctx rest = none := by
  simp only [comparisonMarks, List.mem_append, List.mem_cons, List.not_mem_nil, or_false,
    not_or] at h
  obtain ⟨⟨hnot, his, heq, hne, hne', hlt, hle, hgt, hge, hin⟩, -⟩ := h
  unfold comparisonAhead
  split
  · exact absurd ‹_› hnot
  · exact absurd ‹_› his
  · rw [Option.map_eq_none_iff, comparison?]
    all_goals assumption

theorem comparisonLinks_nil {operand : Reader Expr} (h : Cursor.ahead ctx rest ∉ comparisonMarks)
    (fuel : Nat) : comparisonLinks ctx operand fuel rest = some (([], false), rest) := by
  cases fuel with
  | zero => rfl
  | succ fuel => rw [comparisonLinks, comparisonAhead_eq_none h]

theorem BinaryReads.comparison (h : BinaryReads self ctx binaryLevels e ps) (hne : ps ≠ []) :
    ComparisonReads self ctx e ps := by
  intro ts rest hs hstop
  obtain ⟨t, us, rfl, p, ht⟩ : ∃ t us, ts = t :: us ∧ ∃ p, t.Spells p := by
    cases ps with
    | nil => exact absurd rfl hne
    | cons p ps =>
      obtain ⟨t, us, rfl, ht, -⟩ := hs
      exact ⟨t, us, rfl, p, ht⟩
  have hread := h _ rest hs (hstop.mono (List.subset_append_right _ _))
  unfold Source.comparison
  simp [ht.operand?, hread, comparisonLinks_nil hstop.ahead]

/-- Pieces whose second one, if there is one, has none of the given texts. -/
def Second (bad : List String) : List Piece → Prop
  | _ :: q :: _ => q.text ∉ bad
  | _ => True

/-- Neither the second piece nor, after a single one, what follows is `s`. -/
theorem Second.ahead_ne {bad : List String} {s : String} {t : Token} {us : Cursor}
    (h : Second bad ps) (hs : Spells ps (t :: us) rest) (hmem : s ∈ bad) (hne : s ≠ "")
    (hrest : Cursor.ahead ctx rest ≠ s) (hps : ps ≠ []) : Cursor.ahead ctx us ≠ s := by
  match ps, hps with
  | [p], _ =>
    obtain ⟨t', us', heq, -, hus⟩ := hs
    obtain ⟨rfl, rfl⟩ := List.cons.inj heq
    rw [show us = rest from hus]
    exact hrest
  | p :: q :: qs, _ =>
    obtain ⟨t', us', heq, -, u, vs, rfl, hu, -⟩ := hs
    obtain ⟨rfl, rfl⟩ := List.cons.inj heq
    refine hu.ahead_ne vs ctx ?_ hne
    rintro rfl
    exact h hmem

theorem ComparisonReads.negation (h : ComparisonReads self ctx e ps)
    (hopens : Opens ["not", "lambda"] ps) (hsecond : Second [":=", "="] ps) :
    NegationReads self ctx negationMarks e ps := by
  intro fuel ts rest hs hfuel hstop
  have hps : ps ≠ [] := by
    rintro rfl
    exact hopens
  obtain ⟨t, us, p, rfl, ht, htext⟩ := hopens.cases hs
  cases fuel with
  | zero => omega
  | succ fuel =>
    have hnot : t.text ≠ "not" := by
      rw [ht.text]
      exact fun he => htext (by simp [he])
    have hlambda : t.text ≠ "lambda" := by
      rw [ht.text]
      exact fun he => htext (by simp [he])
    have hrest : Cursor.ahead ctx rest ≠ ":=" := by
      intro he
      exact hstop.ahead (by simp [he, negationMarks])
    have hwalrus : Cursor.ahead ctx us ≠ ":=" :=
      hsecond.ahead_ne hs (by simp) (by decide) hrest hps
    have hread := h _ rest hs (hstop.mono (List.subset_cons_self _ _))
    rw [Source.negation]
    simp [ht.operand?, ht.next, ht.advance, hnot, hlambda, hwalrus, hread]

theorem NegationReads.feeds {marks : List String} (h : NegationReads self ctx marks e ps) :
    ConjunctionFeeds self ctx marks e ps := by
  intro ts rest hs hstop
  refine ⟨rest.length, Nat.le_refl _, ?_⟩
  unfold conjunction
  simp [h (ts.length + 1) ts rest hs (by omega) hstop]

theorem logicChain_stop {op : BoolOp} {operand : Reader Expr}
    (h : Cursor.ahead ctx rest ≠ op.symbol) (fuel : Nat) :
    logicChain ctx op operand fuel e rest = some (e, rest) := by
  cases fuel with
  | zero => rfl
  | succ fuel => simp [logicChain, h]

theorem ConjunctionFeeds.reads {marks marks' : List String}
    (h : ConjunctionFeeds self ctx marks e ps) (hsub : marks ⊆ marks') (hand : "and" ∈ marks') :
    ConjunctionReads self ctx marks' e ps := by
  intro ts rest hs hstop
  obtain ⟨fuel, -, heq⟩ := h ts rest hs (hstop.mono hsub)
  rw [heq, logicChain_stop fun he => hstop.ahead (by rw [he]; exact hand)]

theorem ConjunctionReads.feeds {marks : List String} (h : ConjunctionReads self ctx marks e ps) :
    DisjunctionFeeds self ctx marks e ps := by
  intro ts rest hs hstop
  refine ⟨rest.length, Nat.le_refl _, ?_⟩
  unfold disjunction
  simp [h ts rest hs hstop]

theorem DisjunctionFeeds.reads {marks marks' : List String}
    (h : DisjunctionFeeds self ctx marks e ps) (hsub : marks ⊆ marks') (hor : "or" ∈ marks') :
    DisjunctionReads self ctx marks' e ps := by
  intro ts rest hs hstop
  obtain ⟨fuel, -, heq⟩ := h ts rest hs (hstop.mono hsub)
  rw [heq, logicChain_stop fun he => hstop.ahead (by rw [he]; exact hor)]

/-- An expression that is followed neither by an alias nor by a condition. -/
theorem DisjunctionReads.whole (h : DisjunctionReads self ctx (wholeMarks ctx) e ps) :
    WholeReads self ctx e ps := by
  intro ts rest hs hstop
  have hread := h ts rest hs hstop
  have hahead := hstop.ahead
  unfold conditional aliased
  unfold wholeMarks aliasMarks at hahead
  cases ha : ctx.aliasing <;> cases ht : ctx.ternary <;> simp_all

/-! ## All levels at once -/

/-- The statement for the level of the given rank: the binding strengths of the printer, with the
two operators `&` and `^` in the order in which they are read. -/
def ReadsAt (self : ExprReader) (ctx : Context) (e : Expr) (ps : List Piece) : Nat → Prop
  | 0 | 1 | 2 => WholeReads self ctx e ps
  | 3 => DisjunctionFeeds self ctx conjunctionMarks e ps
  | 4 => ConjunctionFeeds self ctx negationMarks e ps
  | 5 => NegationReads self ctx negationMarks e ps
  | 6 => ComparisonReads self ctx e ps
  | 7 => BinaryFeeds self ctx [.bitOr] (binaryLevels.drop 1) e ps
  | 8 => BinaryFeeds self ctx [.bitAnd] (binaryLevels.drop 2) e ps
  | 9 => BinaryFeeds self ctx [.bitXor] (binaryLevels.drop 3) e ps
  | 10 => BinaryFeeds self ctx [.shiftLeft, .shiftRight] (binaryLevels.drop 4) e ps
  | 11 => BinaryFeeds self ctx [.add, .sub] (binaryLevels.drop 5) e ps
  | 12 => BinaryFeeds self ctx [.mul, .matMul, .div, .mod, .floorDiv] (binaryLevels.drop 6) e ps
  | 13 | 14 => SignedReads self ctx e ps
  | _ + 15 => ∃ followed, PrimaryFeeds self ctx e followed ps

/-- Texts that no expression starts with. -/
def nonStarters : List String :=
  [")", "]", "\x7d", ",", ":", ";", "*", "**", "/", "=", ":=", "yield", "from", "await"]

/-- What readers ask about the first two pieces of an expression of the given rank. -/
structure Starts (rank : Nat) (ps : List Piece) : Prop where
  first : Opens nonStarters ps
  second : Second [":=", "="] ps
  word : 6 ≤ rank → Opens ["not", "lambda"] ps
  sign : 15 ≤ rank → Opens ["-", "+", "~"] ps

theorem Starts.ne_nil {rank : Nat} (h : Starts rank ps) : ps ≠ [] := by
  rintro rfl
  exact h.first

theorem or_mem_wholeMarks (ctx : Context) : "or" ∈ wholeMarks ctx :=
  disjunctionMarks_subset ctx (by simp [disjunctionMarks])

/-- One level looser. -/
theorem ReadsAt.lower {k : Nat} (h : ReadsAt self ctx e ps (k + 1)) (hps : Starts (k + 1) ps) :
    ReadsAt self ctx e ps k := by
  match k with
  | 0 | 1 => exact h
  | 2 =>
    have hsub : conjunctionMarks ⊆ wholeMarks ctx := fun s hs =>
      disjunctionMarks_subset ctx (List.mem_cons_of_mem _ hs)
    exact (DisjunctionFeeds.reads h hsub (or_mem_wholeMarks ctx)).whole
  | 3 => exact (ConjunctionFeeds.reads h (List.subset_cons_self _ _) (by simp)).feeds
  | 4 => exact NegationReads.feeds h
  | 5 => exact ComparisonReads.negation h (hps.word (by omega)) hps.second
  | 6 => exact (BinaryFeeds.reads h).comparison hps.ne_nil
  | 7 | 8 | 9 | 10 | 11 => exact (BinaryFeeds.reads h).feeds _
  | 12 => exact (SignedReads.binary h).feeds _
  | 13 => exact h
  | 14 =>
    obtain ⟨followed, h⟩ := h
    exact h.reads.signed (hps.sign (by omega)) (hps.first.mono (by decide))
  | k + 15 => exact h

theorem Starts.mono {rank k : Nat} (h : Starts rank ps) (hk : k ≤ rank) : Starts k ps :=
  ⟨h.first, h.second, fun h6 => h.word (by omega), fun h15 => h.sign (by omega)⟩

/-- An expression is read at every level that is not tighter than its own. -/
theorem ReadsAt.mono {rank k : Nat} (h : ReadsAt self ctx e ps rank) (hps : Starts rank ps)
    (hk : k ≤ rank) : ReadsAt self ctx e ps k := by
  induction rank with
  | zero =>
    rw [Nat.le_zero.mp hk]
    exact h
  | succ rank ih =>
    rcases Nat.lt_or_eq_of_le hk with hlt | rfl
    · exact ih (h.lower hps) (hps.mono (by omega)) (by omega)
    · exact h

end Concord.Source

/-!
## How printed expressions start

A reader decides by the first one or two tokens what it has before it. The pieces of an expression
never start with a closing bracket, a separator or a keyword of a statement, and whether they may
start with a sign or with `not` is a matter of the rank of the expression.
-/

namespace Concord

open Source (Opens Second Starts nonStarters keywords opens_cons)

/-! ### Texts of words and literals -/

/-- Whether a text cannot be a name. -/
def isNoName (s : String) : Bool :=
  keywords.contains s || s == "await" || !(s.toList.head?.any Identifier.isStart)

theorem IsName.not_mem {n : String} {bad : List String} (h : IsName n)
    (hbad : bad.all isNoName = true) : n ∉ bad := by
  intro hmem
  obtain ⟨⟨c, cs, hchars, hstart, -⟩, hkeyword, hawait⟩ := h
  have hn := List.all_eq_true.mp hbad n hmem
  simp [isNoName, hchars, hstart, hawait] at hn
  simp [hn] at hkeyword

/-- A character that only literals have: a digit or a quote. -/
def isLiteralChar (c : Char) : Bool := c.isDigit || StrLit.isQuote c

/-- A text with a character that only literals have. -/
def HasLiteralChar (s : String) : Prop := ∃ c ∈ s.toList, isLiteralChar c = true

theorem HasLiteralChar.not_mem {s : String} {bad : List String} (h : HasLiteralChar s)
    (hbad : (bad.all fun b => b.toList.all (!isLiteralChar ·)) = true) : s ∉ bad := by
  intro hmem
  obtain ⟨c, hc, hlit⟩ := h
  have hs := List.all_eq_true.mp (List.all_eq_true.mp hbad s hmem) c hc
  simp [hlit] at hs

theorem hasLiteralChar_toString {v : Int} (h : 0 ≤ v) : HasLiteralChar (toString v) := by
  obtain ⟨n, rfl⟩ := Int.eq_ofNat_of_zero_le h
  have htext : (toString (n : Int)).toList = Nat.toDigits 10 n := Nat.toList_repr
  obtain ⟨c, hc⟩ := List.exists_mem_of_ne_nil _ (Nat.toDigits_ne_nil (b := 10) (n := n))
  refine ⟨c, by rw [htext]; exact hc, ?_⟩
  rw [isLiteralChar, Nat.isDigit_of_mem_toDigits (by decide) (by decide) hc]
  rfl

theorem hasLiteralChar_writeFloat {x : Float}
    (h : Literal.readFloat? (Literal.writeFloat x).toList = some x) :
    HasLiteralChar (Literal.writeFloat x) := by
  obtain ⟨whole, frac, htext, ⟨hne, hdigits⟩, -⟩ := Literal.isPointed_writeFloat h
  obtain ⟨c, hc⟩ := List.exists_mem_of_ne_nil _ hne
  refine ⟨c, by rw [htext]; simp [hc], ?_⟩
  rw [isLiteralChar, hdigits c hc]
  rfl

theorem hasLiteralChar_write (lit : StrLit) : HasLiteralChar (String.ofList lit.write) := by
  refine ⟨StrLit.quote lit.value.toList, ?_, ?_⟩
  · rw [String.toList_ofList]
    simp only [StrLit.write]
    split <;> simp
  · rw [isLiteralChar, StrLit.isQuote_quote, Bool.or_true]

/-! ### Ranks -/

namespace Expr

/-- How tightly an expression binds for a reader. The printer has the order of `&` and `^` the other
way round. -/
def rank : Expr → Nat
  | .bin .bitAnd _ _ => 8
  | .bin .bitXor _ _ => 9
  | e => e.precedence

theorem rank_bin (o : BinOp) (l r : Expr) :
    rank (.bin o l r) =
      if o = .bitAnd then 8 else if o = .bitXor then 9 else o.precedence := by
  cases o <;> rfl

theorem precedence_cases (e : Expr) :
    (e.precedence ≠ 8 ∧ e.precedence ≠ 9) ∨
      ∃ l r, e = .bin .bitAnd l r ∨ e = .bin .bitXor l r := by
  match e with
  | .bin o l r =>
    cases o with
    | bitAnd => exact .inr ⟨l, r, .inl rfl⟩
    | bitXor => exact .inr ⟨l, r, .inr rfl⟩
    | _ => exact .inl (by simp [precedence, BinOp.precedence])
  | .logic .and _ _ | .logic .or _ _ => simp [precedence, BoolOp.precedence]
  | .unary o _ => cases o <;> simp [precedence]
  | .int v => by_cases h : v < 0 <;> simp [precedence, h]
  | .float v => by_cases h : v < 0 <;> simp [precedence, h]
  | .verbatim t => by_cases h : isAtomicText t.toList = true <;> simp [precedence, h]
  | .name _ | .str _ | .bool _ | .none | .compare _ _ | .call _ _ | .attribute _ _
  | .subscript _ _ | .slice _ _ _ | .list _ | .tuple _ | .set _ | .dict _ | .comp _ _ _ _
  | .ifExp _ _ _ | .lambda _ _ | .starred _ => simp [precedence]

/-- Away from the two operators in question the ranks are the binding strengths of the printer. -/
theorem rank_cases (e : Expr) :
    (e.rank = e.precedence ∧ e.precedence ≠ 8 ∧ e.precedence ≠ 9) ∨
      (e.rank = 8 ∧ e.precedence = 9 ∧ e.isBitAnd = true) ∨ (e.rank = 9 ∧ e.precedence = 8) := by
  obtain h | ⟨l, r, rfl | rfl⟩ := e.precedence_cases
  · refine .inl ⟨?_, h⟩
    unfold rank
    split
    · exact absurd rfl h.2
    · exact absurd rfl h.1
    · rfl
  · exact .inr (.inl ⟨rfl, rfl, rfl⟩)
  · exact .inr (.inr ⟨rfl, rfl⟩)

theorem le_rank {e : Expr} {k : Nat} (h : k ≤ e.precedence) (hk : k ≤ 8 ∨ 10 ≤ k) :
    k ≤ e.rank := by
  have := e.rank_cases
  omega

end Expr

/-! ### The first pieces -/

theorem starts_of_literal {kind : Source.TokenKind} {s : String} (h : HasLiteralChar s)
    (rank : Nat) : Starts rank [⟨false, kind, s⟩] :=
  ⟨h.not_mem (by decide), trivial, fun _ => h.not_mem (by decide), fun _ => h.not_mem (by decide)⟩

theorem IsName.starts {n : String} (h : IsName n) (rank : Nat) : Starts rank [Piece.word n] :=
  ⟨h.not_mem (by decide), trivial, fun _ => h.not_mem (by decide), fun _ => h.not_mem (by decide)⟩

/-- An operator, a bracket or a keyword before something that is no equals sign. -/
theorem starts_cons {p : Piece} {ps : List Piece} (rank : Nat) (hp : p.text ∉ nonStarters)
    (hword : 6 ≤ rank → p.text ∉ ["not", "lambda"])
    (hsign : 15 ≤ rank → p.text ∉ ["-", "+", "~"]) (hps : ps = [] ∨ Opens [":=", "="] ps) :
    Starts rank (p :: ps) := by
  refine ⟨hp, ?_, hword, hsign⟩
  rcases hps with rfl | h
  · trivial
  · cases ps with
    | nil => exact h.elim
    | cons q qs => exact h

theorem Source.Starts.append {rank : Nat} {ps qs : List Piece} (h : Starts rank ps)
    (hqs : qs = [] ∨ Opens [":=", "="] qs) : Starts rank (ps ++ qs) := by
  refine ⟨h.first.append qs, ?_, fun h6 => (h.word h6).append qs,
    fun h15 => (h.sign h15).append qs⟩
  match ps, h with
  | [], h => exact h.first.elim
  | [p], h =>
    rcases hqs with rfl | hqs
    · exact h.second
    · cases qs with
      | nil => exact hqs.elim
      | cons q qs => exact hqs
  | p :: q :: ps, h => exact h.second

/-! ### Pieces that start with no equals sign -/

section Equals

variable {bad : List String} {parts : List (List Piece)} {ps qs : List Piece}

theorem opens_commas_cons (h : Opens bad ps) (parts : List (List Piece)) (qs : List Piece) :
    Opens bad (Piece.commas (ps :: parts) ++ qs) := by
  cases parts with
  | nil => exact h.append _
  | cons part parts => exact (h.append _).append _

theorem opens_commasTuple_cons (h : Opens bad ps) (parts : List (List Piece)) (qs : List Piece) :
    Opens bad (Piece.commasTuple (ps :: parts) ++ qs) := by
  cases parts with
  | nil => exact (h.append _).append _
  | cons part parts => exact (h.append _).append _

theorem opens_commas (h : ∀ part ∈ parts, Opens bad part) (hqs : Opens bad qs) :
    Opens bad (Piece.commas parts ++ qs) := by
  cases parts with
  | nil => exact hqs
  | cons part parts => exact opens_commas_cons (h part List.mem_cons_self) parts qs

theorem opens_after_commas (h : ∀ part ∈ parts, Opens bad part) (hqs : Opens bad qs) :
    Opens bad (Piece.after (Piece.commas parts) ++ qs) := by
  match hparts : Piece.commas parts with
  | [] => exact hqs
  | p :: ps =>
    have hopens := opens_commas h hqs
    rw [hparts] at hopens
    exact hopens

theorem opens_commasTuple (h : ∀ part ∈ parts, Opens bad part) (hqs : Opens bad qs) :
    Opens bad (Piece.commasTuple parts ++ qs) := by
  cases parts with
  | nil => exact hqs
  | cons part parts => exact opens_commasTuple_cons (h part List.mem_cons_self) parts qs

theorem opens_wrapPieces {e : Expr} (min : Nat) (hparen : "(" ∉ bad) (h : Opens bad ps) :
    Opens bad (e.wrapPieces min ps) := by
  unfold Expr.wrapPieces
  split
  · exact hparen
  · exact h

end Equals

namespace Expr

/-- The equals signs, which end a target or a name of an argument. -/
def equalsSigns : List String := [":=", "="]

theorem opens_ownerPieces {a : Expr} (h : Opens equalsSigns a.pieces) :
    Opens equalsSigns (ownerPieces a) := by
  unfold ownerPieces
  split
  · exact show "(" ∉ equalsSigns by decide
  · exact opens_wrapPieces _ (by decide) h

theorem opens_pieces : (e : Expr) → e.Printable → Opens equalsSigns e.pieces
  | .name _, h => IsName.not_mem h.regular (by decide)
  | .int _, h => (hasLiteralChar_toString h.regular.1).not_mem (by decide)
  | .float _, h => (hasLiteralChar_writeFloat h.regular).not_mem (by decide)
  | .str lit, _ => (hasLiteralChar_write lit).not_mem (by decide)
  | .bool true, _ | .bool false, _ | .none, _ => by simp [pieces, Opens, equalsSigns]
  | .bin o l r, h => by
    obtain ⟨-, hl, -⟩ := printable_bin.mp h
    rw [pieces]
    exact (opens_wrapPieces _ (by decide) (opens_pieces l hl)).append _
  | .unary .not _, _ | .unary .neg _, _ | .unary .pos _, _ | .unary .invert _, _ => by
    simp [pieces, Opens, equalsSigns, UnaryOp.symbol]
  | .logic o l r, h => by
    obtain ⟨-, hl, -⟩ := printable_logic.mp h
    rw [pieces]
    exact (opens_wrapPieces _ (by decide) (opens_pieces l hl)).append _
  | .compare l links, h => by
    obtain ⟨-, hl, -⟩ := printable_compare.mp h
    rw [pieces]
    exact (opens_wrapPieces _ (by decide) (opens_pieces l hl)).append _
  | .call f args, h => by
    obtain ⟨-, hf, -⟩ := printable_call.mp h
    rw [pieces_call]
    exact (opens_wrapPieces _ (by decide) (opens_pieces f hf)).append _
  | .attribute a n, h => by
    obtain ⟨-, ha⟩ := printable_attribute.mp h
    rw [pieces_attribute]
    exact (opens_ownerPieces (opens_pieces a ha)).append _
  | .subscript a i, h => by
    obtain ⟨-, ha, -⟩ := printable_subscript.mp h
    rw [pieces_subscript]
    exact (opens_wrapPieces _ (by decide) (opens_pieces a ha)).append _
  | .slice (some a) _ Option.none, h | .slice (some a) _ (some _), h => by
    obtain ⟨-, ha, -⟩ := printable_slice.mp h
    rw [pieces, piecesOption]
    exact (opens_wrapPieces _ (by decide) (opens_pieces a (ha a rfl))).append _
  | .slice Option.none _ Option.none, _ | .slice Option.none _ (some _), _ | .list _, _
  | .tuple _, _ | .set [], _ | .set (_ :: _), _ | .dict _, _ | .lambda _ _, _ | .starred _, _
  | .comp .list _ _ _, _ | .comp .set _ _ _, _ | .comp .dict _ _ _, _
  | .comp .generator _ _ _, _ => by
    simp [pieces, piecesOption, bracketPieces, Opens, equalsSigns]
  | .ifExp t a b, h => by
    obtain ⟨-, -, ha, -⟩ := printable_ifExp.mp h
    rw [pieces]
    exact (opens_wrapPieces _ (by decide) (opens_pieces a ha)).append _
  | .verbatim _, h => h.regular.elim

theorem opens_piecesList {items : List Expr} (h : ∀ i ∈ items, i.Printable) :
    ∀ part ∈ piecesList items, Opens equalsSigns part := by
  induction items with
  | nil => simp [piecesList]
  | cons e es ih =>
    obtain ⟨he, hes⟩ := List.forall_mem_cons.mp h
    rw [piecesList, List.forall_mem_cons]
    exact ⟨opens_wrapPieces _ (by decide) (opens_pieces e he), ih hes⟩

theorem opens_piecesEntries {entries : List (Expr × Expr)}
    (h : ∀ x ∈ entries, x.1.Printable ∧ x.2.Printable) :
    ∀ part ∈ piecesEntries entries, Opens equalsSigns part := by
  induction entries with
  | nil => simp [piecesEntries]
  | cons e es ih =>
    obtain ⟨he, hes⟩ := List.forall_mem_cons.mp h
    rw [piecesEntries, List.forall_mem_cons]
    exact ⟨(opens_wrapPieces _ (by decide) (opens_pieces e.1 he.1)).append _, ih hes⟩

theorem opens_piecesParams {note : Option String → Option (List Piece)} {ps : List Param}
    (h : ∀ p ∈ ps, p.Regular) : ∀ part ∈ piecesParams note ps, Opens equalsSigns part := by
  induction ps with
  | nil => simp [piecesParams]
  | cons p ps ih =>
    obtain ⟨name, kind, default, typeNote⟩ := p
    obtain ⟨hp, hps⟩ := List.forall_mem_cons.mp h
    rw [piecesParams, List.forall_mem_cons]
    refine ⟨?_, ih hps⟩
    cases kind with
    | regular => exact hp.1.not_mem (by decide)
    | varArgs | kwArgs | keywordOnly | positionalOnly => simp [paramPieces, Opens, equalsSigns]

/-- What stands between the brackets of a comprehension starts with its element. -/
theorem opens_compPieces {e : Expr} (kind : CompKind) (value clauses qs : List Piece)
    (h : e.Printable) : Opens equalsSigns (compPieces kind e e.pieces value clauses ++ qs) := by
  have he := opens_wrapPieces (e := e) 1 (by decide) (opens_pieces e h)
  cases kind <;> exact (he.append _).append _

theorem starts_wrapPieces {e : Expr} {min k : Nat} (h : Starts e.rank e.pieces) (hk : k ≤ min)
    (hk' : k ≤ 8 ∨ 10 ≤ k) : Starts k (wrapPieces min e e.pieces) := by
  unfold wrapPieces
  split
  · exact starts_cons k (by decide) (fun _ => by decide) (fun _ => by decide)
      (.inr ((h.first.mono (by decide)).append _))
  · exact h.mono (le_rank (by omega) hk')

/-- A bracket before something that is no equals sign. -/
theorem starts_bracket {b : String} {ps : List Piece} (rank : Nat) (hb : b ∈ ["(", "[", "\x7b"])
    (hps : Opens equalsSigns ps) : Starts rank (Piece.op b :: ps) := by
  simp only [List.mem_cons, List.not_mem_nil, or_false] at hb
  rcases hb with rfl | rfl | rfl
  all_goals
    exact starts_cons rank (by decide) (fun _ => by decide) (fun _ => by decide) (.inr hps)

theorem starts_ownerPieces {a : Expr} (h : Starts a.rank a.pieces) : Starts 16 (ownerPieces a) := by
  unfold ownerPieces
  split
  · have hopens : Opens equalsSigns _ := h.first.mono (by decide)
    exact starts_bracket 16 (by decide) ((opens_wrapPieces _ (by decide) hopens).append _)
  · exact starts_wrapPieces h (Nat.le_refl 16) (by decide)

theorem starts_pieces : (e : Expr) → e.isPlain = true → e.Printable → Starts e.rank e.pieces
  | .name _, _, h => IsName.starts h.regular _
  | .int _, _, h => starts_of_literal (hasLiteralChar_toString h.regular.1) _
  | .float _, _, h => starts_of_literal (hasLiteralChar_writeFloat h.regular) _
  | .str lit, _, _ => starts_of_literal (hasLiteralChar_write lit) _
  | .bool true, _, _ | .bool false, _, _ | .none, _, _ =>
    starts_cons _ (by decide) (fun _ => by decide) (fun _ => by decide) (.inl rfl)
  | .bin o l r, _, h => by
    obtain ⟨⟨hl, -⟩, hl', -⟩ := printable_bin.mp h
    have hmin : 7 ≤ (operandStrengths o).1 := by cases o <;> decide
    have hrank : rank (.bin o l r) < 15 := by
      rw [rank_bin]
      cases o <;> decide
    have hsymbol : o.symbol ∉ equalsSigns := by cases o <;> decide
    have hstarts : Starts 7 (wrapPieces (operandStrengths o).1 l l.pieces ++
        (Piece.op o.symbol).spaced :: Piece.after (wrapPieces (operandStrengths o).2 r r.pieces)) :=
      (starts_wrapPieces (starts_pieces l hl hl') hmin (by decide)).append (.inr hsymbol)
    obtain ⟨hfirst, hsecond, hword, -⟩ := hstarts
    rw [pieces]
    exact ⟨hfirst, hsecond, fun _ => hword (by decide), fun h15 => absurd h15 (by omega)⟩
  | .unary .not a, _, h => by
    obtain ⟨ha, ha'⟩ := printable_unary.mp h
    have hopens := (opens_wrapPieces (e := a) 5 (by decide) (opens_pieces a ha')).after
    rw [pieces]
    exact starts_cons 5 (by decide) (by omega) (by omega) (.inr hopens)
  | .unary .neg a, _, h | .unary .pos a, _, h | .unary .invert a, _, h => by
    obtain ⟨ha, ha'⟩ := printable_unary.mp h
    have hopens := opens_wrapPieces (e := a) 13 (by decide) (opens_pieces a ha')
    exact starts_cons 13 (by decide) (fun _ => by decide) (by omega) (.inr hopens)
  | .logic o l r, _, h => by
    obtain ⟨⟨hl, -⟩, hl', -⟩ := printable_logic.mp h
    have hmin : o.precedence ≤ 8 := by cases o <;> decide
    have hsymbol : o.symbol ∉ equalsSigns := by cases o <;> decide
    rw [pieces]
    exact (starts_wrapPieces (starts_pieces l hl hl') (Nat.le_refl _) (.inl hmin)).append
      (.inr hsymbol)
  | .compare l [], _, h => absurd rfl (printable_compare.mp h).1.2.1
  | .compare l ((o, e) :: links), _, h => by
    obtain ⟨⟨hl, -⟩, hl', -⟩ := printable_compare.mp h
    have hlink : Opens equalsSigns (piecesLinks ((o, e) :: links)) := by
      rw [piecesLinks]
      refine Opens.append ?_ _
      cases o <;> decide
    rw [pieces]
    exact ((starts_wrapPieces (starts_pieces l hl hl') (Nat.le_refl 7) (by decide)).mono
      (Nat.le_succ 6)).append (.inr hlink)
  | .call f args, _, h => by
    obtain ⟨⟨hf, -⟩, hf', -⟩ := printable_call.mp h
    rw [pieces_call]
    exact (starts_wrapPieces (starts_pieces f hf hf') (Nat.le_refl 16) (by decide)).append
      (.inr (opens_cons (by decide) _))
  | .attribute a n, _, h => by
    obtain ⟨⟨ha, -⟩, ha'⟩ := printable_attribute.mp h
    rw [pieces_attribute]
    exact (starts_ownerPieces (starts_pieces a ha ha')).append (.inr (opens_cons (by decide) _))
  | .subscript a i, _, h => by
    obtain ⟨⟨ha, -⟩, ha', -⟩ := printable_subscript.mp h
    rw [pieces_subscript]
    exact (starts_wrapPieces (starts_pieces a ha ha') (Nat.le_refl 16) (by decide)).append
      (.inr (opens_cons (by decide) _))
  | .list items, _, h => by
    obtain ⟨-, hitems⟩ := printable_list.mp h
    rw [pieces]
    exact starts_bracket _ (by decide) (opens_commas (opens_piecesList hitems) (by decide))
  | .tuple items, _, h => by
    obtain ⟨-, hitems⟩ := printable_tuple.mp h
    rw [pieces]
    exact starts_bracket _ (by decide) (opens_commasTuple (opens_piecesList hitems) (by decide))
  | .set [], _, h => absurd rfl (printable_set.mp h).1.1
  | .set (i :: is), _, h => by
    obtain ⟨-, hitems⟩ := printable_set.mp h
    have hopens := opens_piecesList hitems
    rw [piecesList] at hopens
    rw [pieces]
    exact starts_bracket _ (by decide) (opens_commas hopens (by decide))
  | .dict entries, _, h => by
    obtain ⟨-, hentries⟩ := printable_dict.mp h
    rw [pieces]
    exact starts_bracket _ (by decide) (opens_commas (opens_piecesEntries hentries) (by decide))
  | .comp kind e v clauses, _, h => by
    obtain ⟨-, he, -⟩ := printable_comp.mp h
    rw [pieces]
    cases kind <;> exact starts_bracket _ (by decide) (opens_compPieces _ _ _ _ he)
  | .ifExp t a b, _, h => by
    obtain ⟨⟨-, ha, -⟩, -, ha', -⟩ := printable_ifExp.mp h
    rw [pieces]
    exact ((starts_wrapPieces (starts_pieces a ha ha') (Nat.le_refl 3) (by decide)).mono
      (Nat.le_succ 2)).append (.inr (opens_cons (by decide) _))
  | .lambda ps b, _, h => by
    obtain ⟨⟨-, hps⟩, -⟩ := printable_lambda.mp h
    have hparams : ∀ p ∈ ps, p.Regular := fun p hp => (hps p hp).1
    rw [pieces]
    exact starts_cons 1 (by decide) (by omega) (by omega)
      (.inr (opens_after_commas (opens_piecesParams hparams) (opens_cons (by decide) _)))

end Expr

end Concord
