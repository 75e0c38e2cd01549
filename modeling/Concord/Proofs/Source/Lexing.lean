import Concord.Proofs.Source.Spelling
import Concord.Proofs.Tree.Literal

/-!
# Splitting printed lines into tokens

Pieces in a row are split into their own tokens again where each of them ends: the character after a
word cannot go on with it, the one after an operator makes no longer operator, and so on. `Splits` says
so for a row of pieces and the character after it. Splitting such a row gives tokens that spell it
(`tokensFrom_spell`), as long as there is no quote in the text, which could start a string.
-/

namespace Concord

open Source (TokenKind isGap isStringQuote isStringMark operators operator? takeNumber takeGroups
  takeOne takeExponent lexeme tokensFrom)

namespace Piece

/-- Whether the text is one token of its class when nothing follows. -/
def isProper (p : Piece) : Bool :=
  match p.kind with
  | .word =>
    match p.text.toList with
    | c :: cs => Identifier.isStart c && cs.all Identifier.isContinue
    | [] => false
  | .int => !p.text.toList.isEmpty && p.text.toList.all Char.isDigit
  | .op => operator? p.text.toList == some p.text.toList
  | _ => false

/-- The piece ends where `c` comes next. -/
def endsBefore (p : Piece) (c : Char) : Bool :=
  match p.kind with
  | .word => !Identifier.isContinue c
  | .int => !Identifier.isContinue c && c != '.'
  | .op => operators.all (fun o => !(p.text.toList ++ [c]).isPrefixOf o) &&
      (p.text != "." || !c.isDigit)
  | _ => false

/-- The first character of pieces in a row, or the one after them. -/
def firstChar (c : Char) : List Piece → Char
  | [] => c
  | p :: _ => if p.gap then ' ' else p.text.toList.headD ' '

/-- Every piece ends where the next one starts, and the last one where `c` comes next. -/
def Splits (c : Char) : List Piece → Prop
  | [] => True
  | p :: ps => p.isProper = true ∧ p.endsBefore (firstChar c ps) = true ∧ Splits c ps

instance (c : Char) : (ps : List Piece) → Decidable (Splits c ps)
  | [] => inferInstanceAs (Decidable True)
  | p :: ps =>
    have := instDecidableSplits c ps
    inferInstanceAs (Decidable (p.isProper = true ∧ p.endsBefore (firstChar c ps) = true ∧ _))

/-- What the text of a proper piece is made of. -/
theorem isProper_cases {p : Piece} (h : p.isProper = true) :
    (p.kind = .word ∧ ∃ c cs, p.text.toList = c :: cs ∧ Identifier.isStart c = true ∧
      cs.all Identifier.isContinue = true) ∨
    (p.kind = .int ∧ p.text.toList ≠ [] ∧ ∀ c ∈ p.text.toList, c.isDigit = true) ∨
    (p.kind = .op ∧ operator? p.text.toList = some p.text.toList) := by
  obtain ⟨gap, kind, text⟩ := p
  unfold isProper at h
  cases kind with
  | word =>
    refine .inl ⟨rfl, ?_⟩
    dsimp only at h ⊢
    split at h
    · rename_i c cs htext
      rw [Bool.and_eq_true] at h
      exact ⟨c, cs, htext, h⟩
    · cases h
  | int =>
    rw [Bool.and_eq_true, List.all_eq_true] at h
    exact .inr (.inl ⟨rfl, by simpa using h.1, h.2⟩)
  | op => exact .inr (.inr ⟨rfl, by simpa using h⟩)
  | _ => cases h

end Piece

namespace Source

/-! ## One token -/

theorem string?_eq_none (hole : List Char → Option (List (List Token) × List Char))
    {cs : List Char} (h : ∀ c ∈ cs, isStringQuote c = false) : string? hole cs = none := by
  unfold string?
  split
  · rfl
  · rename_i q rest hdrop
    have hq : q ∈ cs := by
      have : q ∈ cs.dropWhile isStringMark := by rw [hdrop]; exact List.mem_cons_self
      exact (List.dropWhile_sublist _).subset this
    rw [h q hq]
    rfl

theorem takeWhile_continue {cs : List Char} {c : Char} (rest : List Char)
    (hcs : cs.all Identifier.isContinue = true) (hc : Identifier.isContinue c = false) :
    (cs ++ c :: rest).takeWhile Identifier.isContinue = cs ∧
      (cs ++ c :: rest).dropWhile Identifier.isContinue = c :: rest := by
  have hcs' : ∀ a ∈ cs, Identifier.isContinue a = true := List.all_eq_true.mp hcs
  rw [List.takeWhile_append_of_pos hcs', List.dropWhile_append_of_pos hcs']
  simp [hc]

theorem lexeme_word {depth : Nat} {c d : Char} {cs rest : List Char}
    (hc : Identifier.isStart c = true) (hcs : cs.all Identifier.isContinue = true)
    (hd : Identifier.isContinue d = false)
    (hquote : ∀ x ∈ c :: (cs ++ d :: rest), isStringQuote x = false) :
    lexeme (depth + 1) (c :: (cs ++ d :: rest)) =
      { kind := .word, chars := c :: cs, rest := d :: rest } := by
  have hhash : (c == '#') = false := by
    rw [beq_eq_false_iff_ne]
    rintro rfl
    exact absurd hc (by decide +kernel)
  obtain ⟨htake, hdrop⟩ := takeWhile_continue rest hcs hd
  simp only [lexeme, string?_eq_none _ hquote, hhash, hc, htake, hdrop, if_true]
  rfl

/-! ### Numbers -/

theorem not_mem_of_not_continue {d : Char} {cs : List Char} (hd : Identifier.isContinue d = false)
    (hcs : cs.all Identifier.isContinue = true) : d ∉ cs := by
  intro hmem
  rw [List.all_eq_true.mp hcs d hmem] at hd
  cases hd

theorem takeOne_eq {allowed : List Char} {c : Char} (h : c ∉ allowed) (cs : List Char) :
    takeOne allowed (c :: cs) = ([], c :: cs) := by
  simp [takeOne, h]

theorem takeGroups_digits {cs rest : List Char} {d : Char} (hcs : ∀ c ∈ cs, c.isDigit = true)
    (hd : Identifier.isContinue d = false) :
    takeGroups Char.isDigit (cs ++ d :: rest) = (cs, d :: rest) := by
  induction cs with
  | nil =>
    have hdigit : d.isDigit = false := by
      rw [Bool.eq_false_iff]
      intro hdigit
      have hcontinue : Identifier.isContinue d = true :=
        Literal.forall_isDigit (P := fun c => Identifier.isContinue c = true) (by decide) hdigit
      rw [hcontinue] at hd
      cases hd
    have hscore : d ≠ '_' := by
      have hmem : d ∉ ['_'] := not_mem_of_not_continue hd (by decide)
      simpa using hmem
    simp [takeGroups, hdigit, hscore]
  | cons c cs ih =>
    obtain ⟨hc, hcs⟩ := List.forall_mem_cons.mp hcs
    unfold takeGroups
    rw [List.cons_append]
    dsimp only
    rw [if_pos hc, ih hcs]

/-- A character that stands for no base of a number. -/
theorem basedDigits?_eq_none {b : Char} (h : b ∉ ['x', 'X', 'o', 'O', 'b', 'B']) :
    basedDigits? b = none := by
  unfold basedDigits?
  split
  all_goals first | rfl | simp at h

/-- Without a base, a number that starts with a digit is read as a decimal one. -/
theorem takeNumber_digits {cs rest : List Char} {d : Char} (hne : cs ≠ [])
    (hcs : ∀ c ∈ cs, c.isDigit = true) (hd : Identifier.isContinue d = false) (hpoint : d ≠ '.') :
    takeNumber (cs ++ d :: rest) = (.int, cs, d :: rest) := by
  have hgroups : takeGroups Char.isDigit (cs ++ d :: rest) = (cs, d :: rest) :=
    takeGroups_digits hcs hd
  have hdot : takeOne ['.'] (d :: rest) = ([], d :: rest) := takeOne_eq (by simpa using hpoint) rest
  have hexp : takeExponent (d :: rest) = ([], d :: rest) := by
    have he : takeOne ['e', 'E'] (d :: rest) = ([], d :: rest) :=
      takeOne_eq (not_mem_of_not_continue hd (by decide)) rest
    simp [takeExponent, he]
  have hmark : takeOne ['l', 'L', 'j', 'J'] (d :: rest) = ([], d :: rest) :=
    takeOne_eq (not_mem_of_not_continue hd (by decide)) rest
  -- Only a letter after a leading zero would make another base.
  have hbase : ∀ b more, cs ++ d :: rest = '0' :: b :: more → basedDigits? b = none := by
    intro b more hcons
    apply basedDigits?_eq_none
    match cs, hne with
    | [c], _ =>
      have hb : d = b := by simpa using (List.cons.inj (List.cons.inj hcons).2).1
      exact hb ▸ not_mem_of_not_continue hd (by decide)
    | c :: c' :: cs, _ =>
      have hb : c' = b := (List.cons.inj (List.cons.inj hcons).2).1
      exact hb ▸ Literal.forall_isDigit (P := fun c => c ∉ ['x', 'X', 'o', 'O', 'b', 'B']) (by decide)
        (hcs c' (by simp))
  unfold takeNumber
  simp only [hgroups, hdot, hexp, hmark]
  split
  · rename_i b more hcons
    rw [hbase b more hcons]
    simp
  · simp

theorem lexeme_int {depth : Nat} {d : Char} {cs rest : List Char} (hne : cs ≠ [])
    (hcs : ∀ c ∈ cs, c.isDigit = true) (hd : Identifier.isContinue d = false) (hpoint : d ≠ '.')
    (hquote : ∀ x ∈ cs ++ d :: rest, isStringQuote x = false) :
    lexeme (depth + 1) (cs ++ d :: rest) = { kind := .int, chars := cs, rest := d :: rest } := by
  have hnumber : takeNumber (cs ++ d :: rest) = (.int, cs, d :: rest) :=
    takeNumber_digits hne hcs hd hpoint
  obtain ⟨c, cs, rfl⟩ := List.exists_cons_of_ne_nil hne
  have hc : c.isDigit = true := hcs c List.mem_cons_self
  have hhash : (c == '#') = false :=
    Literal.forall_isDigit (P := fun c => (c == '#') = false) (by decide) hc
  have hstart : Identifier.isStart c = false :=
    Literal.forall_isDigit (P := fun c => Identifier.isStart c = false) (by decide) hc
  have hstring := string?_eq_none (interpolation (lexeme depth) (depth + 1)) hquote
  rw [List.cons_append] at hnumber hstring ⊢
  simp [lexeme, hstring, hhash, hstart, hc, hnumber]

/-! ### Operators -/

/-- The longest operator at the start of a text is found when a character follows that does not go on
with it. -/
theorem operator?_append {cs rest : List Char} {d : Char} (h : operator? cs = some cs)
    (hd : ∀ o ∈ operators, (cs ++ [d]).isPrefixOf o = false) :
    operator? (cs ++ d :: rest) = some cs := by
  have hsame : ∀ o ∈ operators, o.isPrefixOf (cs ++ d :: rest) = o.isPrefixOf cs := by
    intro o ho
    have hlonger : ¬ cs ++ [d] <+: o := by
      rw [← List.isPrefixOf_iff_prefix, hd o ho]
      exact Bool.false_ne_true
    rw [Bool.eq_iff_iff, List.isPrefixOf_iff_prefix, List.isPrefixOf_iff_prefix]
    constructor
    · intro hop
      have hnext : cs ++ [d] <+: cs ++ d :: rest := ⟨rest, by simp⟩
      have hshort : o <+: cs ++ [d] := (List.prefix_or_prefix_of_prefix hop hnext).resolve_right hlonger
      obtain rfl | hshort := List.prefix_concat_iff.mp hshort
      · exact absurd (List.prefix_refl _) hlonger
      · exact hshort
    · intro hop
      exact hop.trans (List.prefix_append _ _)
  obtain ⟨hself, before, after, hsplit, hbefore⟩ := List.find?_eq_some_iff_append.mp h
  have hmem : cs ∈ operators := by simp [hsplit]
  refine List.find?_eq_some_iff_append.mpr ⟨?_, before, after, hsplit, fun o ho => ?_⟩
  · rw [hsame cs hmem]
    exact hself
  · rw [hsame o (by simp [hsplit, ho])]
    exact hbefore o ho

/-- The first character of an operator starts no other token. -/
theorem operators_head : ∀ o ∈ operators, ∃ c cs, o = c :: cs ∧ Identifier.isStart c = false ∧
    c.isDigit = false ∧ c ≠ '#' ∧ c ≠ '\\' ∧ isGap c = false := by
  intro o ho
  have hall : operators.all (fun o => match o with
      | c :: _ => !Identifier.isStart c && !c.isDigit && c != '#' && c != '\\' && !isGap c
      | [] => false) = true := by decide
  have := List.all_eq_true.mp hall o ho
  match o, this with
  | c :: cs, h =>
    simp only [Bool.and_eq_true, Bool.not_eq_true', bne_iff_ne, ne_eq] at h
    exact ⟨c, cs, rfl, h.1.1.1.1, h.1.1.1.2, h.1.1.2, h.1.2, h.2⟩

theorem lexeme_op {depth : Nat} {d : Char} {cs rest : List Char} (h : operator? cs = some cs)
    (hd : ∀ o ∈ operators, (cs ++ [d]).isPrefixOf o = false) (hpoint : cs = ['.'] → d.isDigit = false)
    (hquote : ∀ x ∈ cs ++ d :: rest, isStringQuote x = false) :
    lexeme (depth + 1) (cs ++ d :: rest) = { kind := .op, chars := cs, rest := d :: rest } := by
  have hop : operator? (cs ++ d :: rest) = some cs := operator?_append h hd
  obtain ⟨c, cs, rfl, hstart, hdigit, hhash, hslash, -⟩ :=
    operators_head cs (List.mem_of_find?_eq_some h)
  have hstring := string?_eq_none (interpolation (lexeme depth) (depth + 1)) hquote
  have hcontinuation : continuation? (c :: (cs ++ d :: rest)) = none := by
    unfold continuation?
    split
    all_goals first | rfl | simp_all
  have hnumber : c = '.' → (cs.head?.getD d).isDigit = false := by
    rintro rfl
    have hdots : ∀ o ∈ operators, o.head? = some '.' → o = ['.'] ∨ o.tail.head? = some '.' := by
      decide
    obtain hone | hmore := hdots _ (List.mem_of_find?_eq_some h) rfl
    · obtain rfl : cs = [] := (List.cons.inj hone).2
      exact hpoint rfl
    · have hdot : cs.head? = some '.' := hmore
      rw [hdot]
      rfl
  rw [List.cons_append] at hop hstring ⊢
  simp [lexeme, hstring, hhash, hstart, hdigit, hcontinuation, hop]
  intro hc hdot
  rw [hnumber hc] at hdot
  cases hdot

/-! ## Tokens in a row -/

/-- The token that a piece of its own becomes. -/
theorem lexeme_piece {depth : Nat} {p : Piece} {d : Char} {rest : List Char} (hp : p.isProper = true)
    (hd : p.endsBefore d = true)
    (hquote : ∀ x ∈ p.text.toList ++ d :: rest, isStringQuote x = false) :
    lexeme (depth + 1) (p.text.toList ++ d :: rest) =
      { kind := p.kind, chars := p.text.toList, rest := d :: rest } := by
  unfold Piece.endsBefore at hd
  obtain ⟨hkind, c, cs, htext, hc, hcs⟩ | ⟨hkind, hne, hdigits⟩ | ⟨hkind, hop⟩ :=
    Piece.isProper_cases hp
  · simp only [hkind, Bool.not_eq_true'] at hd
    rw [htext] at hquote ⊢
    rw [hkind]
    exact lexeme_word hc hcs hd hquote
  · simp only [hkind, Bool.and_eq_true, Bool.not_eq_true', bne_iff_ne] at hd
    rw [hkind]
    exact lexeme_int hne hdigits hd.1 hd.2 hquote
  · simp only [hkind, Bool.and_eq_true, List.all_eq_true, Bool.not_eq_true', Bool.or_eq_true,
      bne_iff_ne] at hd
    rw [hkind]
    refine lexeme_op hop hd.1 (fun htext => ?_) hquote
    exact hd.2.resolve_left fun hne => hne (String.toList_inj.mp htext)

theorem isGap_of_isStart {c : Char} (h : Identifier.isStart c = true) : isGap c = false := by
  rw [Bool.eq_false_iff]
  intro hgap
  have hmem : c.toNat ∈ [9, 10, 11, 12, 13, 0x20, 0xFEFF, 0x2060, 0x200B] := by
    simp only [isGap, Bool.or_eq_true, Bool.and_eq_true, decide_eq_true_eq, beq_iff_eq] at hgap
    simp only [List.mem_cons, List.not_mem_nil, or_false]
    omega
  have hall : ∀ n ∈ [9, 10, 11, 12, 13, 0x20, 0xFEFF, 0x2060, 0x200B],
      Identifier.isStart (Char.ofNat n) = false := by decide +kernel
  have hc := hall c.toNat hmem
  rw [Char.ofNat_toNat, h] at hc
  cases hc

theorem isContinue_of_isStart {c : Char} (h : Identifier.isStart c = true) :
    Identifier.isContinue c = true := by
  unfold Identifier.isStart at h
  unfold Identifier.isContinue
  split
  · rw [if_pos ‹_›] at h
    simp only [Bool.or_eq_true] at h ⊢
    exact h.imp_left fun halpha => by simp [Char.isAlphanum, halpha]
  · rw [if_neg ‹_›] at h
    simp [h]

/-- A piece starts with a character that is no blank. -/
theorem proper_head {p : Piece} (hp : p.isProper = true) :
    ∃ c cs, p.text.toList = c :: cs ∧ isGap c = false := by
  obtain ⟨-, c, cs, htext, hc, -⟩ | ⟨-, hne, hdigits⟩ | ⟨-, hop⟩ := Piece.isProper_cases hp
  · exact ⟨c, cs, htext, isGap_of_isStart hc⟩
  · obtain ⟨c, cs, htext⟩ := List.exists_cons_of_ne_nil hne
    have hc : c.isDigit = true := hdigits c (by simp [htext])
    exact ⟨c, cs, htext, Literal.forall_isDigit (P := fun c => isGap c = false) (by decide) hc⟩
  · obtain ⟨c, cs, htext, -, -, -, -, hc⟩ := operators_head _ (List.mem_of_find?_eq_some hop)
    exact ⟨c, cs, htext, hc⟩

theorem tokensFrom_step {depth fuel : Nat} {place : Place} {kind : TokenKind}
    {gap chars rest : List Char} (hgap : ∀ c ∈ gap, isGap c = true)
    (hchars : ∃ c cs, chars = c :: cs ∧ isGap c = false)
    (hlex : lexeme depth (chars ++ rest) = { kind, chars, rest }) :
    let start := gap.foldl Place.afterGap place
    let token := Lexeme.at { kind, chars, rest } gap start
    tokensFrom depth (fuel + 1) place (gap ++ (chars ++ rest)) =
      token :: tokensFrom depth fuel (start.afterToken token.isTrivia chars) rest := by
  obtain ⟨c, cs, rfl, hc⟩ := hchars
  have htake : (gap ++ (c :: cs ++ rest)).takeWhile isGap = gap := by
    rw [List.takeWhile_append_of_pos hgap]
    simp [hc]
  have hdrop : (gap ++ (c :: cs ++ rest)).dropWhile isGap = c :: cs ++ rest := by
    rw [List.dropWhile_append_of_pos hgap]
    simp [hc]
  simp only [tokensFrom, htake, hdrop, hlex]
  rfl

/-- A piece in the middle of a line becomes a token that spells it. -/
theorem tokensFrom_piece (depth fuel : Nat) {p : Piece} {d : Char} {rest : List Char} {start : Place}
    (hp : p.isProper = true) (hd : p.endsBefore d = true)
    (hquote : ∀ x ∈ p.text.toList ++ d :: rest, isStringQuote x = false) (hline : start.line = none) :
    ∃ t place, t.Spells p ∧ place.line = none ∧
      tokensFrom (depth + 1) (fuel + 1) start ((p.blank ++ p.text).toList ++ d :: rest) =
        t :: tokensFrom (depth + 1) fuel place (d :: rest) := by
  have hgap : ∀ c ∈ p.blank.toList, isGap c = true := by
    unfold Piece.blank
    split <;> decide
  have hsolid : (p.kind == .comment || p.kind == .continuation) = false := by
    obtain ⟨hkind, -⟩ | ⟨hkind, -⟩ | ⟨hkind, -⟩ := Piece.isProper_cases hp
    all_goals rw [hkind]; rfl
  let place := p.blank.toList.foldl Place.afterGap start
  have hplace : place.line = none := by
    unfold place Piece.blank
    split <;> exact hline
  let lexeme : Lexeme := { kind := p.kind, chars := p.text.toList, rest := d :: rest }
  have htoken : (lexeme.at p.blank.toList place).Spells p := by
    refine ⟨rfl, String.ofList_toList, ?_, rfl, hsolid⟩
    show place.line.map _ = none
    rw [hplace]
    rfl
  refine ⟨_, place.afterToken (lexeme.at p.blank.toList place).isTrivia p.text.toList, htoken, ?_, ?_⟩
  · show (if _ then place.line else none) = none
    rw [hplace, ite_self]
  · rw [String.toList_append, List.append_assoc]
    exact tokensFrom_step hgap (proper_head hp) (lexeme_piece hp hd hquote)

/-- A piece holds no quote. -/
theorem proper_quote {p : Piece} (hp : p.isProper = true) :
    ∀ x ∈ p.text.toList, isStringQuote x = false := by
  have hcontinue : ∀ x : Char, Identifier.isContinue x = true → isStringQuote x = false := by
    intro x hx
    rw [Bool.eq_false_iff]
    intro hquote
    simp only [isStringQuote, Bool.or_eq_true, beq_iff_eq] at hquote
    obtain (rfl | rfl) | rfl := hquote <;> exact absurd hx (by decide)
  intro x hx
  obtain ⟨-, c, cs, htext, hc, hcs⟩ | ⟨-, -, hdigits⟩ | ⟨-, hop⟩ := Piece.isProper_cases hp
  · refine hcontinue x ?_
    rw [htext] at hx
    obtain rfl | hx := List.mem_cons.mp hx
    · exact isContinue_of_isStart hc
    · exact List.all_eq_true.mp hcs x hx
  · exact Literal.forall_isDigit (P := fun c => isStringQuote c = false) (by decide) (hdigits x hx)
  · have hall : ∀ o ∈ operators, ∀ x ∈ o, isStringQuote x = false := by decide
    exact hall _ (List.mem_of_find?_eq_some hop) x hx

theorem firstChar_spell {c : Char} {ps : List Piece} (hps : Piece.Splits c ps) (rest : List Char) :
    ∃ cs, (Piece.spell ps).toList ++ c :: rest = Piece.firstChar c ps :: cs := by
  cases ps with
  | nil => exact ⟨rest, rfl⟩
  | cons p ps =>
    obtain ⟨c', cs, htext, -⟩ := proper_head hps.1
    obtain ⟨gap, kind, text⟩ := p
    cases gap with
    | true => exact ⟨text.toList ++ (Piece.spell ps).toList ++ c :: rest, by
        simp [Piece.firstChar, Piece.blank]⟩
    | false => exact ⟨cs ++ (Piece.spell ps).toList ++ c :: rest, by
        simp [Piece.firstChar, show text.toList = c' :: cs from htext]⟩

theorem spell_quote {c : Char} {ps : List Piece} (hps : Piece.Splits c ps) :
    ∀ x ∈ (Piece.spell ps).toList, isStringQuote x = false := by
  induction ps with
  | nil => simp
  | cons p ps ih =>
    have hblank : ∀ x ∈ p.blank.toList, isStringQuote x = false := by
      unfold Piece.blank
      split <;> decide
    rw [Piece.spell_cons, String.toList_append, String.toList_append]
    simp only [List.forall_mem_append]
    exact ⟨⟨hblank, proper_quote hps.1⟩, ih hps.2.2⟩

/-- Pieces in a row become tokens that spell them. -/
theorem tokensFrom_spell (depth fuel : Nat) {c : Char} {rest : List Char} {ps : List Piece}
    (hps : Piece.Splits c ps) (hquote : ∀ x ∈ c :: rest, isStringQuote x = false) {start : Place}
    (hline : start.line = none) :
    ∃ ts place, place.line = none ∧ (∀ us, Spells ps (ts ++ us) us) ∧
      tokensFrom (depth + 1) (fuel + ps.length) start ((Piece.spell ps).toList ++ c :: rest) =
        ts ++ tokensFrom (depth + 1) fuel place (c :: rest) := by
  induction ps generalizing start with
  | nil => exact ⟨[], start, hline, fun _ => rfl, rfl⟩
  | cons p ps ih =>
    obtain ⟨hp, hends, hps⟩ := hps
    obtain ⟨cs, hcs⟩ := firstChar_spell hps rest
    have hsplit : (Piece.spell (p :: ps)).toList ++ c :: rest =
        (p.blank ++ p.text).toList ++ ((Piece.spell ps).toList ++ c :: rest) := by
      simp [Piece.spell_cons]
    have hnext : ∀ x ∈ p.text.toList ++ Piece.firstChar c ps :: cs, isStringQuote x = false := by
      rw [← hcs]
      simp only [List.forall_mem_append]
      exact ⟨proper_quote hp, spell_quote hps, hquote⟩
    obtain ⟨t, mid, ht, hmid, hstep⟩ :=
      tokensFrom_piece depth (fuel + ps.length) hp hends hnext hline
    obtain ⟨ts, place, hplace, hspell, hrun⟩ := ih hps hmid
    refine ⟨t :: ts, place, hplace, fun us => ⟨t, ts ++ us, rfl, ht, hspell us⟩, ?_⟩
    rw [hsplit, hcs, List.length_cons, ← Nat.add_assoc, hstep, ← hcs, hrun]
    rfl

end Source

end Concord
