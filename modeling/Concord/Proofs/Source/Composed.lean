import Concord.Proofs.Source.Lexing
import Concord.Proofs.Source.Leading

/-!
# Composed expressions

Expressions composed of names, numbers, constants, operators, conditionals, calls and attributes, in
any nesting, also in those that no reader gives. They are printable, and their texts split into the
pieces they are made of (`Expr.Composed.splits`). The proof goes by induction over the nesting and asks
of each part only with which character it starts and which characters may come after it.
-/

namespace Concord

open Source (operators)

namespace Piece

variable {c : Char} {p : Piece} {ps qs : List Piece}

/-! ## Pieces that end -/

theorem firstChar_append (hps : ps ≠ []) : firstChar c (ps ++ qs) = firstChar c ps := by
  cases ps with
  | nil => exact absurd rfl hps
  | cons p ps => rfl

theorem firstChar_after (hps : ps ≠ []) : firstChar c (after ps) = ' ' := by
  cases ps with
  | nil => exact absurd rfl hps
  | cons p ps => rfl

theorem after_ne_nil (hps : ps ≠ []) : after ps ≠ [] := by
  cases ps with
  | nil => exact absurd rfl hps
  | cons p ps => exact List.cons_ne_nil _ _

theorem splits_append : Splits c (ps ++ qs) ↔ Splits (firstChar c qs) ps ∧ Splits c qs := by
  induction ps with
  | nil => simp [Splits]
  | cons p ps ih =>
    have hfirst : firstChar c (ps ++ qs) = firstChar (firstChar c qs) ps := by
      cases ps <;> rfl
    simp only [List.cons_append, Splits, ih, hfirst, and_assoc]

theorem splits_after : Splits c (after ps) ↔ Splits c ps := by
  cases ps with
  | nil => rfl
  | cons p ps => rfl

/-- Characters that make a longer operator of one. -/
def operatorTails : List Char := ['=', '>', '*', '/', '<', '.']

theorem endsBefore_op {s : String} (hs : s.toList ∈ operators) (hc : c ∉ operatorTails)
    (hpoint : s = "." → c.isDigit = false) : (op s).endsBefore c = true := by
  have htails : ∀ s ∈ operators, ∀ o ∈ operators, s.isPrefixOf o = true →
      (o.drop s.length).head?.all (operatorTails.contains ·) = true := by decide +kernel
  have hlonger : ∀ o ∈ operators, (s.toList ++ [c]).isPrefixOf o = false := by
    intro o ho
    rw [Bool.eq_false_iff, ne_eq, List.isPrefixOf_iff_prefix]
    rintro ⟨rest, rfl⟩
    have htail := htails s.toList hs _ ho (by simp)
    simp [hc] at htail
  simp only [endsBefore, op, Bool.and_eq_true, List.all_eq_true, Bool.not_eq_true',
    Bool.or_eq_true, bne_iff_ne]
  exact ⟨hlonger, or_iff_not_imp_left.mpr fun hs => hpoint (not_not.mp hs)⟩

/-- Brackets and commas end in any case. -/
theorem endsBefore_bracket {s : String} (hs : s ∈ ["(", ")", ","]) : (op s).endsBefore c = true := by
  have hpoint : s ≠ "." := by
    rintro rfl
    simp at hs
  have hlonger : ∀ s ∈ ["(", ")", ","], ∀ o ∈ operators, s.toList.isPrefixOf o = true →
      o = s.toList := by decide +kernel
  simp only [endsBefore, op, Bool.and_eq_true, List.all_eq_true, Bool.not_eq_true',
    Bool.or_eq_true, bne_iff_ne]
  refine ⟨fun o ho => ?_, .inl hpoint⟩
  rw [Bool.eq_false_iff, ne_eq, List.isPrefixOf_iff_prefix]
  rintro ⟨rest, rfl⟩
  have hsame := hlonger s hs _ ho (by simp)
  simp at hsame

/-! ## Rows that split -/

theorem splits_bracket {s : String} (hs : s ∈ ["(", ")", ","]) :
    Splits c (op s :: ps) ↔ Splits c ps := by
  have hproper : ∀ s ∈ ["(", ")", ","], (op s).isProper = true := by decide +kernel
  simp only [Splits, hproper s hs, endsBefore_bracket hs, true_and]

theorem splits_wrapPieces {e : Expr} {min : Nat} (hps : Splits c ps) (hparens : Splits ')' ps) :
    Splits c (Expr.wrapPieces min e ps) := by
  unfold Expr.wrapPieces
  split
  · rw [splits_bracket (by simp), splits_append]
    exact ⟨hparens, (splits_bracket (by simp)).mpr trivial⟩
  · exact hps

theorem splits_commas {parts : List (List Piece)}
    (h : ∀ part ∈ parts, part ≠ [] ∧ Splits ',' part ∧ Splits c part) : Splits c (commas parts) := by
  match parts with
  | [] => trivial
  | [part] => exact (h part (by simp)).2.2
  | part :: part' :: parts =>
    obtain ⟨⟨-, hcomma, -⟩, hrest⟩ := List.forall_mem_cons.mp h
    have ih := splits_commas hrest
    rw [commas, splits_append, splits_bracket (by simp), splits_after]
    · exact ⟨hcomma, ih⟩
    · simp

/-- A word or an operator between blanks. -/
theorem splits_spaced {left right : List Piece} (hp : p.isProper = true)
    (hends : p.endsBefore ' ' = true) (hleft : Splits ' ' left) (hright : Splits c right)
    (hfirst : firstChar c right = ' ') : Splits c (left ++ p.spaced :: right) := by
  rw [splits_append]
  refine ⟨hleft, hp, ?_, hright⟩
  rw [hfirst]
  exact hends

/-- What comes after a row counts for its last piece only. -/
theorem Splits.last {d : Char} (h : Splits d (ps ++ [p])) (hends : p.endsBefore c = true) :
    Splits c (ps ++ [p]) := by
  obtain ⟨hps, hp, -, -⟩ := splits_append.mp h
  exact splits_append.mpr ⟨hps, hp, hends, trivial⟩

end Piece

namespace Expr

/-- Expressions composed of names, numbers, constants, operators other than `&` and `^`, conditionals,
calls with arguments by position, and attributes. -/
inductive Composed : Expr → Prop
  | name {n : String} : IsName n → Composed (.name n)
  | int {v : Int} : 0 ≤ v → v ≤ Literal.maxInt → Composed (.int v)
  | bool (b : Bool) : Composed (.bool b)
  | none : Composed .none
  | bin {o : BinOp} {l r : Expr} :
    o ≠ .bitAnd → o ≠ .bitXor → Composed l → Composed r → Composed (.bin o l r)
  | unary (o : UnaryOp) {a : Expr} : Composed a → Composed (.unary o a)
  | logic (o : BoolOp) {l r : Expr} : Composed l → Composed r → Composed (.logic o l r)
  | compare {l : Expr} {links : List (CmpOp × Expr)} :
    links ≠ [] → Composed l → (∀ x ∈ links, Composed x.2) → Composed (.compare l links)
  | ifExp {t a b : Expr} : Composed t → Composed a → Composed b → Composed (.ifExp t a b)
  | call {f : Expr} {args : List Expr} :
    Composed f → (∀ a ∈ args, Composed a) → Composed (.call f (args.map .positional))
  | attr {a : Expr} {n : String} : IsName n → Composed a → Composed (.attribute a n)

namespace Composed

variable {e : Expr} {c : Char}

theorem isPlain (h : e.Composed) : e.isPlain = true := by
  cases h <;> rfl

theorem printable (h : e.Composed) : e.Printable := by
  induction h with
  | name hn => simpa [Printable, subterms, Regular] using hn
  | int hlow hhigh => simpa [Printable, subterms, Regular] using ⟨hlow, hhigh⟩
  | bool b => simp [Printable, subterms, Regular]
  | none => simp [Printable, subterms, Regular]
  | bin _ hxor hl hr ihl ihr =>
    exact printable_bin.mpr ⟨⟨hl.isPlain, hr.isPlain, fun h => absurd h hxor⟩, ihl, ihr⟩
  | unary o ha ih => exact printable_unary.mpr ⟨ha.isPlain, ih⟩
  | logic o hl hr ihl ihr => exact printable_logic.mpr ⟨⟨hl.isPlain, hr.isPlain⟩, ihl, ihr⟩
  | compare hne hl hlinks ihl ihlinks =>
    exact printable_compare.mpr ⟨⟨hl.isPlain, hne, fun x hx => (hlinks x hx).isPlain⟩, ihl, ihlinks⟩
  | ifExp ht ha hb iht iha ihb =>
    exact printable_ifExp.mpr ⟨⟨ht.isPlain, ha.isPlain, hb.isPlain⟩, iht, iha, ihb⟩
  | call hf hargs ihf ihargs =>
    refine printable_call.mpr ⟨⟨hf.isPlain, fun x hx => ?_⟩, ihf, fun x hx => ?_⟩
    · obtain ⟨a, ha, rfl⟩ := List.mem_map.mp hx
      exact ⟨(hargs a ha).isPlain, trivial⟩
    · obtain ⟨a, ha, rfl⟩ := List.mem_map.mp hx
      exact ihargs a ha
  | attr hn ha ih => exact printable_attribute.mpr ⟨⟨ha.isPlain, hn⟩, ih⟩

/-! ## Splitting -/

/-- A character with which an expression may start. -/
def IsFirst (c : Char) : Prop :=
  Identifier.isStart c = true ∨ c.isDigit = true ∨ c ∈ ['(', '-', '+', '~']

instance (c : Char) : Decidable (IsFirst c) := inferInstanceAs (Decidable (_ ∨ _ ∨ _))

theorem isFirst_paren : IsFirst '(' := .inr (.inr (by decide))

theorem IsFirst.not_mem {c : Char} (h : IsFirst c) : c ∉ Piece.operatorTails := by
  obtain h | h | h := h
  · intro hc
    have hall : ∀ c ∈ Piece.operatorTails, Identifier.isStart c = false := by decide
    rw [hall c hc] at h
    cases h
  · exact Literal.forall_isDigit (P := fun c => c ∉ Piece.operatorTails) (by decide) h
  · have hall : ∀ c ∈ ['(', '-', '+', '~'], c ∉ Piece.operatorTails := by decide
    exact hall c h

theorem isFirst_wrapPieces {min : Nat} {ps : List Piece} (h : IsFirst (Piece.firstChar c ps)) :
    IsFirst (Piece.firstChar c (wrapPieces min e ps)) := by
  unfold wrapPieces
  split
  · exact isFirst_paren
  · exact h

/-- A number that is not negative is written with digits only. -/
theorem digits_toString {v : Int} (h : 0 ≤ v) :
    ∃ d ds, (toString v).toList = d :: ds ∧ ∀ x ∈ d :: ds, x.isDigit = true := by
  obtain ⟨n, rfl⟩ := Int.eq_ofNat_of_zero_le h
  have htext : (toString (n : Int)).toList = Nat.toDigits 10 n := Nat.toList_repr
  obtain ⟨d, ds, hdigits⟩ := List.exists_cons_of_ne_nil (Nat.toDigits_ne_nil (b := 10) (n := n))
  refine ⟨d, ds, htext.trans hdigits, ?_⟩
  rw [← hdigits]
  exact fun x hx => Nat.isDigit_of_mem_toDigits (by decide) (by decide) hx

theorem isFirst_word {n : String} (hn : IsName n) (ps : List Piece) :
    IsFirst (Piece.firstChar c (Piece.word n :: ps)) := by
  obtain ⟨⟨d, ds, htext, hd, -⟩, -⟩ := hn
  left
  simpa [Piece.firstChar, Piece.word, htext] using hd

theorem isFirst_pieces (h : e.Composed) : IsFirst (Piece.firstChar c e.pieces) := by
  have happend {min : Nat} {a : Expr} (ih : IsFirst (Piece.firstChar c a.pieces)) (qs : List Piece) :
      IsFirst (Piece.firstChar c (wrapPieces min a a.pieces ++ qs)) := by
    rw [Piece.firstChar_append (wrapPieces_ne_nil min a)]
    exact isFirst_wrapPieces ih
  induction h with
  | name hn => exact isFirst_word hn []
  | @int v hlow hhigh =>
    obtain ⟨d, ds, htext, hd⟩ := digits_toString hlow
    right; left
    rw [show Piece.firstChar c (Expr.int v).pieces = (toString v).toList.headD ' ' from rfl, htext]
    exact hd d List.mem_cons_self
  | bool b =>
    cases b with
    | true => exact .inl (show Identifier.isStart 'T' = true by decide)
    | false => exact .inl (show Identifier.isStart 'F' = true by decide)
  | none => exact .inl (show Identifier.isStart 'N' = true by decide)
  | bin _ _ _ _ ihl _ =>
    rw [pieces]
    exact happend ihl _
  | unary o _ _ =>
    cases o with
    | not => exact .inl (show Identifier.isStart 'n' = true by decide)
    | neg => exact .inr (.inr (show '-' ∈ ['(', '-', '+', '~'] by decide))
    | pos => exact .inr (.inr (show '+' ∈ ['(', '-', '+', '~'] by decide))
    | invert => exact .inr (.inr (show '~' ∈ ['(', '-', '+', '~'] by decide))
  | logic o _ _ ihl _ =>
    rw [pieces]
    exact happend ihl _
  | compare _ _ _ ihl _ =>
    rw [pieces]
    exact happend ihl _
  | ifExp _ _ _ _ iha _ =>
    rw [pieces]
    exact happend iha _
  | call _ _ ihf _ =>
    rw [pieces_call]
    exact happend ihf _
  | attr _ _ ih =>
    rw [pieces_attribute]
    unfold ownerPieces
    split
    · exact isFirst_paren
    · exact happend ih _

/-- Characters that may come after an expression, where no attribute is taken of it. -/
def closers : List Char := [' ', ')', ',', '(', '\n']

theorem closers_word {n : String} (hc : c ∈ '.' :: closers) : (Piece.word n).endsBefore c = true := by
  have hall : ∀ c ∈ '.' :: closers, Identifier.isContinue c = false := by decide
  simp [Piece.endsBefore, Piece.word, hall c hc]

/-- A name alone, or after a point. -/
theorem splits_name {n : String} (hn : IsName n) (hc : c ∈ '.' :: closers) :
    Piece.Splits c [Piece.word n] := by
  obtain ⟨⟨d, ds, htext, hd, hds⟩, -⟩ := hn
  refine ⟨?_, closers_word hc, trivial⟩
  simp [Piece.isProper, Piece.word, htext, hd, hds]

/-- A keyword alone. -/
theorem splits_keyword {n : String} (hn : (Piece.word n).isProper = true)
    (hc : c ∈ '.' :: closers) : Piece.Splits c [Piece.word n] :=
  ⟨hn, closers_word hc, trivial⟩

theorem splits_int {v : Int} (h : 0 ≤ v) (hc : c ∈ closers) : Piece.Splits c (Expr.int v).pieces := by
  have hall : ∀ c ∈ closers, (!Identifier.isContinue c && c != '.') = true := by decide
  obtain ⟨d, ds, htext, hdigits⟩ := digits_toString h
  refine ⟨?_, hall c hc, trivial⟩
  show (!(toString v).toList.isEmpty && (toString v).toList.all Char.isDigit) = true
  rw [htext, List.all_eq_true.mpr hdigits]
  rfl

theorem firstChar_links {links : List (CmpOp × Expr)} (hc : c ∈ closers) :
    Piece.firstChar c (piecesLinks links) ∈ closers := by
  cases links with
  | nil => exact hc
  | cons x links =>
    obtain ⟨o, a⟩ := x
    rw [piecesLinks]
    cases o <;> exact (by decide : ' ' ∈ closers)

theorem splits_links {links : List (CmpOp × Expr)}
    (h : ∀ x ∈ links, ∀ c ∈ closers, Piece.Splits c x.2.pieces) (hc : c ∈ closers) :
    Piece.Splits c (piecesLinks links) := by
  induction links with
  | nil => trivial
  | cons x links ih =>
    obtain ⟨o, a⟩ := x
    obtain ⟨ha, hlinks⟩ := List.forall_mem_cons.mp h
    have hne : wrapPieces 7 a a.pieces ≠ [] := wrapPieces_ne_nil 7 a
    have hnext : Piece.firstChar c (piecesLinks links) ∈ closers := firstChar_links hc
    have hlink : Piece.Splits ' ' (linkPieces o) := by cases o <;> decide +kernel
    rw [piecesLinks, Piece.splits_append, Piece.splits_append, Piece.splits_after]
    refine ⟨?_, Piece.splits_wrapPieces (ha _ hnext) (ha _ (by decide)), ih hlinks⟩
    rw [Piece.firstChar_append, Piece.firstChar_after hne]
    · exact hlink
    · exact Piece.after_ne_nil hne

theorem argumentPieces_positional {args : List Expr} (h : ∀ a ∈ args, a.Composed) :
    argumentPieces (args.map .positional) =
      Piece.commas (args.map fun a => wrapPieces 1 a a.pieces) := by
  have hargs : piecesArgs (args.map .positional) = args.map fun a => wrapPieces 1 a a.pieces := by
    clear h
    induction args with
    | nil => rw [List.map_nil, piecesArgs, List.map_nil]
    | cons a args ih => rw [List.map_cons, piecesArgs, List.map_cons, ih]
  rw [← hargs]
  unfold argumentPieces
  split
  · -- A lone generator argument would go without parentheses of its own, but none is composed.
    rename_i a v clauses hcomp
    obtain ⟨x, rfl, hx⟩ := List.map_eq_singleton_iff.mp hcomp
    obtain rfl := ArgOf.positional.inj hx
    cases h _ List.mem_cons_self
  · rfl

/-- A point may follow whatever binds as tightly as an attribute, except a number. -/
theorem exists_last (h : e.Composed) (hint : ∀ v, e ≠ .int v) (hmin : ¬ e.precedence < 16) :
    ∃ ps p, e.pieces = ps ++ [p] ∧ p.endsBefore '.' = true := by
  have hword (n : String) : (Piece.word n).endsBefore '.' = true := closers_word List.mem_cons_self
  cases h with
  | @name n _ => exact ⟨[], .word n, rfl, hword n⟩
  | int _ _ => exact absurd rfl (hint _)
  | bool b => cases b <;> exact ⟨[], _, rfl, hword _⟩
  | none => exact ⟨[], _, rfl, hword _⟩
  | @bin o l r => exact absurd (show o.precedence < 16 by cases o <;> decide) hmin
  | unary o _ => cases o <;> exact absurd (by simp [precedence]) hmin
  | @logic o l r => exact absurd (show o.precedence < 16 by cases o <;> decide) hmin
  | compare _ _ _ => exact absurd (show 6 < 16 by decide) hmin
  | ifExp _ _ _ => exact absurd (show 2 < 16 by decide) hmin
  | call _ _ =>
    rw [pieces_call, ← List.cons_append, ← List.append_assoc]
    exact ⟨_, _, rfl, Piece.endsBefore_bracket (by simp)⟩
  | @attr a n _ _ =>
    rw [pieces_attribute]
    exact ⟨ownerPieces a ++ [.op "."], .word n, by simp, hword n⟩

/-- What an attribute is taken of: a number stands in parentheses there. -/
theorem splits_owner (h : e.Composed) (hs : ∀ c ∈ closers, Piece.Splits c e.pieces) :
    Piece.Splits '.' (ownerPieces e) := by
  have hparens {ps : List Piece} (hps : Piece.Splits ')' ps) :
      Piece.Splits '.' (Piece.op "(" :: (ps ++ [Piece.op ")"])) := by
    rw [Piece.splits_bracket (by simp), Piece.splits_append]
    exact ⟨hps, (Piece.splits_bracket (by simp)).mpr trivial⟩
  unfold ownerPieces
  split
  · exact hparens (Piece.splits_wrapPieces (hs _ (by decide)) (hs _ (by decide)))
  · rename_i hint
    unfold wrapPieces
    split
    · exact hparens (hs _ (by decide))
    · rename_i hmin
      -- A point is not among `closers`; only the last piece has to stand it.
      obtain ⟨ps, p, hps, hp⟩ := h.exists_last hint hmin
      have hlast := hs ' ' (by decide)
      rw [hps] at hlast ⊢
      exact hlast.last hp

theorem splits (h : e.Composed) (hc : c ∈ closers) : Piece.Splits c e.pieces := by
  have hspace : ' ' ∈ closers := by decide
  have hclose : ')' ∈ closers := by decide
  have hwrap {min : Nat} {a : Expr} (ih : ∀ {c}, c ∈ closers → Piece.Splits c a.pieces) {c : Char}
      (hc : c ∈ closers) : Piece.Splits c (wrapPieces min a a.pieces) :=
    Piece.splits_wrapPieces (ih hc) (ih hclose)
  induction h generalizing c with
  | name hn => exact splits_name hn (List.mem_cons_of_mem _ hc)
  | int hlow hhigh => exact splits_int hlow hc
  | bool b =>
    have hword := List.mem_cons_of_mem '.' hc
    cases b with
    | true => exact splits_keyword (by decide +kernel) hword
    | false => exact splits_keyword (by decide +kernel) hword
  | none => exact splits_keyword (by decide +kernel) (List.mem_cons_of_mem '.' hc)
  | @bin o l r _ _ _ _ ihl ihr =>
    rw [pieces]
    refine Piece.splits_spaced ?_ ?_ (hwrap ihl hspace) (Piece.splits_after.mpr (hwrap ihr hc))
      (Piece.firstChar_after (wrapPieces_ne_nil _ r))
    · cases o <;> decide +kernel
    · cases o <;> decide +kernel
  | @unary o a ha ih =>
    have hoperand (min : Nat) : Piece.Splits c (wrapPieces min a a.pieces) := hwrap ih hc
    -- A sign stands right before its operand, so the two must not make a longer operator.
    have hfirst : Piece.firstChar c (wrapPieces 13 a a.pieces) ∉ Piece.operatorTails :=
      (isFirst_wrapPieces ha.isFirst_pieces).not_mem
    cases o with
    | not =>
      rw [pieces]
      refine ⟨by decide +kernel, ?_, Piece.splits_after.mpr (hoperand 5)⟩
      rw [Piece.firstChar_after (wrapPieces_ne_nil 5 a)]
      decide +kernel
    | neg | pos | invert =>
      exact ⟨by decide +kernel, Piece.endsBefore_op (by decide) hfirst nofun, hoperand 13⟩
  | @logic o l r _ _ ihl ihr =>
    rw [pieces]
    refine Piece.splits_spaced ?_ ?_ (hwrap ihl hspace) (Piece.splits_after.mpr (hwrap ihr hc))
      (Piece.firstChar_after (wrapPieces_ne_nil _ r))
    · cases o <;> decide +kernel
    · cases o <;> decide +kernel
  | @compare l links hne _ _ ihl ihlinks =>
    rw [pieces, Piece.splits_append]
    refine ⟨hwrap ihl ?_, splits_links (fun x hx c hc => ihlinks x hx hc) hc⟩
    obtain ⟨⟨o, a⟩, links, rfl⟩ := List.exists_cons_of_ne_nil hne
    exact firstChar_links hc
  | @ifExp t a b _ _ _ iht iha ihb =>
    rw [pieces]
    have hafter (min : Nat) (x : Expr) (c : Char) :
        Piece.firstChar c (Piece.after (wrapPieces min x x.pieces)) = ' ' :=
      Piece.firstChar_after (wrapPieces_ne_nil min x)
    have htest : Piece.Splits ' ' (Piece.after (wrapPieces 3 t t.pieces)) :=
      Piece.splits_after.mpr (hwrap iht hspace)
    have horelse : Piece.Splits c (Piece.after (wrapPieces 2 b b.pieces)) :=
      Piece.splits_after.mpr (hwrap ihb hc)
    have helse := Piece.splits_spaced (p := Piece.word "else") (by decide +kernel) (by decide +kernel)
      htest horelse (hafter 2 b c)
    refine Piece.splits_spaced (by decide +kernel) (by decide +kernel) (hwrap iha hspace) helse ?_
    rw [Piece.firstChar_append (Piece.after_ne_nil (wrapPieces_ne_nil 3 t))]
    exact hafter 3 t c
  | @call f args _ hargs ihf ihargs =>
    rw [pieces_call, Piece.splits_append, Piece.splits_bracket (by simp), Piece.splits_append,
      Piece.splits_bracket (by simp)]
    refine ⟨hwrap ihf (show '(' ∈ closers by decide), ?_, trivial⟩
    rw [argumentPieces_positional hargs]
    refine Piece.splits_commas fun part hpart => ?_
    obtain ⟨a, ha, rfl⟩ := List.mem_map.mp hpart
    exact ⟨wrapPieces_ne_nil 1 a, hwrap (ihargs a ha) (by decide), hwrap (ihargs a ha) hclose⟩
  | @attr a n hn ha ih =>
    rw [pieces_attribute, Piece.splits_append]
    obtain ⟨d, ds, htext, hd, -⟩ := hn.1
    refine ⟨splits_owner ha fun c hc => ih hc, by decide +kernel, ?_,
      splits_name hn (List.mem_cons_of_mem _ hc)⟩
    have hfirst : Piece.firstChar c [Piece.word n] = d := by
      simp [Piece.firstChar, Piece.word, htext]
    rw [hfirst]
    refine Piece.endsBefore_op (by decide) (IsFirst.not_mem (.inl hd)) fun _ => ?_
    rw [Bool.eq_false_iff]
    intro hdigit
    have hstart : Identifier.isStart d = false :=
      Literal.forall_isDigit (P := fun c => Identifier.isStart c = false) (by decide) hdigit
    rw [hstart] at hd
    cases hd

end Composed

end Expr

end Concord
