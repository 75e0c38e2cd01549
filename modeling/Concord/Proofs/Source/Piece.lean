import Concord.Proofs.Source.Printable
import Concord.Tree.Printer

/-!
# Printed texts as pieces

A printed line is a sequence of pieces: the tokens that reading it gives, each with or without a
blank before it. `Expr.pieces` follows the printer construct by construct, and `Expr.text_eq_spell`
says that the printed text is what its pieces spell. Reading can then be studied on pieces, and
splitting a text into tokens once for all of them.
-/

namespace Concord

open Source (TokenKind)

/-- A token of a printed line, with or without a blank before it. -/
structure Piece where
  gap : Bool
  kind : TokenKind
  text : String
deriving DecidableEq

namespace Piece

/-- A word that follows directly. -/
def word (s : String) : Piece := ⟨false, .word, s⟩

/-- An operator or bracket that follows directly. -/
def op (s : String) : Piece := ⟨false, .op, s⟩

/-- The piece with a blank before it. -/
def spaced (p : Piece) : Piece := { p with gap := true }

/-- The blank before a piece, if there is one. -/
def blank (p : Piece) : String := if p.gap then " " else ""

/-- The text of pieces in a row. -/
def spell : List Piece → String
  | [] => ""
  | p :: ps => p.blank ++ p.text ++ spell ps

/-- Put a blank before the first piece. -/
def after : List Piece → List Piece
  | [] => []
  | p :: ps => p.spaced :: ps

/-- Groups of pieces divided by commas. -/
def commas : List (List Piece) → List Piece
  | [] => []
  | [part] => part
  | part :: parts => part ++ op "," :: after (commas parts)

/-- Groups of pieces divided by commas, with a comma after a single one. -/
def commasTuple : List (List Piece) → List Piece
  | [part] => part ++ [op ","]
  | parts => commas parts

@[simp] theorem spell_nil : spell [] = "" := rfl

@[simp] theorem spell_cons (p : Piece) (ps : List Piece) :
    spell (p :: ps) = p.blank ++ p.text ++ spell ps := rfl

@[simp] theorem spell_append (ps qs : List Piece) : spell (ps ++ qs) = spell ps ++ spell qs := by
  induction ps with
  | nil => simp
  | cons p ps ih => simp [ih, String.append_assoc]

@[simp] theorem blank_word (s : String) : (word s).blank = "" := rfl

@[simp] theorem blank_op (s : String) : (op s).blank = "" := rfl

@[simp] theorem blank_tight (kind : TokenKind) (s : String) :
    (⟨false, kind, s⟩ : Piece).blank = "" := rfl

@[simp] theorem blank_spaced (p : Piece) : p.spaced.blank = " " := rfl

@[simp] theorem text_word (s : String) : (word s).text = s := rfl

@[simp] theorem text_op (s : String) : (op s).text = s := rfl

@[simp] theorem text_spaced (p : Piece) : p.spaced.text = p.text := rfl

/-- Pieces that start with one that follows directly. -/
def Tight : List Piece → Prop
  | [] => False
  | p :: _ => p.gap = false

theorem Tight.append {ps : List Piece} (h : Tight ps) (qs : List Piece) : Tight (ps ++ qs) := by
  cases ps with
  | nil => exact h.elim
  | cons p ps => exact h

theorem spell_after {ps : List Piece} (h : Tight ps) : spell (after ps) = " " ++ spell ps := by
  cases ps with
  | nil => exact h.elim
  | cons p ps =>
    have hgap : p.blank = "" := by
      unfold blank
      rw [h]
      rfl
    simp [after, hgap, String.append_assoc]

@[simp] theorem length_after (ps : List Piece) : (after ps).length = ps.length := by
  cases ps <;> rfl

theorem tight_commas {parts : List (List Piece)} (hne : parts ≠ [])
    (h : ∀ part ∈ parts, Tight part) : Tight (commas parts) := by
  match parts, hne with
  | [part], _ => exact h part (by simp)
  | part :: part' :: parts, _ => exact (h part (by simp)).append _

theorem spell_commas {parts : List (List Piece)} (h : ∀ part ∈ parts, Tight part) :
    spell (commas parts) = Expr.commas (parts.map spell) := by
  match parts with
  | [] => rfl
  | [part] => simp [commas, Expr.commas]
  | part :: part' :: parts =>
    have hrest : ∀ q ∈ part' :: parts, Tight q := fun q hq => h q (List.mem_cons_of_mem _ hq)
    have ih := spell_commas hrest
    have htight := tight_commas (by simp) hrest
    simp only [commas, spell_append, spell_cons, blank_op, text_op, spell_after htight, ih]
    simp only [Expr.commas, List.map_cons, String.intercalate_cons_cons]
    rw [show ", " = "," ++ " " from rfl]
    simp only [String.append_assoc, String.empty_append]

theorem spell_commasTuple {parts : List (List Piece)} (h : ∀ part ∈ parts, Tight part) :
    spell (commasTuple parts) = Expr.commasTuple (parts.map spell) := by
  match parts with
  | [] => rfl
  | [part] => simp [commasTuple, Expr.commasTuple]
  | part :: part' :: parts =>
    have ih := spell_commas h
    simpa [commasTuple, Expr.commasTuple] using ih

end Piece

namespace Expr

/-- Put pieces into parentheses where the expression binds less tightly than `min`. -/
def wrapPieces (min : Nat) (e : Expr) (ps : List Piece) : List Piece :=
  if e.precedence < min then Piece.op "(" :: (ps ++ [Piece.op ")"]) else ps

/-- The brackets of a comprehension around its inner pieces. -/
def bracketPieces : CompKind → List Piece → List Piece
  | .list, ps => Piece.op "[" :: (ps ++ [Piece.op "]"])
  | .set, ps | .dict, ps => Piece.op "\x7b" :: (ps ++ [Piece.op "\x7d"])
  | .generator, ps => Piece.op "(" :: (ps ++ [Piece.op ")"])

/-- The words of a comparison operator. -/
def linkPieces : CmpOp → List Piece
  | .notSame => [(Piece.word "is").spaced, (Piece.word "not").spaced]
  | .notMember => [(Piece.word "not").spaced, (Piece.word "in").spaced]
  | .same => [(Piece.word "is").spaced]
  | .member => [(Piece.word "in").spaced]
  | o => [(Piece.op o.symbol).spaced]

/-- The pieces of the inside of a comprehension, from the pieces of its parts. -/
def compPieces (kind : CompKind) (e : Expr) (element value clauses : List Piece) : List Piece :=
  match kind with
  | .dict => wrapPieces 1 e element ++ Piece.op ":" :: (Piece.after value ++ clauses)
  | _ => wrapPieces 1 e element ++ clauses

/-- The pieces of a parameter, from those of its annotation and of its default. -/
def paramPieces (n : String) (kind : ParamKind) (note default : Option (List Piece)) : List Piece :=
  let tail :=
    (match note with
      | some a => Piece.op ":" :: Piece.after a
      | Option.none => []) ++
    (match default with
      | some d =>
        if note.isSome then (Piece.op "=").spaced :: Piece.after d else Piece.op "=" :: d
      | Option.none => [])
  match kind with
  | .regular => .word n :: tail
  | .varArgs => .op "*" :: .word n :: tail
  | .kwArgs => .op "**" :: .word n :: tail
  | .keywordOnly => [.op "*"]
  | .positionalOnly => [.op "/"]

mutual

/-- The pieces of the text of an expression. -/
def pieces : Expr → List Piece
  | .name n => [.word n]
  | .int v => [⟨false, .int, toString v⟩]
  | .float v => [⟨false, .float, Literal.writeFloat v⟩]
  | .str lit => [⟨false, .string, String.ofList lit.write⟩]
  | .bool true => [.word "True"]
  | .bool false => [.word "False"]
  | .none => [.word "None"]
  | .bin o l r =>
    wrapPieces (operandStrengths o).1 l (pieces l) ++
      (Piece.op o.symbol).spaced :: Piece.after (wrapPieces (operandStrengths o).2 r (pieces r))
  | .unary .not a => .word "not" :: Piece.after (wrapPieces 5 a (pieces a))
  | .unary o a => .op o.symbol :: wrapPieces 13 a (pieces a)
  | .logic o l r =>
    wrapPieces o.precedence l (pieces l) ++
      (Piece.word o.symbol).spaced :: Piece.after (wrapPieces (o.precedence + 1) r (pieces r))
  | .compare l links => wrapPieces 7 l (pieces l) ++ piecesLinks links
  | .call f [.positional (.comp .generator e v clauses)] =>
    wrapPieces 16 f (pieces f) ++ Piece.op "(" ::
      (compPieces .generator e (pieces e) (piecesOption 1 v) (piecesClauses clauses) ++
        [Piece.op ")"])
  | .call f args =>
    wrapPieces 16 f (pieces f) ++ Piece.op "(" ::
      (Piece.commas (piecesArgs args) ++ [Piece.op ")"])
  | .attribute (.int v) n =>
    Piece.op "(" :: (wrapPieces 16 (.int v) [⟨false, .int, toString v⟩] ++
      [Piece.op ")", .op ".", .word n])
  | .attribute a n => wrapPieces 16 a (pieces a) ++ [.op ".", .word n]
  | .subscript a (.tuple (i :: is)) =>
    wrapPieces 16 a (pieces a) ++ Piece.op "[" ::
      (Piece.commasTuple (wrapPieces 1 i (pieces i) :: piecesList is) ++ [Piece.op "]"])
  | .subscript a i =>
    wrapPieces 16 a (pieces a) ++ Piece.op "[" :: (wrapPieces 1 i (pieces i) ++ [Piece.op "]"])
  | .slice a b Option.none => piecesOption 2 a ++ Piece.op ":" :: piecesOption 2 b
  | .slice a b (some c) =>
    piecesOption 2 a ++ Piece.op ":" ::
      (piecesOption 2 b ++ Piece.op ":" :: wrapPieces 2 c (pieces c))
  | .list items => Piece.op "[" :: (Piece.commas (piecesList items) ++ [Piece.op "]"])
  | .tuple items => Piece.op "(" :: (Piece.commasTuple (piecesList items) ++ [Piece.op ")"])
  | .set [] => [.word "set", .op "(", .op ")"]
  | .set (i :: is) =>
    Piece.op "\x7b" ::
      (Piece.commas (wrapPieces 1 i (pieces i) :: piecesList is) ++ [Piece.op "\x7d"])
  | .dict entries =>
    Piece.op "\x7b" :: (Piece.commas (piecesEntries entries) ++ [Piece.op "\x7d"])
  | .comp kind e v clauses =>
    bracketPieces kind (compPieces kind e (pieces e) (piecesOption 1 v) (piecesClauses clauses))
  | .ifExp t a b =>
    wrapPieces 3 a (pieces a) ++ (Piece.word "if").spaced ::
      (Piece.after (wrapPieces 3 t (pieces t)) ++ (Piece.word "else").spaced ::
        Piece.after (wrapPieces 2 b (pieces b)))
  | .lambda ps b =>
    Piece.word "lambda" :: (Piece.after (Piece.commas (piecesParams (fun _ => Option.none) ps)) ++
      Piece.op ":" :: Piece.after (wrapPieces 1 b (pieces b)))
  | .starred a => .op "*" :: wrapPieces 16 a (pieces a)
  | .verbatim t => [.word t]

/-- `pieces` of an optional expression. -/
def piecesOption (min : Nat) : Option Expr → List Piece
  | Option.none => []
  | some e => wrapPieces min e (pieces e)

/-- `pieces` of the items of a display. -/
def piecesList : List Expr → List (List Piece)
  | [] => []
  | e :: es => wrapPieces 1 e (pieces e) :: piecesList es

/-- `pieces` of the operators and right operands of a comparison. -/
def piecesLinks : List (CmpOp × Expr) → List Piece
  | [] => []
  | (o, e) :: ls => linkPieces o ++ (Piece.after (wrapPieces 7 e (pieces e)) ++ piecesLinks ls)

/-- `pieces` of arguments. -/
def piecesArgs : List (ArgOf Expr) → List (List Piece)
  | [] => []
  | .positional e :: as => wrapPieces 1 e (pieces e) :: piecesArgs as
  | .keyword n e :: as => (.word n :: .op "=" :: wrapPieces 1 e (pieces e)) :: piecesArgs as
  | .star e :: as => (.op "*" :: wrapPieces 16 e (pieces e)) :: piecesArgs as
  | .doubleStar e :: as => (.op "**" :: wrapPieces 16 e (pieces e)) :: piecesArgs as

/-- `pieces` of the entries of a dictionary display. -/
def piecesEntries : List (Expr × Expr) → List (List Piece)
  | [] => []
  | (k, v) :: es =>
    (wrapPieces 1 k (pieces k) ++ Piece.op ":" :: Piece.after (wrapPieces 1 v (pieces v))) ::
      piecesEntries es

/-- `pieces` of the clauses of a comprehension. -/
def piecesClauses : List (ClauseOf Expr) → List Piece
  | [] => []
  | ⟨target, iter, ifs⟩ :: cs =>
    (Piece.word "for").spaced :: (Piece.after (piecesTarget target (pieces target)) ++
      (Piece.word "in").spaced :: (Piece.after (wrapPieces 3 iter (pieces iter)) ++
        (piecesConditions ifs ++ piecesClauses cs)))

/-- `pieces` of the conditions of a comprehension clause. -/
def piecesConditions : List Expr → List Piece
  | [] => []
  | e :: es =>
    (Piece.word "if").spaced :: (Piece.after (wrapPieces 3 e (pieces e)) ++ piecesConditions es)

/-- `pieces` of parameters, with annotations as `note` gives them. -/
def piecesParams (note : Option String → Option (List Piece)) :
    List (ParamOf Expr) → List (List Piece)
  | [] => []
  | ⟨n, kind, default, typeNote⟩ :: ps =>
    paramPieces n kind (note typeNote) (piecesDefault default) :: piecesParams note ps

/-- `pieces` of the default of a parameter. -/
def piecesDefault : Option Expr → Option (List Piece)
  | Option.none => Option.none
  | some d => some (wrapPieces 1 d (pieces d))

/-- `pieces` of an assignment target, given those of the target taken as an expression. -/
def piecesTarget : Expr → List Piece → List Piece
  | .tuple (i :: is), _ => Piece.commasTuple (piecesTarget i (pieces i) :: piecesTargets is)
  | .list items, _ => Piece.op "[" :: (Piece.commas (piecesTargets items) ++ [Piece.op "]"])
  | .starred _, own => own
  | e, own => wrapPieces 16 e own

/-- `pieces` of targets. -/
def piecesTargets : List Expr → List (List Piece)
  | [] => []
  | e :: es => piecesTarget e (pieces e) :: piecesTargets es

end

/-! ## The pieces spell the text -/

open Piece (Tight spell)

theorem tight_wrapPieces {e : Expr} {ps : List Piece} (min : Nat) (h : Tight ps) :
    Tight (wrapPieces min e ps) := by
  unfold wrapPieces
  split
  · rfl
  · exact h

theorem spell_wrapPieces (min : Nat) (e : Expr) (ps : List Piece) :
    spell (wrapPieces min e ps) = wrap min e (spell ps) := by
  unfold wrapPieces wrap
  split
  · simp [String.append_assoc]
  · rfl

theorem tight_bracketPieces (kind : CompKind) (ps : List Piece) : Tight (bracketPieces kind ps) := by
  cases kind <;> rfl

/-- The pieces between the parentheses of a call. -/
def argumentPieces : List Arg → List Piece
  | [.positional (.comp .generator e v clauses)] =>
    compPieces .generator e (pieces e) (piecesOption 1 v) (piecesClauses clauses)
  | args => Piece.commas (piecesArgs args)

/-- The pieces between the brackets of a subscript. -/
def indexPieces : Expr → List Piece
  | .tuple (i :: is) => Piece.commasTuple (wrapPieces 1 i (pieces i) :: piecesList is)
  | i => wrapPieces 1 i (pieces i)

/-- The pieces of what an attribute is taken of. -/
def ownerPieces : Expr → List Piece
  | .int v =>
    Piece.op "(" :: (wrapPieces 16 (.int v) [⟨false, .int, toString v⟩] ++ [Piece.op ")"])
  | a => wrapPieces 16 a (pieces a)

theorem pieces_call (f : Expr) (args : List Arg) :
    pieces (.call f args) =
      wrapPieces 16 f (pieces f) ++ Piece.op "(" :: (argumentPieces args ++ [Piece.op ")"]) := by
  unfold argumentPieces
  split
  · rw [pieces]
  · rename_i h
    rw [pieces]
    exact h

theorem pieces_subscript (a i : Expr) :
    pieces (.subscript a i) =
      wrapPieces 16 a (pieces a) ++ Piece.op "[" :: (indexPieces i ++ [Piece.op "]"]) := by
  cases i with
  | tuple items => cases items <;> rfl
  | _ => rfl

theorem pieces_attribute (a : Expr) (n : String) :
    pieces (.attribute a n) = ownerPieces a ++ [.op ".", .word n] := by
  cases a with
  | int v => exact congrArg (Piece.op "(" :: ·) (List.append_assoc _ [Piece.op ")"] _).symm
  | _ => rfl

theorem tight_ownerPieces {a : Expr} (h : Tight a.pieces) : Tight (ownerPieces a) := by
  unfold ownerPieces
  split
  · rfl
  · exact tight_wrapPieces _ h

theorem tight_pieces : (e : Expr) → Tight e.pieces
  | .name _ | .int _ | .float _ | .str _ | .none | .verbatim _ => rfl
  | .bool true | .bool false => rfl
  | .bin o l _ => by
    rw [pieces]
    exact (tight_wrapPieces _ (tight_pieces l)).append _
  | .unary .not _ | .unary .neg _ | .unary .pos _ | .unary .invert _ => rfl
  | .logic o l _ => by
    rw [pieces]
    exact (tight_wrapPieces _ (tight_pieces l)).append _
  | .compare l _ => by
    rw [pieces]
    exact (tight_wrapPieces _ (tight_pieces l)).append _
  | .call f args => by
    rw [pieces_call]
    exact (tight_wrapPieces _ (tight_pieces f)).append _
  | .attribute a n => by
    rw [pieces_attribute]
    exact (tight_ownerPieces (tight_pieces a)).append _
  | .subscript a i => by
    rw [pieces_subscript]
    exact (tight_wrapPieces _ (tight_pieces a)).append _
  | .slice Option.none _ Option.none | .slice Option.none _ (some _) => rfl
  | .slice (some a) _ Option.none | .slice (some a) _ (some _) => by
    rw [pieces, piecesOption]
    exact (tight_wrapPieces _ (tight_pieces a)).append _
  | .list _ | .tuple _ | .set [] | .set (_ :: _) | .dict _ | .lambda _ _ | .starred _ => rfl
  | .comp kind _ _ _ => tight_bracketPieces kind _
  | .ifExp _ a _ => by
    rw [pieces]
    exact (tight_wrapPieces _ (tight_pieces a)).append _

theorem pieces_ne_nil (e : Expr) : e.pieces ≠ [] := by
  intro he
  have htight := tight_pieces e
  rw [he] at htight
  exact htight

theorem wrapPieces_ne_nil (min : Nat) (e : Expr) : wrapPieces min e e.pieces ≠ [] := by
  unfold wrapPieces
  split
  · simp
  · exact pieces_ne_nil e

theorem tight_piecesArgs (as : List Arg) : ∀ part ∈ piecesArgs as, Tight part := by
  induction as with
  | nil => simp [piecesArgs]
  | cons a as ih =>
    cases a with
    | positional e =>
      rw [piecesArgs, List.forall_mem_cons]
      exact ⟨tight_wrapPieces _ (tight_pieces e), ih⟩
    | keyword n e | star e | doubleStar e =>
      rw [piecesArgs, List.forall_mem_cons]
      exact ⟨rfl, ih⟩

theorem tight_piecesList (es : List Expr) : ∀ part ∈ piecesList es, Tight part := by
  induction es with
  | nil => simp [piecesList]
  | cons e es ih =>
    rw [piecesList, List.forall_mem_cons]
    exact ⟨tight_wrapPieces _ (tight_pieces e), ih⟩

theorem tight_piecesEntries (es : List (Expr × Expr)) : ∀ part ∈ piecesEntries es, Tight part := by
  induction es with
  | nil => simp [piecesEntries]
  | cons e es ih =>
    obtain ⟨k, v⟩ := e
    rw [piecesEntries, List.forall_mem_cons]
    exact ⟨(tight_wrapPieces _ (tight_pieces k)).append _, ih⟩

theorem tight_paramPieces (n : String) (kind : ParamKind) (note default : Option (List Piece)) :
    Tight (paramPieces n kind note default) := by
  cases kind <;> rfl

theorem tight_piecesParams (note : Option String → Option (List Piece)) (ps : List Param) :
    ∀ part ∈ piecesParams note ps, Tight part := by
  induction ps with
  | nil => simp [piecesParams]
  | cons p ps ih =>
    obtain ⟨n, kind, default, typeNote⟩ := p
    rw [piecesParams, List.forall_mem_cons]
    exact ⟨tight_paramPieces n kind _ _, ih⟩

mutual

theorem tight_piecesTarget : (e : Expr) → (own : List Piece) → Tight own →
    Tight (piecesTarget e own)
  | .tuple (i :: is), _, _ => by
    have hi := tight_piecesTarget i _ (tight_pieces i)
    rw [piecesTarget]
    cases is with
    | nil => exact hi.append _
    | cons j js => exact hi.append _
  | .tuple [], _, h => h
  | .list _, _, _ => rfl
  | .starred _, _, h => h
  | .name _, _, h | .int _, _, h | .float _, _, h | .str _, _, h | .bool _, _, h | .none, _, h
  | .bin _ _ _, _, h | .unary _ _, _, h | .logic _ _ _, _, h | .compare _ _, _, h
  | .call _ _, _, h | .attribute _ _, _, h | .subscript _ _, _, h | .slice _ _ _, _, h
  | .set _, _, h | .dict _, _, h | .comp _ _ _ _, _, h | .ifExp _ _ _, _, h | .lambda _ _, _, h
  | .verbatim _, _, h => tight_wrapPieces _ h

end

theorem tight_piecesTargets (es : List Expr) : ∀ part ∈ piecesTargets es, Tight part := by
  induction es with
  | nil => simp [piecesTargets]
  | cons e es ih =>
    rw [piecesTargets, List.forall_mem_cons]
    exact ⟨tight_piecesTarget e _ (tight_pieces e), ih⟩

theorem spell_linkPieces (o : CmpOp) : spell (linkPieces o) = " " ++ o.symbol := by
  cases o <;> rfl

theorem spell_bracketPieces (kind : CompKind) (ps : List Piece) :
    spell (bracketPieces kind ps) = bracketed kind (spell ps) := by
  cases kind <;> simp [bracketPieces, bracketed, String.append_assoc]

theorem spell_compPieces (kind : CompKind) (e : Expr) (element value clauses : List Piece)
    (h : kind = .dict → Tight value) :
    spell (compPieces kind e element value clauses) =
      textComp kind (spell element) e (spell value) (spell clauses) := by
  cases kind with
  | dict =>
    simp only [compPieces, textComp, Piece.spell_append, Piece.spell_cons, Piece.blank_op,
      Piece.text_op, Piece.spell_after (h rfl), spell_wrapPieces]
    rw [show ": " = ":" ++ " " from rfl]
    simp only [String.append_assoc, String.empty_append]
  | list | set | generator => simp [compPieces, textComp, spell_wrapPieces]

theorem tight_value {kind : CompKind} {e : Expr} {v : Option Expr} {clauses : List Clause}
    (h : Regular (.comp kind e v clauses)) (hkind : kind = .dict) : Tight (piecesOption 1 v) := by
  subst hkind
  obtain ⟨-, -, hv, -⟩ := h
  cases v with
  | none => simp at hv
  | some e => exact tight_wrapPieces _ (tight_pieces e)

/-- The annotations of parameters as pieces and as text. -/
def NotesSpell (annotated : Bool) (note : Option String → Option (List Piece))
    (ps : List Param) : Prop :=
  ∀ p ∈ ps, (note p.typeNote).map spell = (if annotated then p.typeNote else Option.none) ∧
    ∀ a, note p.typeNote = some a → Tight a

theorem spell_paramPieces (n : String) (kind : ParamKind) {note default : Option (List Piece)}
    (hnote : ∀ a, note = some a → Tight a) (hdefault : ∀ d, default = some d → Tight d) :
    spell (paramPieces n kind note default) =
      let tail :=
        (match note.map spell with
          | some a => ": " ++ a
          | Option.none => "") ++
        (match default.map spell with
          | some d => (if (note.map spell).isSome then " = " else "=") ++ d
          | Option.none => "")
      match kind with
      | .regular => n ++ tail
      | .varArgs => "*" ++ n ++ tail
      | .kwArgs => "**" ++ n ++ tail
      | .keywordOnly => "*"
      | .positionalOnly => "/" := by
  have hcolon : ∀ s : String, ": " ++ s = ":" ++ (" " ++ s) := by
    intro s
    rw [← String.append_assoc]
    rfl
  have hequals : ∀ s : String, " = " ++ s = " =" ++ (" " ++ s) := by
    intro s
    rw [← String.append_assoc]
    rfl
  cases note with
  | none =>
    cases default with
    | none => cases kind <;> simp [paramPieces]
    | some d => cases kind <;> simp [paramPieces, String.append_assoc]
  | some a =>
    have ha := Piece.spell_after (hnote a rfl)
    cases default with
    | none => cases kind <;> simp [paramPieces, ha, hcolon, String.append_assoc]
    | some d =>
      have hd := Piece.spell_after (hdefault d rfl)
      cases kind <;> simp [paramPieces, ha, hd, hcolon, hequals, String.append_assoc]

theorem tight_piecesDefault {default : Option Expr} {d : List Piece}
    (h : piecesDefault default = some d) : Tight d := by
  cases default with
  | none => simp [piecesDefault] at h
  | some e =>
    simp only [piecesDefault, Option.some.injEq] at h
    rw [← h]
    exact tight_wrapPieces _ (tight_pieces e)

attribute [local simp] text textArgs textList

/-- The text between the parentheses of a call. -/
def argumentText : List Arg → String
  | [.positional (.comp .generator e v clauses)] =>
    textComp .generator (text e) e (textOption 1 v) (textClauses clauses)
  | args => commas (textArgs args)

/-- The text between the brackets of a subscript. -/
def indexText : Expr → String
  | .tuple (i :: is) => commasTuple (wrap 1 i (text i) :: textList is)
  | i => wrap 1 i (text i)

theorem text_call (f : Expr) (args : List Arg) :
    text (.call f args) = wrap 16 f (text f) ++ "(" ++ argumentText args ++ ")" := by
  unfold argumentText
  split
  · rw [text]
  · rename_i h
    rw [text]
    exact h

theorem text_subscript (a i : Expr) :
    text (.subscript a i) = wrap 16 a (text a) ++ "[" ++ indexText i ++ "]" := by
  cases i with
  | tuple items => cases items <;> rfl
  | _ => rfl

theorem argumentText_eq_spell {as : List Arg} (h : textArgs as = (piecesArgs as).map spell) :
    argumentText as = spell (argumentPieces as) := by
  unfold argumentText argumentPieces
  split
  · simpa [textArgs, piecesArgs, wrap, wrapPieces, precedence, text, pieces, bracketed,
      bracketPieces, String.append_assoc] using h
  · rw [Piece.spell_commas (tight_piecesArgs as), h]

theorem indexText_eq_spell {i : Expr} (h : text i = spell (pieces i)) :
    indexText i = spell (indexPieces i) := by
  unfold indexText indexPieces
  split
  · simpa [text, pieces, textList, piecesList, String.append_assoc] using h
  · rw [spell_wrapPieces, h]

theorem textParams_cons (annotated : Bool) (n : String) (kind : ParamKind)
    (default : Option Expr) (typeNote : Option String) (ps : List Param) :
    textParams annotated (⟨n, kind, default, typeNote⟩ :: ps) =
      (let note := if annotated then typeNote else Option.none
      let tail :=
        (match note with
          | some a => ": " ++ a
          | Option.none => "") ++
        (match default.map fun d => wrap 1 d (text d) with
          | some d => (if note.isSome then " = " else "=") ++ d
          | Option.none => "")
      match kind with
      | .regular => n ++ tail
      | .varArgs => "*" ++ n ++ tail
      | .kwArgs => "**" ++ n ++ tail
      | .keywordOnly => "*"
      | .positionalOnly => "/") :: textParams annotated ps := by
  cases default <;> rfl

/-- The pieces of a comparison after the first operand. -/
theorem spell_piecesLinks_cons (o : CmpOp) (e : Expr) (ls : List (CmpOp × Expr)) :
    spell (piecesLinks ((o, e) :: ls)) =
      " " ++ o.symbol ++ (" " ++ wrap 7 e (spell e.pieces)) ++ spell (piecesLinks ls) := by
  have he := Piece.spell_after (tight_wrapPieces (e := e) 7 (tight_pieces e))
  simp only [piecesLinks, Piece.spell_append, spell_linkPieces, he, spell_wrapPieces,
    String.append_assoc]

mutual

/-- A printed expression is what its pieces spell. -/
theorem text_eq_spell : (e : Expr) → e.Printable → e.text = spell e.pieces
  | .name _, _ | .int _, _ | .float _, _ | .str _, _ | .none, _ | .verbatim _, _ => by
    simp [text, pieces]
  | .bool true, _ | .bool false, _ => rfl
  | .bin o l r, h => by
    simp only [Printable, subterms, List.forall_mem_cons, List.forall_mem_append] at h
    have hr := Piece.spell_after
      (tight_wrapPieces (e := r) (operandStrengths o).2 (tight_pieces r))
    simp only [text, pieces, Piece.spell_append, Piece.spell_cons, Piece.blank_spaced,
      Piece.text_spaced, Piece.text_op, hr, spell_wrapPieces, ← text_eq_spell l h.2.1,
      ← text_eq_spell r h.2.2, String.append_assoc]
  | .unary o a, h => by
    simp only [Printable, subterms, List.forall_mem_cons] at h
    have ha := Piece.spell_after (tight_wrapPieces (e := a) 5 (tight_pieces a))
    have iha := text_eq_spell a h.2
    cases o with
    | not =>
      simp only [text, pieces, Piece.spell_cons, Piece.blank_word, Piece.text_word, ha,
        spell_wrapPieces, ← iha]
      rw [show "not " = "not" ++ " " from rfl]
      simp only [String.append_assoc, String.empty_append]
    | neg | pos | invert =>
      simp only [text, pieces, Piece.spell_cons, Piece.blank_op, Piece.text_op, spell_wrapPieces,
        ← iha, String.empty_append]
  | .logic o l r, h => by
    simp only [Printable, subterms, List.forall_mem_cons, List.forall_mem_append] at h
    have hr := Piece.spell_after (tight_wrapPieces (e := r) (o.precedence + 1) (tight_pieces r))
    simp only [text, pieces, Piece.spell_append, Piece.spell_cons, Piece.blank_spaced,
      Piece.text_spaced, Piece.text_word, hr, spell_wrapPieces, ← text_eq_spell l h.2.1,
      ← text_eq_spell r h.2.2, String.append_assoc]
  | .compare l links, h => by
    simp only [Printable, subterms, List.forall_mem_cons, List.forall_mem_append] at h
    simp only [text, pieces, Piece.spell_append, spell_wrapPieces, ← text_eq_spell l h.2.1,
      textLinks_eq_spell links h.2.2]
  | .call f args, h => by
    simp only [Printable, subterms, List.forall_mem_cons, List.forall_mem_append] at h
    rw [text_call, pieces_call]
    simp only [Piece.spell_append, Piece.spell_cons, Piece.blank_op, Piece.text_op, Piece.spell_nil,
      spell_wrapPieces, ← text_eq_spell f h.2.1, argumentText_eq_spell (textArgs_eq_spell args h.2.2),
      String.empty_append, String.append_empty, String.append_assoc]
  | .attribute a n, h => by
    simp only [Printable, subterms, List.forall_mem_cons] at h
    have ha := text_eq_spell a h.2
    rw [pieces_attribute]
    cases a with
    | int v =>
      rw [text, show ")." = ")" ++ "." from rfl]
      simp only [ownerPieces, spell_wrapPieces, Piece.spell_append, Piece.spell_cons,
        Piece.spell_nil, Piece.blank_op, Piece.text_op, Piece.blank_word, Piece.text_word,
        Piece.blank_tight, String.append_assoc, String.empty_append, String.append_empty]
    | _ => simp [text, ownerPieces, spell_wrapPieces, ← ha, String.append_assoc]
  | .subscript a i, h => by
    simp only [Printable, subterms, List.forall_mem_cons, List.forall_mem_append] at h
    rw [text_subscript, pieces_subscript]
    simp only [Piece.spell_append, Piece.spell_cons, Piece.blank_op, Piece.text_op, Piece.spell_nil,
      spell_wrapPieces, ← text_eq_spell a h.2.1, indexText_eq_spell (text_eq_spell i h.2.2),
      String.empty_append, String.append_empty, String.append_assoc]
  | .slice a b Option.none, h => by
    simp only [Printable, subterms, List.forall_mem_cons, List.forall_mem_append] at h
    simp only [text, pieces, Piece.spell_append, Piece.spell_cons, Piece.blank_op, Piece.text_op,
      textOption_eq_spell 2 a h.2.1, textOption_eq_spell 2 b h.2.2.1, String.append_assoc,
      String.empty_append]
  | .slice a b (some c), h => by
    simp only [Printable, subterms, subtermsOption, List.forall_mem_cons, List.forall_mem_append]
      at h
    simp only [text, pieces, Piece.spell_append, Piece.spell_cons, Piece.blank_op, Piece.text_op,
      textOption_eq_spell 2 a h.2.1, textOption_eq_spell 2 b h.2.2.1, spell_wrapPieces,
      ← text_eq_spell c h.2.2.2, String.append_assoc, String.empty_append]
  | .list items, h => by
    simp only [Printable, subterms, List.forall_mem_cons] at h
    simp only [text, pieces, Piece.spell_append, Piece.spell_cons, Piece.spell_nil, Piece.blank_op,
      Piece.text_op, Piece.spell_commas (tight_piecesList items), ← textList_eq_spell items h.2,
      String.append_assoc, String.empty_append, String.append_empty]
  | .tuple items, h => by
    simp only [Printable, subterms, List.forall_mem_cons] at h
    simp only [text, pieces, Piece.spell_append, Piece.spell_cons, Piece.spell_nil, Piece.blank_op,
      Piece.text_op, Piece.spell_commasTuple (tight_piecesList items),
      ← textList_eq_spell items h.2, String.append_assoc, String.empty_append, String.append_empty]
  | .set [], _ => rfl
  | .set (i :: is), h => by
    simp only [Printable, subterms, subtermsList, List.forall_mem_cons, List.forall_mem_append] at h
    have htight := tight_piecesList (i :: is)
    rw [piecesList] at htight
    simp only [text, pieces, Piece.spell_append, Piece.spell_cons, Piece.spell_nil, Piece.blank_op,
      Piece.text_op, Piece.spell_commas htight, List.map_cons, spell_wrapPieces,
      ← text_eq_spell i h.2.1, ← textList_eq_spell is h.2.2, String.append_assoc,
      String.empty_append, String.append_empty]
  | .dict entries, h => by
    simp only [Printable, subterms, List.forall_mem_cons] at h
    simp only [text, pieces, Piece.spell_append, Piece.spell_cons, Piece.spell_nil, Piece.blank_op,
      Piece.text_op, Piece.spell_commas (tight_piecesEntries entries),
      ← textEntries_eq_spell entries h.2, String.append_assoc, String.empty_append,
      String.append_empty]
  | .comp kind e v clauses, h => by
    simp only [Printable, subterms, List.forall_mem_cons, List.forall_mem_append] at h
    obtain ⟨hself, he, hv, hclauses⟩ := h
    rw [text, pieces, spell_bracketPieces, spell_compPieces _ _ _ _ _ (tight_value hself),
      ← text_eq_spell e he, ← textOption_eq_spell 1 v hv, ← textClauses_eq_spell clauses hclauses]
  | .ifExp t a b, h => by
    simp only [Printable, subterms, List.forall_mem_cons, List.forall_mem_append] at h
    have ht := Piece.spell_after (tight_wrapPieces (e := t) 3 (tight_pieces t))
    have hb := Piece.spell_after (tight_wrapPieces (e := b) 2 (tight_pieces b))
    simp only [text, pieces, Piece.spell_append, Piece.spell_cons, Piece.blank_spaced,
      Piece.text_spaced, Piece.text_word, ht, hb, spell_wrapPieces, ← text_eq_spell t h.2.1,
      ← text_eq_spell a h.2.2.1, ← text_eq_spell b h.2.2.2]
    rw [show " if " = " " ++ "if" ++ " " from rfl, show " else " = " " ++ "else" ++ " " from rfl]
    simp only [String.append_assoc]
  | .lambda ps b, h => by
    simp only [Printable, subterms, List.forall_mem_cons, List.forall_mem_append] at h
    have hb := Piece.spell_after (tight_wrapPieces (e := b) 1 (tight_pieces b))
    have htight := tight_piecesParams (fun _ => Option.none) ps
    have hps := textParams_eq_spell false (fun _ => Option.none) ps h.2.1
      (by simp [NotesSpell])
    rw [text, pieces]
    simp only [Piece.spell_append, Piece.spell_cons, Piece.blank_word, Piece.text_word,
      Piece.blank_op, Piece.text_op, hb, spell_wrapPieces, ← text_eq_spell b h.2.2]
    rw [show ": " = ":" ++ " " from rfl]
    cases ps with
    | nil => simp only [List.isEmpty_nil, if_true, piecesParams, Piece.commas, Piece.after,
        Piece.spell_nil, String.append_assoc, String.empty_append]
    | cons p ps =>
      have hcommas := Piece.spell_after (Piece.tight_commas (by simp [piecesParams]) htight)
      rw [hcommas, Piece.spell_commas htight, ← hps]
      rw [show "lambda " = "lambda" ++ " " from rfl]
      simp only [List.isEmpty_cons, String.append_assoc, String.empty_append]
      rfl
  | .starred a, h => by
    simp only [Printable, subterms, List.forall_mem_cons] at h
    simp only [text, pieces, Piece.spell_cons, Piece.blank_op, Piece.text_op, spell_wrapPieces,
      ← text_eq_spell a h.2, String.empty_append]

theorem textOption_eq_spell (min : Nat) : (o : Option Expr) →
    (∀ x ∈ subtermsOption o, x.Regular) → textOption min o = spell (piecesOption min o)
  | Option.none, _ => rfl
  | some e, h => by
    simp only [textOption, piecesOption, spell_wrapPieces, text_eq_spell e h]

theorem textList_eq_spell : (es : List Expr) → (∀ x ∈ subtermsList es, x.Regular) →
    textList es = (piecesList es).map spell
  | [], _ => rfl
  | e :: es, h => by
    simp only [subtermsList, List.forall_mem_append] at h
    simp only [textList, piecesList, List.map_cons, spell_wrapPieces, text_eq_spell e h.1,
      textList_eq_spell es h.2]

theorem textLinks_eq_spell : (ls : List (CmpOp × Expr)) → (∀ x ∈ subtermsLinks ls, x.Regular) →
    textLinks ls = spell (piecesLinks ls)
  | [], _ => rfl
  | (o, e) :: ls, h => by
    simp only [subtermsLinks, List.forall_mem_append] at h
    rw [spell_piecesLinks_cons, textLinks, text_eq_spell e h.1, textLinks_eq_spell ls h.2]
    simp only [String.append_assoc]

theorem textArgs_eq_spell : (as : List Arg) → (∀ x ∈ subtermsArgs as, x.Regular) →
    textArgs as = (piecesArgs as).map spell
  | [], _ => rfl
  | .positional e :: as, h => by
    simp only [subtermsArgs, List.forall_mem_append] at h
    simp only [textArgs, piecesArgs, List.map_cons, spell_wrapPieces, text_eq_spell e h.1,
      textArgs_eq_spell as h.2]
  | .keyword n e :: as, h => by
    simp only [subtermsArgs, List.forall_mem_append] at h
    simp only [textArgs, piecesArgs, List.map_cons, Piece.spell_cons, Piece.blank_word,
      Piece.text_word, Piece.blank_op, Piece.text_op, spell_wrapPieces, text_eq_spell e h.1,
      textArgs_eq_spell as h.2, String.append_assoc, String.empty_append]
  | .star e :: as, h | .doubleStar e :: as, h => by
    simp only [subtermsArgs, List.forall_mem_append] at h
    simp only [textArgs, piecesArgs, List.map_cons, Piece.spell_cons, Piece.blank_op, Piece.text_op,
      spell_wrapPieces, text_eq_spell e h.1, textArgs_eq_spell as h.2, String.empty_append]

theorem textEntries_eq_spell : (es : List (Expr × Expr)) →
    (∀ x ∈ subtermsEntries es, x.Regular) → textEntries es = (piecesEntries es).map spell
  | [], _ => rfl
  | (k, v) :: es, h => by
    simp only [subtermsEntries, List.forall_mem_append] at h
    have hv := Piece.spell_after (tight_wrapPieces (e := v) 1 (tight_pieces v))
    simp only [textEntries, piecesEntries, List.map_cons, Piece.spell_append, Piece.spell_cons,
      Piece.blank_op, Piece.text_op, hv, spell_wrapPieces, text_eq_spell k h.1,
      text_eq_spell v h.2.1, textEntries_eq_spell es h.2.2]
    rw [show ": " = ":" ++ " " from rfl]
    simp only [String.append_assoc, String.empty_append]

theorem textClauses_eq_spell : (cs : List Clause) → (∀ x ∈ subtermsClauses cs, x.Regular) →
    textClauses cs = spell (piecesClauses cs)
  | [], _ => rfl
  | ⟨target, iter, ifs⟩ :: cs, h => by
    simp only [subtermsClauses, List.forall_mem_append] at h
    obtain ⟨hiter, htarget, hifs, hcs⟩ := h
    have h1 := Piece.spell_after (tight_piecesTarget target _ (tight_pieces target))
    have h2 := Piece.spell_after (tight_wrapPieces (e := iter) 3 (tight_pieces iter))
    simp only [textClauses, piecesClauses, Piece.spell_append, Piece.spell_cons,
      Piece.blank_spaced, Piece.text_spaced, Piece.text_word, h1, h2, spell_wrapPieces,
      ← textTarget_eq_spell target htarget _ _ (text_eq_spell target htarget),
      ← text_eq_spell iter hiter, ← textConditions_eq_spell ifs hifs,
      ← textClauses_eq_spell cs hcs]
    rw [show " for " = " " ++ "for" ++ " " from rfl, show " in " = " " ++ "in" ++ " " from rfl]
    simp only [String.append_assoc]

theorem textConditions_eq_spell : (es : List Expr) → (∀ x ∈ subtermsList es, x.Regular) →
    textConditions es = spell (piecesConditions es)
  | [], _ => rfl
  | e :: es, h => by
    simp only [subtermsList, List.forall_mem_append] at h
    have he := Piece.spell_after (tight_wrapPieces (e := e) 3 (tight_pieces e))
    simp only [textConditions, piecesConditions, Piece.spell_append, Piece.spell_cons,
      Piece.blank_spaced, Piece.text_spaced, Piece.text_word, he, spell_wrapPieces,
      ← text_eq_spell e h.1, ← textConditions_eq_spell es h.2]
    rw [show " if " = " " ++ "if" ++ " " from rfl]
    simp only [String.append_assoc]

theorem textParams_eq_spell (annotated : Bool) (note : Option String → Option (List Piece)) :
    (ps : List Param) → (∀ x ∈ subtermsParams ps, x.Regular) → NotesSpell annotated note ps →
    textParams annotated ps = (piecesParams note ps).map spell
  | [], _, _ => rfl
  | ⟨n, kind, default, typeNote⟩ :: ps, h, hnotes => by
    simp only [subtermsParams, List.forall_mem_append] at h
    obtain ⟨hfirst, hrest⟩ := List.forall_mem_cons.mp hnotes
    have hdefault := textDefault_eq_spell default h.1
    rw [piecesParams, List.map_cons, textParams_cons,
      spell_paramPieces n kind hfirst.2 (fun d hd => tight_piecesDefault hd),
      ← textParams_eq_spell annotated note ps h.2 hrest, hfirst.1, ← hdefault]

theorem textDefault_eq_spell : (o : Option Expr) → (∀ x ∈ subtermsOption o, x.Regular) →
    (o.map fun d => wrap 1 d (text d)) = (piecesDefault o).map spell
  | Option.none, _ => rfl
  | some d, h => by
    simp only [piecesDefault, Option.map_some, spell_wrapPieces, text_eq_spell d h]

theorem textTarget_eq_spell : (e : Expr) → (∀ x ∈ subterms e, x.Regular) →
    (own : String) → (ps : List Piece) → own = spell ps →
    textTarget e own = spell (piecesTarget e ps)
  | .tuple (i :: is), h, _, _, _ => by
    simp only [subterms, subtermsList, List.forall_mem_cons, List.forall_mem_append] at h
    have htight := tight_piecesTargets (i :: is)
    rw [piecesTargets] at htight
    rw [textTarget, piecesTarget, Piece.spell_commasTuple htight, List.map_cons,
      ← textTarget_eq_spell i h.2.1 _ _ (text_eq_spell i h.2.1),
      ← textTargets_eq_spell is h.2.2]
  | .list items, h, _, _, _ => by
    simp only [subterms, List.forall_mem_cons] at h
    simp only [textTarget, piecesTarget, Piece.spell_append, Piece.spell_cons, Piece.spell_nil,
      Piece.blank_op, Piece.text_op, Piece.spell_commas (tight_piecesTargets items),
      ← textTargets_eq_spell items h.2, String.append_assoc, String.empty_append,
      String.append_empty]
  | .tuple [], _, own, ps, h | .starred _, _, own, ps, h => by
    simp only [textTarget, piecesTarget, spell_wrapPieces, h]
  | .name _, _, _, _, h | .int _, _, _, _, h | .float _, _, _, _, h | .str _, _, _, _, h
  | .bool _, _, _, _, h | .none, _, _, _, h | .bin _ _ _, _, _, _, h | .unary _ _, _, _, _, h
  | .logic _ _ _, _, _, _, h | .compare _ _, _, _, _, h | .call _ _, _, _, _, h
  | .attribute _ _, _, _, _, h | .subscript _ _, _, _, _, h | .slice _ _ _, _, _, _, h
  | .set _, _, _, _, h | .dict _, _, _, _, h | .comp _ _ _ _, _, _, _, h | .ifExp _ _ _, _, _, _, h
  | .lambda _ _, _, _, _, h | .verbatim _, _, _, _, h => by
    simp only [textTarget, piecesTarget, spell_wrapPieces, h]

theorem textTargets_eq_spell : (es : List Expr) → (∀ x ∈ subtermsList es, x.Regular) →
    textTargets es = (piecesTargets es).map spell
  | [], _ => rfl
  | e :: es, h => by
    simp only [subtermsList, List.forall_mem_append] at h
    rw [textTargets, piecesTargets, List.map_cons,
      ← textTarget_eq_spell e h.1 _ _ (text_eq_spell e h.1), ← textTargets_eq_spell es h.2]

end

end Expr

end Concord
