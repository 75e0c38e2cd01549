import Concord.Proofs.Source.Leading

/-!
# Reading what stands in brackets

Displays, comprehensions, arguments and indices hold whole expressions, which are read by the reader
of whole expressions that all levels share. `Reads self n` says that this reader is right about
expressions of fewer than `n` pieces; what stands in brackets always has fewer pieces than the
construct around it.
-/

namespace Concord.Source

open Expr (wrapPieces)

variable {self : ExprReader} {ctx : Context} {e : Expr} {ps : List Piece} {ts rest : Cursor}

/-! ## The reader of whole expressions -/

/-- The marks of whole expressions in any context. -/
def allMarks : List String := "if" :: "as" :: disjunctionMarks

theorem aliasMarks_subset (ctx : Context) : aliasMarks ctx ⊆ "as" :: disjunctionMarks := by
  unfold aliasMarks
  split
  · exact List.Subset.refl _
  · exact List.subset_cons_self _ _

theorem wholeMarks_subset (ctx : Context) : wholeMarks ctx ⊆ allMarks := by
  unfold wholeMarks
  split
  · exact List.cons_subset_cons _ (aliasMarks_subset ctx)
  · exact fun s hs => List.mem_cons_of_mem _ (aliasMarks_subset ctx hs)

/-- The reader of whole expressions gives `e` where nothing follows that would go on with it. -/
def SelfReads (self : ExprReader) (ctx : Context) (e : Expr) (ps : List Piece) : Prop :=
  ∀ ts rest, Spells ps ts rest → Stops ctx (wholeMarks ctx) rest → self ctx ts = some (e, rest)

theorem SelfReads.closed {closers : List String} (h : SelfReads self ctx e ps)
    (hs : Spells ps ts rest) (hrest : Closes closers rest) (hapart : ∀ s ∈ closers, s ∉ allMarks) :
    self ctx ts = some (e, rest) :=
  h ts rest hs (hrest.stops ctx fun s hs hmem => hapart s hs (wholeMarks_subset ctx hmem))

end Concord.Source

namespace Concord.Expr

/-- Whether the expression ends in a call, an attribute or a subscript. -/
def isFollowed : Expr → Bool
  | .call _ _ | .attribute _ _ | .subscript _ _ => true
  | _ => false

end Concord.Expr

namespace Concord.Source

open Expr (wrapPieces)

/-- Expressions of fewer than `n` pieces are read, as wholes and at the level of their rank. A
conditional needs a context that allows one. -/
structure Reads (r : ExprReader) (n : Nat) : Prop where
  whole : ∀ {e : Expr} {ctx : Context} {min : Nat}, e.isPlain = true → e.Printable →
    (wrapPieces min e e.pieces).length < n → ctx.ternary = true ∨ 3 ≤ min →
      SelfReads r ctx e (wrapPieces min e e.pieces)
  level : ∀ {e : Expr} {ctx : Context}, e.isPlain = true → e.Printable → e.pieces.length < n →
    ctx.ternary = true ∨ 3 ≤ e.rank → ReadsAt r ctx e e.pieces e.rank
  simple : ∀ {e : Expr} {ctx : Context}, e.isSimpleTarget = true → e.Printable →
    e.pieces.length < n → PrimaryFeeds r ctx e e.isFollowed e.pieces

variable {self : ExprReader} {ctx : Context} {e : Expr} {ps : List Piece} {ts rest : Cursor}
  {n bound : Nat}

theorem Reads.mono {m : Nat} (h : Reads self n) (hm : m ≤ n) : Reads self m :=
  ⟨fun hp hp' hlen hctx => h.whole hp hp' (by omega) hctx,
    fun hp hp' hlen hctx => h.level hp hp' (by omega) hctx,
    fun hp hp' hlen => h.simple hp hp' (by omega)⟩

/-! ## Atoms -/

/-- An atom is read as `e`. -/
def AtomReads (self : ExprReader) (ctx : Context) (e : Expr) (ps : List Piece) : Prop :=
  ∀ depth ts rest, Spells ps ts rest → ts.length ≤ depth → Clean rest → NoString ctx rest →
    atom self ctx (primary self depth) ts = some (e, rest)

theorem exists_token (hne : ps ≠ []) (hs : Spells ps ts rest) :
    ∃ t us p, ts = t :: us ∧ t.Spells p := by
  cases ps with
  | nil => exact absurd rfl hne
  | cons p ps =>
    obtain ⟨t, us, rfl, ht, -⟩ := hs
    exact ⟨t, us, p, rfl, ht⟩

theorem AtomReads.primary (h : AtomReads self ctx e ps) (hne : ps ≠ []) :
    PrimaryFeeds self ctx e false ps := by
  intro depth ts rest hs hdepth hclean hstring
  obtain ⟨t, us, p, rfl, ht⟩ := exists_token hne hs
  have hlen := hs.length
  have hpos := List.length_pos_iff.mpr hne
  cases depth with
  | zero => omega
  | succ depth =>
    refine ⟨depth, rest.length + 1, by omega, by omega, ?_⟩
    rw [Source.primary]
    simp [ht.operand?, h depth _ rest hs (by omega) hclean hstring]

theorem spells_singleton {p : Piece} (h : Spells [p] ts rest) :
    ∃ t, ts = t :: rest ∧ t.Spells p := by
  obtain ⟨t, us, rfl, ht, rfl⟩ := h
  exact ⟨t, rfl, ht⟩

theorem isIdentifier_of_isName {t : Token} {n : String} (h : t.Spells (Piece.word n))
    (hn : IsName n) : t.isIdentifier = true := by
  obtain ⟨-, hkeyword, -⟩ := hn
  rw [Token.isIdentifier, h.kind, h.text]
  simpa [Piece.word] using hkeyword

theorem constant?_of_isName {n : String} (hn : IsName n) : constant? n = none := by
  unfold constant?
  split
  · exact absurd hn.2.1 (by decide)
  · exact absurd hn.2.1 (by decide)
  · exact absurd hn.2.1 (by decide)
  · rfl

theorem atomReads_name {s : String} (hs : IsName s) : AtomReads self ctx (.name s) [.word s] := by
  intro depth ts rest h _ _ _
  obtain ⟨t, rfl, ht⟩ := spells_singleton h
  have hkind : t.kind = .word := ht.kind
  have htext : t.text = s := ht.text
  unfold atom
  simp only [ht.next, ht.advance, hkind, htext, constant?_of_isName hs,
    isIdentifier_of_isName ht hs, if_true]

theorem atomReads_constant {s : String} (hs : constant? s = some e) :
    AtomReads self ctx e [.word s] := by
  intro depth ts rest h _ _ _
  obtain ⟨t, rfl, ht⟩ := spells_singleton h
  have hkind : t.kind = .word := ht.kind
  have htext : t.text = s := ht.text
  unfold atom
  simp only [ht.next, ht.advance, hkind, htext, hs]

theorem atomReads_int {v : Int} (h0 : 0 ≤ v) (hmax : v ≤ Literal.maxInt) :
    AtomReads self ctx (.int v) [⟨false, .int, toString v⟩] := by
  intro depth ts rest h _ _ _
  obtain ⟨t, rfl, ht⟩ := spells_singleton h
  have hkind : t.kind = .int := ht.kind
  have htext : t.text = toString v := ht.text
  unfold atom
  simp only [ht.next, ht.advance, hkind, htext, Literal.readInt?_toString h0 hmax,
    Int.toNat_of_nonneg h0]

theorem atomReads_float {x : Float}
    (hx : Literal.readFloat? (Literal.writeFloat x).toList = some x) :
    AtomReads self ctx (.float x) [⟨false, .float, Literal.writeFloat x⟩] := by
  intro depth ts rest h _ _ _
  obtain ⟨t, rfl, ht⟩ := spells_singleton h
  have hkind : t.kind = .float := ht.kind
  have htext : t.text = Literal.writeFloat x := ht.text
  unfold atom
  simp only [ht.next, ht.advance, hkind, htext, hx]

/-- No string follows, so none is joined to one before it. -/
theorem moreStrings_eq_nil (h : NoString ctx rest) (fuel : Nat) :
    moreStrings ctx fuel rest = ([], rest) := by
  cases fuel with
  | zero => rfl
  | succ fuel =>
    unfold NoString at h
    rw [moreStrings]
    simp only [h, Bool.false_eq_true, if_false]

theorem atomReads_str {lit : StrLit} (hraw : lit.raw = true → StrLit.fitsRaw lit.value.toList = true) :
    AtomReads self ctx (.str lit) [⟨false, .string, String.ofList lit.write⟩] := by
  intro depth ts rest h _ _ hstring
  obtain ⟨t, rfl, ht⟩ := spells_singleton h
  have hkind : t.kind = .string := ht.kind
  have htext : t.text = String.ofList lit.write := ht.text
  have hread : StrLit.read? t.text.toList = some lit := by
    rw [htext, String.toList_ofList, StrLit.read?_write]
    obtain ⟨value, raw, bytes⟩ := lit
    cases raw with
    | false => rfl
    | true => simp [hraw rfl]
  unfold atom
  simp only [ht.next, hkind]
  unfold strings
  simp [ht.next, ht.advance, moreStrings_eq_nil hstring, ht.holes, hread]

/-! ## Elements of displays -/

theorem element_eq {t : Token} {p : Piece} (ht : t.Spells p) (us : Cursor)
    (hp : p.text ∉ ["*", "yield"]) : element self ctx (t :: us) = self ctx (t :: us) := by
  simp only [List.mem_cons, List.not_mem_nil, or_false, not_or] at hp
  unfold element
  rw [ht.next, ht.text]
  split
  · exact absurd ‹_› hp.1
  · exact absurd ‹_› hp.2
  · rfl

theorem splat_eq {t : Token} {p : Piece} {a : Expr} {us : Cursor} (ht : t.Spells p)
    (hus : Clean us) (ha : self ctx us = some (a, rest)) :
    ∃ long, splat self ctx (t :: us) = some ((.starred a, long), rest) := by
  unfold splat
  simp only [ht.advance, ha, hus.continuations, Option.bind_eq_bind, Option.bind_some]
  exact ⟨_, rfl⟩

theorem Spells.clean (h : Spells ps ts rest) (hne : ps ≠ []) : Clean ts := by
  obtain ⟨t, us, p, rfl, ht⟩ := exists_token hne h
  exact ht.clean us

/-- An operand is read as an element of a display. -/
theorem Reads.element_plain {closers : List String} (h : Reads self n) (hctx : ctx.ternary = true)
    (hplain : e.isPlain = true) (he : e.Printable) (hlen : (wrapPieces 1 e e.pieces).length < n)
    (hapart : ∀ s ∈ closers, s ∉ allMarks) :
    ItemReads (Source.element self ctx) bound closers (wrapPieces 1 e e.pieces) e := by
  intro ts rest hs hclose _
  have hstarts := Expr.starts_wrapPieces (Expr.starts_pieces e hplain he) (Nat.le_refl 1) (by decide)
  have hfirst : Opens ["*", "yield"] (wrapPieces 1 e e.pieces) := hstarts.first.mono (by decide)
  obtain ⟨t, us, p, rfl, ht, hp⟩ := hfirst.cases hs
  rw [element_eq ht us hp]
  exact (h.whole hplain he hlen (.inl hctx)).closed hs hclose hapart

/-- The operand of an asterisk. -/
theorem Reads.spread {closers : List String} {a : Expr} (h : Reads self n)
    (hctx : ctx.ternary = true) (ha : a.isPlain = true) (ha' : a.Printable)
    (hlen : (wrapPieces 16 a a.pieces).length < n) (hapart : ∀ s ∈ closers, s ∉ allMarks)
    {t : Token} {p : Piece} {us : Cursor} (ht : t.Spells p)
    (hs : Spells (wrapPieces 16 a a.pieces) us rest) (hclose : Closes closers rest) :
    ∃ long, splat self ctx (t :: us) = some ((.starred a, long), rest) :=
  splat_eq ht (hs.clean (Expr.wrapPieces_ne_nil 16 a))
    ((h.whole ha ha' hlen (.inl hctx)).closed hs hclose hapart)

/-- What is read as an element of a display. -/
theorem Reads.element {closers : List String} (h : Reads self n) (hctx : ctx.ternary = true)
    (hitem : e.isItem = true) (he : e.Printable) (hlen : (wrapPieces 1 e e.pieces).length < n)
    (hapart : ∀ s ∈ closers, s ∉ allMarks) :
    ItemReads (Source.element self ctx) bound closers (wrapPieces 1 e e.pieces) e := by
  obtain ⟨a, rfl⟩ | hplain := Expr.isItem_cases hitem
  · obtain ⟨ha, ha'⟩ := Expr.printable_starred.mp he
    rintro ts rest ⟨t, us, rfl, ht, hs⟩ hclose -
    have hlen' : (wrapPieces 16 a a.pieces).length < n := Nat.lt_of_succ_lt hlen
    obtain ⟨long, hsplat⟩ := h.spread hctx ha ha' hlen' hapart ht hs hclose
    have htext : t.text = "*" := ht.text
    unfold Source.element
    simp [ht.next, htext, hsplat]
  · exact h.element_plain hctx hplain he hlen hapart

theorem length_le_commas {parts : List (List Piece)} {part : List Piece} (h : part ∈ parts) :
    part.length ≤ (Piece.commas parts).length := by
  match parts, h with
  | [q], h =>
    rw [List.mem_singleton.mp h]
    exact Nat.le_refl _
  | q :: q' :: qs, h =>
    simp only [Piece.commas, List.length_append, List.length_cons, Piece.length_after]
    rcases List.mem_cons.mp h with rfl | h
    · omega
    · have := length_le_commas h
      omega

theorem length_le_commasTuple {parts : List (List Piece)} {part : List Piece} (h : part ∈ parts) :
    part.length ≤ (Piece.commasTuple parts).length := by
  match parts, h with
  | [q], h =>
    rw [List.mem_singleton.mp h]
    simp [Piece.commasTuple]
  | q :: q' :: qs, h => exact length_le_commas h

/-- The elements of a display are read one by one. -/
theorem Reads.elements {closers : List String} {items : List Expr} (h : Reads self n)
    (hctx : ctx.ternary = true) (hitems : ∀ i ∈ items, i.isItem = true ∧ i.Printable)
    (hlen : ∀ part ∈ Expr.piecesList items, part.length < n)
    (hapart : ∀ s ∈ closers, s ∉ allMarks) :
    List.Forall₂ (ItemReads (Source.element self ctx) bound closers) (Expr.piecesList items) items := by
  induction items with
  | nil => exact .nil
  | cons e es ih =>
    rw [Expr.piecesList] at hlen ⊢
    obtain ⟨he, hes⟩ := List.forall_mem_cons.mp hitems
    obtain ⟨hlen, hlens⟩ := List.forall_mem_cons.mp hlen
    exact .cons (h.element hctx he.1 he.2 hlen hapart) (ih hes hlens)

theorem opens_isItem (hitem : e.isItem = true) (he : e.Printable) :
    Opens [")", "]", "\x7d", ",", "**"] (wrapPieces 1 e e.pieces) := by
  obtain ⟨a, rfl⟩ | hplain := Expr.isItem_cases hitem
  · exact opens_cons (by decide) _
  · exact (Expr.starts_wrapPieces (Expr.starts_pieces _ hplain he) (Nat.le_refl 1)
      (by decide)).first.mono (by decide)

theorem opens_items {items : List Expr} (hitems : ∀ i ∈ items, i.isItem = true ∧ i.Printable) :
    ∀ part ∈ Expr.piecesList items, Opens [")", "]", "\x7d", ",", "**"] part := by
  induction items with
  | nil => simp [Expr.piecesList]
  | cons e es ih =>
    obtain ⟨he, hes⟩ := List.forall_mem_cons.mp hitems
    rw [Expr.piecesList, List.forall_mem_cons]
    exact ⟨opens_isItem he.1 he.2, ih hes⟩

/-! ## Displays -/

theorem Opens.ahead {bad : List String} (h : Opens bad ps) (hs : Spells ps ts rest)
    (hempty : "" ∉ bad) (ctx : Context) : Cursor.ahead ctx ts ∉ bad := by
  obtain ⟨t, us, p, rfl, ht, hp⟩ := h.cases hs
  exact ht.ahead_not_mem us ctx hp hempty

section Display

variable {α : Type} {item : Reader α} {close : String} {part : List Piece}
  {parts : List (List Piece)} {as : List α} {us : Cursor} {bound : Nat}

/-- The first item of a display, and what comes after it. -/
theorem display_first (extra : Option (Expr → α)) (hclose : close ≠ "") (hcomma : close ≠ ",")
    (hitems : List.Forall₂ (ItemReads item bound [",", close]) parts as)
    (hopens : ∀ q ∈ parts, Opens [close] q)
    (hs : Spells (Piece.commas (part :: parts) ++ [Piece.op close]) us rest)
    (hbound : us.length ≤ bound) :
    ∃ mid, Spells part us mid ∧ Closes [",", close] mid ∧
      ((as = [] ∧ (∀ ctx, Cursor.ahead ctx mid = close) ∧ Cursor.advance mid = rest) ∨
        ((∀ ctx, Cursor.ahead ctx mid = ",") ∧ ∀ fuel acc, us.length < fuel →
          bracketItems close extra item fuel acc (Cursor.advance mid) = some (acc ++ as, rest))) := by
  cases hitems with
  | nil =>
    obtain ⟨mid, hpart, hmid⟩ := spells_append.mp hs
    obtain ⟨u, rfl, hu⟩ := spells_singleton hmid
    exact ⟨u :: rest, hpart, ⟨u, rest, _, rfl, hu, .inr rfl, by simp⟩,
      .inl ⟨rfl, fun ctx => hu.ahead_op rest ctx, hu.advance rest⟩⟩
  | @cons part' a' parts as hitem' hitems =>
    rw [show Piece.commas (part :: part' :: parts) =
        part ++ Piece.op "," :: Piece.after (Piece.commas (part' :: parts)) from rfl,
      List.append_assoc] at hs
    obtain ⟨mid, hpart, u, vs, rfl, hu, hvs⟩ := spells_append.mp hs
    obtain ⟨last, hvs, hlast⟩ := spells_append.mp hvs
    have hvs := spells_append.mpr ⟨last, spells_after.mp hvs, hlast⟩
    have hlen := hpart.length
    refine ⟨u :: vs, hpart, ⟨u, vs, _, rfl, hu, .inr rfl, by simp⟩,
      .inr ⟨fun ctx => hu.ahead_op vs ctx, fun fuel acc hfuel => ?_⟩⟩
    rw [hu.advance]
    simp only [List.length_cons] at hlen
    exact bracketItems_reads hclose hcomma extra (.cons hitem' hitems) hopens fuel acc vs rest hvs
      (by omega) (by omega)

/-- The first item of a tuple, which a comma always follows. -/
theorem tuple_first (extra : Option (Expr → α)) (hclose : close ≠ "") (hcomma : close ≠ ",")
    (hitems : List.Forall₂ (ItemReads item bound [",", close]) parts as)
    (hopens : ∀ q ∈ parts, Opens [close] q)
    (hs : Spells (Piece.commasTuple (part :: parts) ++ [Piece.op close]) us rest)
    (hbound : us.length ≤ bound) :
    ∃ mid, Spells part us mid ∧ Closes [","] mid ∧ ∀ fuel acc, us.length < fuel →
      bracketItems close extra item fuel acc (Cursor.advance mid) = some (acc ++ as, rest) := by
  cases hitems with
  | nil =>
    rw [show Piece.commasTuple [part] = part ++ [Piece.op ","] from rfl, List.append_assoc] at hs
    obtain ⟨mid, hpart, u, vs, rfl, hu, hvs⟩ := spells_append.mp hs
    refine ⟨u :: vs, hpart, ⟨u, vs, _, rfl, hu, .inr rfl, by simp⟩, fun fuel acc hfuel => ?_⟩
    have hlen := hpart.length
    rw [hu.advance]
    simp only [List.length_cons] at hlen
    have hnil : List.Forall₂ (ItemReads item bound [",", close]) [] [] := .nil
    exact bracketItems_reads hclose hcomma extra hnil (by simp) fuel acc vs rest hvs (by omega)
      (by omega)
  | @cons part' a' parts as hitem' hitems =>
    rw [show Piece.commasTuple (part :: part' :: parts) =
        part ++ Piece.op "," :: Piece.after (Piece.commas (part' :: parts)) from rfl,
      List.append_assoc] at hs
    obtain ⟨mid, hpart, u, vs, rfl, hu, hvs⟩ := spells_append.mp hs
    obtain ⟨last, hvs, hlast⟩ := spells_append.mp hvs
    have hvs := spells_append.mpr ⟨last, spells_after.mp hvs, hlast⟩
    have hlen := hpart.length
    refine ⟨u :: vs, hpart, ⟨u, vs, _, rfl, hu, .inr rfl, by simp⟩, fun fuel acc hfuel => ?_⟩
    rw [hu.advance]
    simp only [List.length_cons] at hlen
    exact bracketItems_reads hclose hcomma extra (.cons hitem' hitems) hopens fuel acc vs rest hvs
      (by omega) (by omega)

end Display

/-- An expression in parentheses. -/
theorem atomReads_parens (h : SelfReads self ctx.inBrackets e ps) (hps : Opens nonStarters ps) :
    AtomReads self ctx e (.op "(" :: (ps ++ [.op ")"])) := by
  rintro depth ts rest ⟨t, us, rfl, ht, hs⟩ - - -
  obtain ⟨mid, hs, hmid⟩ := spells_append.mp hs
  obtain ⟨u, rfl, hu⟩ := spells_singleton hmid
  have hkind : t.kind = .op := ht.kind
  have htext : t.text = "(" := ht.text
  have hclose : Closes [")"] (u :: rest) := ⟨u, rest, _, rfl, hu, .inr rfl, by simp⟩
  have hread := h.closed hs hclose (by decide)
  obtain ⟨v, vs, p, rfl, hv, hp⟩ := hps.cases hs
  have hne : Cursor.ahead ctx.inBrackets (v :: vs) ≠ ")" :=
    hv.ahead_ne vs _ (fun he => hp (by rw [he]; decide)) (by decide)
  have hstar : v.text ≠ "*" := by
    rw [hv.text]
    exact fun he => hp (by rw [he]; decide)
  have hyield : v.text ≠ "yield" := by
    rw [hv.text]
    exact fun he => hp (by rw [he]; decide)
  have helement : element self ctx.inBrackets (v :: vs) = some (e, u :: rest) := by
    rw [element_eq hv vs, hread]
    exact fun hmem => hp ((by decide : ["*", "yield"] ⊆ nonStarters) hmem)
  unfold atom
  simp only [ht.next, hkind, htext]
  unfold parenthesized
  simp [ht.advance, hne, hv.settle, hv.next, hv.continuations, hstar, hyield, helement,
    hu.ahead_op, hu.advance, hu.continuations]

theorem Closes.clean {closers : List String} (h : Closes closers rest) : Clean rest := by
  obtain ⟨t, us, p, rfl, ht, -⟩ := h
  exact ht.clean us

/-- A comma or a bracket starts no comprehension. -/
theorem startsClause_eq_false {s : String} (h : Cursor.ahead ctx ts = s) (hs : s ∉ ["for", "async"]) :
    startsClause ctx ts = false := by
  simp only [List.mem_cons, List.not_mem_nil, or_false, not_or] at hs
  simp [startsClause, h, hs]

theorem length_lt_of_mem {parts : List (List Piece)} (hn : (Piece.commas parts).length < n) :
    ∀ part ∈ parts, part.length < n :=
  fun _ hpart => Nat.lt_of_le_of_lt (length_le_commas hpart) hn

theorem atomReads_list {items : List Expr} (h : Reads self n)
    (hitems : ∀ i ∈ items, i.isItem = true ∧ i.Printable)
    (hn : (Piece.commas (Expr.piecesList items)).length < n) :
    AtomReads self ctx (.list items) (Expr.list items).pieces := by
  rw [Expr.pieces]
  rintro depth ts rest ⟨t, us, rfl, ht, hs⟩ - - -
  have hkind : t.kind = .op := ht.kind
  have htext : t.text = "[" := ht.text
  have hopens := opens_items hitems
  have hreads : List.Forall₂ (ItemReads (element self ctx.inBrackets) us.length [",", "]"])
      (Expr.piecesList items) items :=
    h.elements rfl hitems (length_lt_of_mem hn) (by decide)
  unfold atom
  simp only [ht.next, hkind, htext]
  unfold bracketed
  cases items with
  | nil =>
    obtain ⟨u, rfl, hu⟩ := spells_singleton hs
    simp [ht.advance, hu.ahead_op, hu.continuations, hu.advance]
  | cons i is =>
    rw [Expr.piecesList] at hs hopens hreads
    obtain ⟨hopen, hopens⟩ := List.forall_mem_cons.mp hopens
    cases hreads with
    | cons hitem hreads =>
      obtain ⟨v, vs, p, rfl, hv, hp⟩ := (opens_commas_cons hopen _ _).cases hs
      have hne : Cursor.ahead ctx.inBrackets (v :: vs) ≠ "]" :=
        hv.ahead_ne vs _ (fun he => hp (by simp [he])) (by decide)
      obtain ⟨mid, hpart, hmid, hcases⟩ := display_first (some id) (by decide) (by decide) hreads
        (fun q hq => (hopens q hq).mono (by decide)) hs (Nat.le_refl _)
      have hread := hitem _ _ hpart hmid (Nat.le_refl _)
      have hmid := hmid.clean
      rcases hcases with ⟨rfl, hahead, hadvance⟩ | ⟨hahead, hmore⟩
      · simp [ht.advance, hne, hv.settle, hv.continuations, hread, hmid.continuations, hahead,
          hadvance, startsClause_eq_false (hahead _)]
      · simp [ht.advance, hne, hv.settle, hv.continuations, hread, hmid.continuations, hahead,
          startsClause_eq_false (hahead _), hmore]

/-- An element with an asterisk is one that is spread. -/
theorem splat_of_element {mid : Cursor} (h : element self ctx ts = some (e, mid))
    (hstar : (Cursor.next ts).text = "*") : ∃ long, splat self ctx ts = some ((e, long), mid) := by
  unfold element at h
  simp only [hstar, Option.map_eq_some_iff] at h
  obtain ⟨⟨⟨e', long⟩, mid'⟩, hsplat, heq⟩ := h
  obtain ⟨rfl, rfl⟩ := Prod.mk.inj heq
  exact ⟨long, hsplat⟩

theorem atomReads_tuple {items : List Expr} (h : Reads self n)
    (hitems : ∀ i ∈ items, i.isItem = true ∧ i.Printable)
    (hn : (Piece.commasTuple (Expr.piecesList items)).length < n) :
    AtomReads self ctx (.tuple items) (Expr.tuple items).pieces := by
  rw [Expr.pieces]
  rintro depth ts rest ⟨t, us, rfl, ht, hs⟩ - - -
  have hkind : t.kind = .op := ht.kind
  have htext : t.text = "(" := ht.text
  have hopens := opens_items hitems
  have hlen : ∀ part ∈ Expr.piecesList items, part.length < n := fun part hpart =>
    Nat.lt_of_le_of_lt (length_le_commasTuple hpart) hn
  have hreads : List.Forall₂ (ItemReads (element self ctx.inBrackets) us.length [",", ")"])
      (Expr.piecesList items) items := h.elements rfl hitems hlen (by decide)
  unfold atom
  simp only [ht.next, hkind, htext]
  unfold parenthesized
  cases items with
  | nil =>
    obtain ⟨u, rfl, hu⟩ := spells_singleton hs
    simp [ht.advance, hu.ahead_op, hu.continuations, hu.advance]
  | cons i is =>
    rw [Expr.piecesList] at hs hopens hreads hlen
    obtain ⟨hopen, hopens⟩ := List.forall_mem_cons.mp hopens
    obtain ⟨hi, -⟩ := List.forall_mem_cons.mp hitems
    obtain ⟨hlen, -⟩ := List.forall_mem_cons.mp hlen
    cases hreads with
    | cons hitem hreads =>
      obtain ⟨v, vs, p, rfl, hv, hp⟩ := (opens_commasTuple_cons hopen _ _).cases hs
      have hne : Cursor.ahead ctx.inBrackets (v :: vs) ≠ ")" :=
        hv.ahead_ne vs _ (fun he => hp (by simp [he])) (by decide)
      obtain ⟨mid, hpart, hcomma, hmore⟩ := tuple_first (some id) (by decide) (by decide)
        hreads (fun q hq => (hopens q hq).mono (by decide)) hs (Nat.le_refl _)
      have hfirst := hitem _ _ hpart (hcomma.mono (by simp)) (Nat.le_refl _)
      obtain ⟨u, ws, q, rfl, hu, hkind, htext⟩ := hcomma
      have hahead : Cursor.ahead ctx.inBrackets (u :: ws) = "," := by
        rw [hu.ahead_text ws hkind, List.mem_singleton.mp htext]
      by_cases hstar : v.text = "*"
      · obtain ⟨long, hsplat⟩ := splat_of_element hfirst (by rw [hv.next, hstar])
        simp [ht.advance, hne, hv.settle, hv.next, hv.continuations, hstar, hsplat, hahead,
          hu.continuations, hmore]
      · simp [ht.advance, hne, hv.settle, hv.next, hv.continuations, hstar, hfirst, hahead,
          hu.continuations, hmore]

theorem atomReads_set {items : List Expr} (h : Reads self n) (hne : items ≠ [])
    (hitems : ∀ i ∈ items, i.isItem = true ∧ i.Printable)
    (hn : (Piece.commas (Expr.piecesList items)).length < n) :
    AtomReads self ctx (.set items) (Expr.set items).pieces := by
  cases items with
  | nil => exact absurd rfl hne
  | cons i is =>
    rw [Expr.pieces]
    rintro depth ts rest ⟨t, us, rfl, ht, hs⟩ - - -
    have hkind : t.kind = .op := ht.kind
    have htext : t.text = "\x7b" := ht.text
    have hopens := opens_items hitems
    have hreads : List.Forall₂ (ItemReads (element self ctx.inBrackets) us.length [",", "\x7d"])
        (Expr.piecesList (i :: is)) (i :: is) :=
      h.elements rfl hitems (length_lt_of_mem hn) (by decide)
    rw [Expr.piecesList] at hopens hreads
    obtain ⟨hopen, hopens⟩ := List.forall_mem_cons.mp hopens
    cases hreads with
    | cons hitem hreads =>
      have hfirst := (opens_commas_cons hopen _ _).ahead hs (by decide) ctx.inBrackets
      simp only [List.mem_cons, List.not_mem_nil, or_false, not_or] at hfirst
      obtain ⟨v, vs, p, rfl, hv, -⟩ := (opens_commas_cons hopen _ _).cases hs
      obtain ⟨mid, hpart, hmid, hcases⟩ := display_first (some id) (by decide) (by decide) hreads
        (fun q hq => (hopens q hq).mono (by decide)) hs (Nat.le_refl _)
      have hread := hitem _ _ hpart hmid (Nat.le_refl _)
      have hmid := hmid.clean
      unfold atom
      simp only [ht.next, hkind, htext]
      unfold braced
      simp only [ht.advance]
      split
      · exact absurd ‹_› hfirst.2.2.1
      · exact absurd ‹_› hfirst.2.2.2.1
      · exact absurd ‹_› hfirst.2.2.2.2
      · rcases hcases with ⟨rfl, hahead, hadvance⟩ | ⟨hahead, hmore⟩
        · simp [hv.settle, hv.continuations, hread, hmid.continuations, hahead,
            hadvance, startsClause_eq_false (hahead _)]
        · simp [hv.settle, hv.continuations, hread, hmid.continuations, hahead,
            startsClause_eq_false (hahead _), hmore]

/-! ## Dictionaries -/

theorem whole_eq {t : Token} {p : Piece} {us : Cursor} (ht : t.Spells p)
    (hp : p.text ∉ ["*", "yield"]) (result : Expr × Cursor) :
    whole self ctx (t :: us) result = some result := by
  simp only [List.mem_cons, List.not_mem_nil, or_false, not_or] at hp
  unfold whole
  rw [ht.next, ht.text]
  split
  · exact absurd ‹_› hp.1
  · exact absurd ‹_› hp.2
  · rfl

theorem expect?_op {t : Token} {s : String} (ht : t.Spells (Piece.op s)) (us : Cursor)
    (ctx : Context) : Cursor.expect? ctx s (t :: us) = some us := by
  simp [Cursor.expect?, ht.ahead_op, ht.advance]

theorem expect?_word {t : Token} {s : String} (ht : t.Spells (Piece.word s)) (us : Cursor)
    (ctx : Context) : Cursor.expect? ctx s (t :: us) = some us := by
  simp [Cursor.expect?, ht.ahead_word, ht.advance]

/-- The tokens of an entry of a dictionary. -/
theorem Reads.entry_parts {k v : Expr} {closers : List String} (h : Reads self n)
    (hctx : ctx.ternary = true) (hk : k.isPlain = true ∧ k.Printable)
    (hv : v.isPlain = true ∧ v.Printable)
    (hlen : (wrapPieces 1 k k.pieces ++
      Piece.op ":" :: Piece.after (wrapPieces 1 v v.pieces)).length < n)
    (hapart : ∀ s ∈ closers, s ∉ allMarks)
    (hs : Spells (wrapPieces 1 k k.pieces ++
      Piece.op ":" :: Piece.after (wrapPieces 1 v v.pieces)) ts rest) (hclose : Closes closers rest) :
    ∃ t us p u vs, ts = t :: us ∧ t.Spells p ∧ p.text ∉ nonStarters ∧ u.Spells (Piece.op ":") ∧
      self ctx ts = some (k, u :: vs) ∧ self ctx vs = some (v, rest) := by
  obtain ⟨mid, hks, u, vs, rfl, hu, hvs⟩ := spells_append.mp hs
  rw [spells_after] at hvs
  simp only [List.length_append, List.length_cons, Piece.length_after] at hlen
  have hcolon : Closes [":"] (u :: vs) := ⟨u, vs, _, rfl, hu, .inr rfl, by simp⟩
  have hkey := (h.whole hk.1 hk.2 (by omega) (.inl hctx)).closed hks hcolon (by decide)
  have hvalue := (h.whole hv.1 hv.2 (by omega) (.inl hctx)).closed hvs hclose hapart
  have hstarts := Expr.starts_wrapPieces (Expr.starts_pieces k hk.1 hk.2) (Nat.le_refl 1) (by decide)
  obtain ⟨t, us, p, rfl, ht, hp⟩ := hstarts.first.cases hks
  exact ⟨t, us, p, u, vs, rfl, ht, hp, hu, hkey, hvalue⟩

theorem Reads.entry {k v : Expr} {closers : List String} (h : Reads self n)
    (hctx : ctx.ternary = true) (hk : k.isPlain = true ∧ k.Printable)
    (hv : v.isPlain = true ∧ v.Printable)
    (hlen : (wrapPieces 1 k k.pieces ++
      Piece.op ":" :: Piece.after (wrapPieces 1 v v.pieces)).length < n)
    (hapart : ∀ s ∈ closers, s ∉ allMarks) :
    ItemReads (Source.entry self ctx) bound closers
      (wrapPieces 1 k k.pieces ++ Piece.op ":" :: Piece.after (wrapPieces 1 v v.pieces))
      (some (k, v)) := by
  intro ts rest hs hclose _
  obtain ⟨t, us, p, u, vs, rfl, ht, hp, hu, hkey, hvalue⟩ :=
    h.entry_parts hctx hk hv hlen hapart hs hclose
  have hstars : t.text ≠ "**" := by
    rw [ht.text]
    exact fun he => hp (by rw [he]; decide)
  unfold Source.entry
  simp [ht.next, hstars, hkey, expect?_op hu, hvalue]

theorem Reads.entries {closers : List String} {entries : List (Expr × Expr)} (h : Reads self n)
    (hctx : ctx.ternary = true)
    (hplain : ∀ x ∈ entries, x.1.isPlain = true ∧ x.2.isPlain = true)
    (hentries : ∀ x ∈ entries, x.1.Printable ∧ x.2.Printable)
    (hlen : ∀ part ∈ Expr.piecesEntries entries, part.length < n)
    (hapart : ∀ s ∈ closers, s ∉ allMarks) :
    List.Forall₂ (ItemReads (Source.entry self ctx) bound closers) (Expr.piecesEntries entries)
      (entries.map some) := by
  induction entries with
  | nil => exact .nil
  | cons x xs ih =>
    obtain ⟨k, v⟩ := x
    rw [Expr.piecesEntries] at hlen ⊢
    obtain ⟨hp, hps⟩ := List.forall_mem_cons.mp hplain
    obtain ⟨hx, hxs⟩ := List.forall_mem_cons.mp hentries
    obtain ⟨hlen, hlens⟩ := List.forall_mem_cons.mp hlen
    exact .cons (h.entry hctx ⟨hp.1, hx.1⟩ ⟨hp.2, hx.2⟩ hlen hapart) (ih hps hxs hlens)

theorem opens_entries {entries : List (Expr × Expr)} (hplain : ∀ x ∈ entries, x.1.isPlain = true)
    (hentries : ∀ x ∈ entries, x.1.Printable) :
    ∀ part ∈ Expr.piecesEntries entries, Opens nonStarters part := by
  induction entries with
  | nil => simp [Expr.piecesEntries]
  | cons x xs ih =>
    obtain ⟨k, v⟩ := x
    obtain ⟨hp, hps⟩ := List.forall_mem_cons.mp hplain
    obtain ⟨hx, hxs⟩ := List.forall_mem_cons.mp hentries
    rw [Expr.piecesEntries, List.forall_mem_cons]
    have hstarts := Expr.starts_wrapPieces (Expr.starts_pieces k hp hx) (Nat.le_refl 1) (by decide)
    exact ⟨hstarts.first.append _, ih hps hxs⟩

theorem dictOf_map_some (start finish : Cursor) (entries : List (Expr × Expr)) :
    dictOf start finish (entries.map some) = .dict entries := by
  have hmap : ∀ xs : List (Expr × Expr), (xs.map some).mapM id = some xs := by
    intro xs
    induction xs with
    | nil => rfl
    | cons x xs ih => simp [List.mapM_cons, ih]
  simp [dictOf, hmap]

theorem atomReads_dict {entries : List (Expr × Expr)} (h : Reads self n)
    (hplain : ∀ x ∈ entries, x.1.isPlain = true ∧ x.2.isPlain = true)
    (hentries : ∀ x ∈ entries, x.1.Printable ∧ x.2.Printable)
    (hn : (Piece.commas (Expr.piecesEntries entries)).length < n) :
    AtomReads self ctx (.dict entries) (Expr.dict entries).pieces := by
  rw [Expr.pieces]
  rintro depth ts rest ⟨t, us, rfl, ht, hs⟩ - - -
  have hkind : t.kind = .op := ht.kind
  have htext : t.text = "\x7b" := ht.text
  have hopens := opens_entries (fun x hx => (hplain x hx).1) fun x hx => (hentries x hx).1
  have hreads : List.Forall₂ (ItemReads (entry self ctx.inBrackets) us.length [",", "\x7d"])
      (Expr.piecesEntries entries) (entries.map some) :=
    h.entries rfl hplain hentries (length_lt_of_mem hn) (by decide)
  have hlens := length_lt_of_mem hn
  have hternary : ctx.inBrackets.ternary = true := rfl
  unfold atom
  simp only [ht.next, hkind, htext]
  unfold braced
  cases entries with
  | nil =>
    obtain ⟨u, rfl, hu⟩ := spells_singleton hs
    simp [ht.advance, hu.ahead_op, hu.continuations, hu.advance, dictOf]
  | cons x xs =>
    obtain ⟨k, v⟩ := x
    rw [Expr.piecesEntries] at hs hopens hreads hlens
    obtain ⟨hopen, hopens⟩ := List.forall_mem_cons.mp hopens
    obtain ⟨hlen, -⟩ := List.forall_mem_cons.mp hlens
    obtain ⟨hp, -⟩ := List.forall_mem_cons.mp hplain
    obtain ⟨hx, -⟩ := List.forall_mem_cons.mp hentries
    cases hreads with
    | cons _ hreads =>
      have hfirst := (opens_commas_cons (hopen.mono (by decide : ["\x7d", ",", "**"] ⊆ _)) _ _).ahead
        hs (by decide) ctx.inBrackets
      simp only [List.mem_cons, List.not_mem_nil, or_false, not_or] at hfirst
      obtain ⟨mid, hpart, hmid, hcases⟩ := display_first (some fun _ => none) (by decide) (by decide)
        hreads (fun q hq => (hopens q hq).mono (by decide)) hs (Nat.le_refl _)
      obtain ⟨w, ws, p, u, vs, rfl, hw, hpw, hu, hkey, hvalue⟩ :=
        h.entry_parts hternary ⟨hp.1, hx.1⟩ ⟨hp.2, hx.2⟩ hlen (by decide) hpart hmid
      have hpw : p.text ∉ ["*", "yield"] := fun hmem => hpw ((by decide : _ ⊆ nonStarters) hmem)
      have helement : element self ctx.inBrackets (w :: ws) = some (k, u :: vs) := by
        rw [element_eq hw ws hpw, hkey]
      have hmid := hmid.clean
      simp only [ht.advance]
      split
      · exact absurd ‹_› hfirst.1
      · exact absurd ‹_› hfirst.2.1
      · exact absurd ‹_› hfirst.2.2
      · have hdict := dictOf_map_some (t :: w :: ws) rest ((k, v) :: xs)
        rw [List.map_cons] at hdict
        rcases hcases with ⟨hxs, hahead, hadvance⟩ | ⟨hahead, hmore⟩
        · rw [hxs] at hdict
          simp [hw.settle, hw.continuations, helement, hu.ahead_op, whole_eq hw hpw, expect?_op hu,
            hvalue, startsClause_eq_false (hahead _), hmid.continuations, hahead, hadvance, hdict]
        · simp [hw.settle, hw.continuations, helement, hu.ahead_op, whole_eq hw hpw, expect?_op hu,
            hvalue, startsClause_eq_false (hahead _), hmid.continuations, hahead, hmore, hdict]

end Concord.Source
