import Concord.Proofs.Source.Piece
import Concord.Source.Cursor
import Mathlib.Data.List.Forall2

/-!
# Reading positions that spell pieces

`Spells ps ts rest` says that the tokens `ts` start with the pieces `ps`, on one line, and go on
with `rest`. At such a position no comment, continuation or line break is in the way, so every
question a reader asks about the next token is answered by the piece. What may come after an
expression is `Stops`: nothing that its reader would go on with.
-/

namespace Concord.Source

variable {ctx : Context} {p : Piece} {ps qs : List Piece} {t : Token} {ts us mid rest : Cursor}

/-- A token in the middle of a line with the class and the text of a piece. -/
structure Token.Spells (t : Token) (p : Piece) : Prop where
  kind : t.kind = p.kind
  text : t.text = p.text
  line : t.line = none
  holes : t.holes = []
  solid : t.isTrivia = false

/-- The tokens `ts` start with the pieces `ps` and go on with `rest`. -/
def Spells : List Piece → Cursor → Cursor → Prop
  | [], ts, rest => ts = rest
  | p :: ps, ts, rest => ∃ t us, ts = t :: us ∧ t.Spells p ∧ Spells ps us rest

theorem spells_append : Spells (ps ++ qs) ts rest ↔ ∃ mid, Spells ps ts mid ∧ Spells qs mid rest := by
  induction ps generalizing ts with
  | nil =>
    constructor
    · intro h
      exact ⟨ts, rfl, h⟩
    · rintro ⟨mid, rfl, h⟩
      exact h
  | cons p ps ih =>
    constructor
    · rintro ⟨t, us, rfl, ht, h⟩
      obtain ⟨mid, hps, hqs⟩ := ih.mp h
      exact ⟨mid, ⟨t, us, rfl, ht, hps⟩, hqs⟩
    · rintro ⟨mid, ⟨t, us, rfl, ht, hps⟩, hqs⟩
      exact ⟨t, us, rfl, ht, ih.mpr ⟨mid, hps, hqs⟩⟩

/-- A blank before the first piece makes no difference. -/
theorem spells_after : Spells (Piece.after ps) ts rest ↔ Spells ps ts rest := by
  cases ps with
  | nil => rfl
  | cons p ps =>
    constructor
    · rintro ⟨t, us, rfl, ⟨hk, ht, hl, hh, hs⟩, h⟩
      exact ⟨t, us, rfl, ⟨hk, ht, hl, hh, hs⟩, h⟩
    · rintro ⟨t, us, rfl, ⟨hk, ht, hl, hh, hs⟩, h⟩
      exact ⟨t, us, rfl, ⟨hk, ht, hl, hh, hs⟩, h⟩

theorem Spells.length (h : Spells ps ts rest) : ts.length = ps.length + rest.length := by
  induction ps generalizing ts with
  | nil =>
    rw [show ts = rest from h]
    simp
  | cons p ps ih =>
    obtain ⟨t, us, rfl, -, h⟩ := h
    rw [List.length_cons, ih h, List.length_cons]
    omega

/-! ## The next token -/

namespace Token.Spells

variable (h : t.Spells p) (us : Cursor)

include h

theorem skip : Cursor.skip (t :: us) = t :: us := by
  simp [Cursor.skip, h.solid]

theorem next : Cursor.next (t :: us) = t := by
  simp [Cursor.next, h.skip us]

theorem advance : Cursor.advance (t :: us) = us := by
  simp [Cursor.advance, h.skip us]

theorem settle : Cursor.settle (t :: us) = t :: us := by
  unfold Cursor.settle
  rw [h.skip us]
  have hline := h.line
  cases t
  simp only [Token.line] at hline
  subst hline
  rfl

theorem dedents (indent : Nat) : Cursor.dedents indent (t :: us) = false := by
  simp [Cursor.dedents, h.solid, h.next us, h.line]

theorem operand? (ctx : Context) : Cursor.operand? ctx (t :: us) = some (t :: us) := by
  simp [Cursor.operand?, h.dedents us, h.skip us]

theorem continuations : Cursor.continuations (t :: us) = [] := by
  simp [Cursor.continuations, h.solid]

theorem ahead (ctx : Context) :
    Cursor.ahead ctx (t :: us) = if p.kind = .word ∨ p.kind = .op then p.text else "" := by
  unfold Cursor.ahead
  simp only [h.next us, h.dedents us, h.line, h.kind, h.text, Bool.or_eq_true, beq_iff_eq]
  cases ctx.breaks <;> simp

theorem ahead_text (hkind : p.kind = .word ∨ p.kind = .op) (ctx : Context) :
    Cursor.ahead ctx (t :: us) = p.text := by
  rw [h.ahead us ctx, if_pos hkind]

end Token.Spells

theorem Token.Spells.ahead_op {s : String} (h : t.Spells (Piece.op s)) (us : Cursor)
    (ctx : Context) : Cursor.ahead ctx (t :: us) = s := h.ahead_text us (.inr rfl) ctx

theorem Token.Spells.ahead_word {s : String} (h : t.Spells (Piece.word s)) (us : Cursor)
    (ctx : Context) : Cursor.ahead ctx (t :: us) = s := h.ahead_text us (.inl rfl) ctx

/-- A blank before a token makes no difference. -/
theorem Token.Spells.unspaced (h : t.Spells p.spaced) : t.Spells p :=
  ⟨h.kind, h.text, h.line, h.holes, h.solid⟩

/-! ## What may follow -/

/-- A position at which a token stands that is no comment and no continuation. -/
def Clean (ts : Cursor) : Prop := ∃ t us, ts = t :: us ∧ t.isTrivia = false

theorem Clean.continuations (h : Clean ts) : Cursor.continuations ts = [] := by
  obtain ⟨t, us, rfl, ht⟩ := h
  simp [Cursor.continuations, ht]

theorem Clean.skip (h : Clean ts) : Cursor.skip ts = ts := by
  obtain ⟨t, us, rfl, ht⟩ := h
  simp [Cursor.skip, ht]

theorem Token.Spells.clean (h : t.Spells p) (us : Cursor) : Clean (t :: us) :=
  ⟨t, us, rfl, h.solid⟩

/-- No string follows that would be joined to one before it. -/
def NoString (ctx : Context) (ts : Cursor) : Prop :=
  ((Cursor.next ts).kind == .string && !(ctx.breaks == .ends && (Cursor.next ts).line.isSome)) = false

/-- A reader that goes on with `marks` is done here. -/
structure Stops (ctx : Context) (marks : List String) (rest : Cursor) : Prop where
  clean : Clean rest
  noString : NoString ctx rest
  ahead : Cursor.ahead ctx rest ∉ marks

theorem Stops.mono {marks marks' : List String} (h : Stops ctx marks rest) (hsub : marks' ⊆ marks) :
    Stops ctx marks' rest :=
  ⟨h.clean, h.noString, fun hmem => h.ahead (hsub hmem)⟩

/-- A word or an operator that is none of the marks. -/
theorem Token.Spells.stops {marks : List String} (h : t.Spells p) (us : Cursor) (ctx : Context)
    (hkind : p.kind = .word ∨ p.kind = .op) (htext : p.text ∉ marks) :
    Stops ctx marks (t :: us) := by
  refine ⟨h.clean us, ?_, ?_⟩
  · unfold NoString
    rw [h.next us, h.kind]
    rcases hkind with hk | hk <;> simp [hk]
  · rw [h.ahead us ctx, if_pos hkind]
    exact htext

/-- The token after an expression in brackets: a word or an operator that spells one of `marks`. -/
def Closes (marks : List String) (rest : Cursor) : Prop :=
  ∃ t us p, rest = t :: us ∧ t.Spells p ∧ (p.kind = .word ∨ p.kind = .op) ∧ p.text ∈ marks

theorem Closes.stops {marks closers : List String} (h : Closes closers rest) (ctx : Context)
    (hapart : ∀ s ∈ closers, s ∉ marks) : Stops ctx marks rest := by
  obtain ⟨t, us, p, rfl, ht, hkind, htext⟩ := h
  exact ht.stops us ctx hkind (hapart _ htext)

theorem Closes.ahead_mem {closers : List String} (h : Closes closers rest) (ctx : Context) :
    Cursor.ahead ctx rest ∈ closers := by
  obtain ⟨t, us, p, rfl, ht, hkind, htext⟩ := h
  rw [ht.ahead_text us hkind]
  exact htext

theorem Closes.mono {closers closers' : List String} (h : Closes closers rest)
    (hsub : closers ⊆ closers') : Closes closers' rest := by
  obtain ⟨t, us, p, hrest, ht, hkind, htext⟩ := h
  exact ⟨t, us, p, hrest, ht, hkind, hsub htext⟩

/-- Pieces whose first one has none of the given texts. -/
def Opens (bad : List String) : List Piece → Prop
  | [] => False
  | p :: _ => p.text ∉ bad

instance (bad : List String) : (ps : List Piece) → Decidable (Opens bad ps)
  | [] => inferInstanceAs (Decidable False)
  | p :: _ => inferInstanceAs (Decidable (p.text ∉ bad))

theorem opens_cons {bad : List String} (h : p.text ∉ bad) (ps : List Piece) :
    Opens bad (p :: ps) := h

theorem Opens.append {bad : List String} (h : Opens bad ps) (qs : List Piece) :
    Opens bad (ps ++ qs) := by
  cases ps with
  | nil => exact h.elim
  | cons p ps => exact h

theorem Opens.mono {bad bad' : List String} (h : Opens bad ps) (hsub : bad' ⊆ bad) :
    Opens bad' ps := by
  cases ps with
  | nil => exact h.elim
  | cons p ps => exact fun hmem => h (hsub hmem)

theorem Opens.join {bad bad' : List String} (h : Opens bad ps) (h' : Opens bad' ps) :
    Opens (bad ++ bad') ps := by
  cases ps with
  | nil => exact h.elim
  | cons p ps =>
    intro hmem
    rcases List.mem_append.mp hmem with hmem | hmem
    · exact h hmem
    · exact h' hmem

theorem Opens.after {bad : List String} (h : Opens bad ps) : Opens bad (Piece.after ps) := by
  cases ps with
  | nil => exact h.elim
  | cons p ps => exact h

/-- The first token of pieces that do not start with `s`. -/
theorem Opens.cases {bad : List String} (h : Opens bad ps) (hs : Spells ps ts rest) :
    ∃ t us p, ts = t :: us ∧ t.Spells p ∧ p.text ∉ bad := by
  cases ps with
  | nil => exact h.elim
  | cons p ps =>
    obtain ⟨t, us, rfl, ht, -⟩ := hs
    exact ⟨t, us, p, rfl, ht, h⟩

/-- What follows is not `s`, where the first piece has another text. -/
theorem Token.Spells.ahead_ne {s : String} (h : t.Spells p) (us : Cursor) (ctx : Context)
    (htext : p.text ≠ s) (hs : s ≠ "") : Cursor.ahead ctx (t :: us) ≠ s := by
  rw [h.ahead us ctx]
  split
  · exact htext
  · exact hs.symm

theorem Token.Spells.ahead_not_mem {bad : List String} (h : t.Spells p) (us : Cursor)
    (ctx : Context) (hp : p.text ∉ bad) (hempty : "" ∉ bad) : Cursor.ahead ctx (t :: us) ∉ bad := by
  rw [h.ahead us ctx]
  split
  · exact hp
  · exact hempty

/-! ## Items divided by commas -/

variable {α : Type}

/-- The reader gives `a` for the pieces where one of `closers` follows and at most `bound` tokens are
left. -/
def ItemReads (item : Reader α) (bound : Nat) (closers : List String) (ps : List Piece) (a : α) :
    Prop :=
  ∀ ts rest, Spells ps ts rest → Closes closers rest → ts.length ≤ bound → item ts = some (a, rest)

section Brackets

variable {close : String} {extra : Option (Expr → α)} {item : Reader α} {fuel : Nat} {acc : List α}
  {a : α}

theorem bracketItems_close (hts : Clean ts) (h : Cursor.ahead {} ts = close) :
    bracketItems close extra item (fuel + 1) acc ts = some (acc, Cursor.advance ts) := by
  rw [bracketItems]
  cases extra <;> simp [hts.continuations, h]

theorem bracketItems_comma (hts : Clean ts) (hne : Cursor.ahead {} ts ≠ close)
    (hitem : item (Cursor.settle ts) = some (a, mid)) (hmid : Clean mid)
    (hsep : Cursor.ahead {} mid = ",") :
    bracketItems close extra item (fuel + 1) acc ts =
      bracketItems close extra item fuel (acc ++ [a]) (Cursor.advance mid) := by
  rw [bracketItems]
  cases extra <;> simp [hts.continuations, hmid.continuations, hne, hitem, hsep]

theorem bracketItems_last (hts : Clean ts) (hne : Cursor.ahead {} ts ≠ close)
    (hitem : item (Cursor.settle ts) = some (a, mid)) (hmid : Clean mid)
    (hsep : Cursor.ahead {} mid = close) (hcomma : close ≠ ",") :
    bracketItems close extra item (fuel + 1) acc ts = some (acc ++ [a], Cursor.advance mid) := by
  rw [bracketItems]
  cases extra <;> simp [hts.continuations, hmid.continuations, hne, hitem, hsep, hcomma]

/-- Items in brackets are read one by one. -/
theorem bracketItems_reads (hclose : close ≠ "") (hcomma : close ≠ ",")
    (extra : Option (Expr → α)) {bound : Nat} {parts : List (List Piece)} {as : List α}
    (hitems : List.Forall₂ (ItemReads item bound [",", close]) parts as)
    (hopens : ∀ part ∈ parts, Opens [close] part) :
    ∀ fuel acc ts rest, Spells (Piece.commas parts ++ [Piece.op close]) ts rest →
      ts.length < fuel → ts.length ≤ bound →
        bracketItems close extra item fuel acc ts = some (acc ++ as, rest) := by
  induction hitems with
  | nil =>
    rintro (_ | fuel) acc ts rest ⟨t, us, rfl, ht, h⟩ hfuel -
    · omega
    · obtain rfl : us = rest := h
      rw [bracketItems_close (ht.clean us) (ht.ahead_op us {}), ht.advance, List.append_nil]
  | @cons part a parts as hitem hitems ih =>
    rintro (_ | fuel) acc ts rest h hfuel hbound
    · omega
    obtain ⟨hopen, hopens⟩ := List.forall_mem_cons.mp hopens
    cases hitems with
    | nil =>
      obtain ⟨mid, hpart, u, vs, rfl, hu, h⟩ := spells_append.mp h
      obtain rfl : vs = rest := h
      obtain ⟨t, us, p, rfl, ht, htext⟩ := hopen.cases hpart
      have hne := ht.ahead_ne us {} (fun he => htext (List.mem_singleton.mpr he)) hclose
      have hcloses : Closes [",", close] (u :: vs) := ⟨u, vs, _, rfl, hu, .inr rfl, by simp⟩
      have hread := hitem _ _ hpart hcloses hbound
      rw [← ht.settle us] at hread
      rw [bracketItems_last (ht.clean us) hne hread (hu.clean vs) (hu.ahead_op vs {}) hcomma,
        hu.advance]
    | @cons part' a' parts as hitem' hitems =>
      rw [show Piece.commas (part :: part' :: parts) =
          part ++ Piece.op "," :: Piece.after (Piece.commas (part' :: parts)) from rfl,
        List.append_assoc] at h
      obtain ⟨mid, hpart, u, vs, rfl, hu, hvs⟩ := spells_append.mp h
      obtain ⟨t, us, p, rfl, ht, htext⟩ := hopen.cases hpart
      have hne := ht.ahead_ne us {} (fun he => htext (List.mem_singleton.mpr he)) hclose
      have hcloses : Closes [",", close] (u :: vs) := ⟨u, vs, _, rfl, hu, .inr rfl, by simp⟩
      have hread := hitem _ _ hpart hcloses hbound
      have hlen := hpart.length
      rw [← ht.settle us] at hread
      rw [bracketItems_comma (ht.clean us) hne hread (hu.clean vs) (hu.ahead_op vs {}), hu.advance,
        ih hopens fuel (acc ++ [a]) vs rest]
      · simp
      · obtain ⟨last, h1, h2⟩ := spells_append.mp hvs
        exact spells_append.mpr ⟨last, spells_after.mp h1, h2⟩
      · simp only [List.length_cons] at hfuel hlen
        omega
      · simp only [List.length_cons] at hbound hlen
        omega

end Brackets

section Commas

variable {extra : Option (Expr → α)} {item : Reader α} {fuel : Nat} {a : α}

/-- A single item. -/
theorem commaItems_one (hitem : item ts = some (a, rest)) (hrest : Cursor.ahead ctx rest ≠ ",") :
    commaItems ctx extra item (fuel + 1) ts = some ([a], false, rest) := by
  rw [commaItems]
  simp [hitem, hrest]

/-- An item before a comma that more items follow. -/
theorem commaItems_more {as : List α} {flag : Bool} (hitem : item ts = some (a, mid))
    (hmid : Clean mid) (hsep : Cursor.ahead ctx mid = ",") (hafter : Clean (Cursor.advance mid))
    (hline : (Cursor.next (Cursor.advance mid)).line = none)
    (hmore : commaItems ctx extra item fuel (Cursor.advance mid) = some (as, flag, rest)) :
    commaItems ctx extra item (fuel + 1) ts = some (a :: as, true, rest) := by
  rw [commaItems]
  cases extra <;>
    simp [hitem, hsep, hline, hmore, hmid.continuations, hafter.continuations]

/-- An item before a comma that ends the list. -/
theorem commaItems_end (hitem : item ts = some (a, mid)) (hmid : Clean mid)
    (hsep : Cursor.ahead ctx mid = ",")
    (hmore : commaItems ctx extra item fuel (Cursor.advance mid) = none) :
    commaItems ctx extra item (fuel + 1) ts = some ([a], true, Cursor.advance mid) := by
  rw [commaItems]
  cases extra <;> simp [hitem, hsep, hmore, hmid.continuations]

/-- The reader gives `a` for the pieces where a comma follows or `ok` holds and at most `bound` tokens
are left. -/
def LastReads (item : Reader α) (bound : Nat) (ok : Cursor → Prop) (ps : List Piece) (a : α) :
    Prop :=
  ∀ ts rest, Spells ps ts rest → Closes [","] rest ∨ ok rest → ts.length ≤ bound →
    item ts = some (a, rest)

/-- Items divided by commas are read one by one. -/
theorem commaItems_reads {ok : Cursor → Prop} {bound : Nat} (extra : Option (Expr → α))
    (hok : ∀ rest, ok rest → Cursor.ahead ctx rest ≠ ",") {parts : List (List Piece)} {as : List α}
    (hitems : List.Forall₂ (LastReads item bound ok) parts as) (hne : parts ≠ [])
    (hopens : ∀ part ∈ parts, part ≠ []) :
    ∀ fuel ts rest, Spells (Piece.commas parts) ts rest → ts.length < fuel → ts.length ≤ bound →
      ok rest → commaItems ctx extra item fuel ts = some (as, decide (1 < as.length), rest) := by
  induction hitems with
  | nil => exact absurd rfl hne
  | @cons part a parts as hitem hitems ih =>
    rintro (_ | fuel) ts rest h hfuel hbound hrest
    · omega
    cases hitems with
    | nil =>
      rw [commaItems_one (hitem _ _ h (.inr hrest) hbound) (hok rest hrest)]
      rfl
    | @cons part' a' parts as hitem' hitems =>
      rw [show Piece.commas (part :: part' :: parts) =
        part ++ Piece.op "," :: Piece.after (Piece.commas (part' :: parts)) from rfl] at h
      obtain ⟨mid, hpart, u, vs, rfl, hu, hvs⟩ := spells_append.mp h
      rw [spells_after] at hvs
      have hread := hitem _ _ hpart (.inl ⟨u, vs, _, rfl, hu, .inr rfl, by simp⟩) hbound
      have hlen := hpart.length
      obtain ⟨-, hopens⟩ := List.forall_mem_cons.mp hopens
      have hrec := ih (by simp) hopens fuel vs rest hvs (by
        simp only [List.length_cons] at hfuel hlen
        omega) (by
        simp only [List.length_cons] at hbound hlen
        omega) hrest
      obtain ⟨v, ws, rfl, p, hv⟩ : ∃ v ws, vs = v :: ws ∧ ∃ p, v.Spells p := by
        have hpart' : part' ≠ [] := hopens part' (by simp)
        cases part' with
        | nil => exact absurd rfl hpart'
        | cons q qs =>
          cases parts with
          | nil =>
            obtain ⟨v, ws, rfl, hv, -⟩ := hvs
            exact ⟨v, ws, rfl, q, hv⟩
          | cons part'' parts =>
            obtain ⟨v, ws, rfl, hv, -⟩ := hvs
            exact ⟨v, ws, rfl, q, hv⟩
      have hafter : Cursor.advance (u :: v :: ws) = v :: ws := hu.advance _
      rw [← hafter] at hrec
      have hclean : Clean (Cursor.advance (u :: v :: ws)) := by
        rw [hafter]
        exact hv.clean ws
      have hline : (Cursor.next (Cursor.advance (u :: v :: ws))).line = none := by
        rw [hafter, hv.next, hv.line]
      rw [commaItems_more hread (hu.clean _) (hu.ahead_op _ ctx) hclean hline hrec]
      simp

end Commas

end Concord.Source
