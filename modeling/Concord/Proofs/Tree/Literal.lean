import Concord.Tree.Literal

/-!
# Literals read back

The written form of an integer, a double or a string stands for the value it was written from. A
string keeps its value and its bytes mark; it stays raw exactly where its value fits between the
quotes as it is (`StrLit.read?_write_survives`).
-/

namespace Concord

/-! ## Escapes -/

namespace Escape

/-- A control character is written as two numerals that give it back. -/
theorem hexNumber?_hex {n : Nat} (h : n < 128) :
    (hex 2 n).length = 2 ∧ hexNumber? (hex 2 n) = some n := by
  revert n
  decide

theorem charOf?_toNat {c : Char} (h : c.toNat < 128) : charOf? c.toNat = some c := by
  unfold charOf?
  rw [if_pos, Char.ofNat_toNat]
  simp only [Bool.or_eq_true, decide_eq_true_eq]
  omega

variable {quote : Char} (hquote : StrLit.isQuote quote = true)

include hquote

theorem simple?_quote : simple? quote = some quote := by
  simp only [StrLit.isQuote, Bool.or_eq_true, beq_iff_eq] at hquote
  rcases hquote with rfl | rfl <;> rfl

/-- One written character gives back the character. -/
theorem decodeFrom_encodeChar (c : Char) (cs : List Char) :
    decodeFrom 0 (encodeChar quote c ++ cs) = c :: decodeFrom 0 cs := by
  unfold encodeChar
  split
  case isTrue h => simp [decodeFrom, simple?, h]
  case isFalse hbackslash =>
  split
  case isTrue h => simp [decodeFrom, simple?, h]
  case isFalse =>
  split
  case isTrue h => simp [decodeFrom, simple?, h]
  case isFalse =>
  split
  case isTrue h => simp [decodeFrom, simple?, h]
  case isFalse =>
  split
  case isTrue h =>
    have hnewline : quote ≠ '\n' := by
      rintro rfl
      simp [StrLit.isQuote] at hquote
    subst h
    simp [decodeFrom, hnewline, simple?_quote hquote]
  case isFalse =>
  split
  case isTrue h =>
    have hcode : c.toNat < 128 := by
      simp only [Bool.or_eq_true, decide_eq_true_eq, beq_iff_eq] at h
      omega
    obtain ⟨hlength, hnumber⟩ := hexNumber?_hex hcode
    have htake : (hex 2 c.toNat ++ cs).take 2 = hex 2 c.toNat := by
      exact List.take_left' hlength
    have hskip : decodeFrom 2 (hex 2 c.toNat ++ cs) = decodeFrom 0 cs := by
      match hex 2 c.toNat, hlength with
      | [a, b], _ => rfl
    simp [decodeFrom, simple?, codeWidth?, code, htake, hskip, hnumber, charOf?_toNat hcode, hlength]
  case isFalse =>
    simp [decodeFrom, hbackslash]

theorem decode_encode (cs : List Char) : decode (encode quote cs) = cs := by
  induction cs with
  | nil => rfl
  | cons c cs ih =>
    unfold decode encode at *
    rw [List.flatMap_cons, decodeFrom_encodeChar hquote, ih]

/-- No written character starts with the quote. -/
theorem head?_encodeChar (c : Char) : ∃ d ds, encodeChar quote c = d :: ds ∧ d ≠ quote := by
  have hbackslash : '\\' ≠ quote := by
    rintro rfl
    simp [StrLit.isQuote] at hquote
  unfold encodeChar
  repeat' split
  all_goals exact ⟨_, _, rfl, by assumption⟩

theorem head?_encode (cs : List Char) : (encode quote cs).head? ≠ some quote := by
  cases cs with
  | nil => simp [encode]
  | cons c cs =>
    obtain ⟨d, ds, hc, hd⟩ := head?_encodeChar hquote c
    simp [encode, hc, hd]

end Escape

/-! ## Strings -/

namespace StrLit

theorem isQuote_quote (value : List Char) : isQuote (quote value) = true := by
  unfold quote
  split <;> rfl

/-- Letters, a quote, a content that does not start with it, and the quote again. -/
theorem read?_quoted {mark content : List Char} {q : Char} (hmark : mark.all (!isQuote ·) = true)
    (hf : 'f' ∉ mark.map Char.toLower) (ht : 't' ∉ mark.map Char.toLower)
    (hq : isQuote q = true) (hcontent : content.head? ≠ some q) :
    read? (mark ++ q :: content ++ [q]) = some
      { value := String.ofList
          (if (mark.map Char.toLower).contains 'r' then content else Escape.decode content)
        raw := (mark.map Char.toLower).contains 'r'
        bytes := (mark.map Char.toLower).contains 'b' } := by
  have hall : ∀ c ∈ mark, (!isQuote c) = true := List.all_eq_true.mp hmark
  have htake : (mark ++ q :: (content ++ [q])).takeWhile (!isQuote ·) = mark := by
    rw [List.takeWhile_append_of_pos hall, List.takeWhile_cons_of_neg (by simp [hq]),
      List.append_nil]
  have hdrop : (mark ++ q :: (content ++ [q])).dropWhile (!isQuote ·) = q :: (content ++ [q]) := by
    rw [List.dropWhile_append_of_pos hall, List.dropWhile_cons_of_neg (by simp [hq])]
  -- Three quotes in a row would need the content to start with one.
  have htriple : ∀ c, [c, c, c].isPrefixOf (q :: (content ++ [q])) = false := by
    intro c
    cases content with
    | nil => simp [List.isPrefixOf]
    | cons d ds =>
      have hd : d ≠ q := by simpa using hcontent
      simp only [List.cons_append, List.isPrefixOf, Bool.and_eq_false_imp, beq_iff_eq]
      rintro rfl rfl
      exact absurd rfl hd
  unfold read?
  simp only [List.append_assoc, List.cons_append, htake, hdrop, htriple]
  simp [hf, ht]

/-- A written string has its value and its bytes mark, and is raw where it fits. -/
theorem read?_write (lit : StrLit) :
    read? lit.write = some { lit with raw := lit.raw && fitsRaw lit.value.toList } := by
  have hq := isQuote_quote lit.value.toList
  obtain ⟨value, raw, bytes⟩ := lit
  unfold write
  simp only
  by_cases hraw : (raw && fitsRaw value.toList) = true
  · have hhead : value.toList.head? ≠ some (quote value.toList) := by
      intro h
      have hmem := List.mem_of_mem_head? (Option.mem_def.mpr h)
      simp [fitsRaw, hmem] at hraw
    rw [if_pos hraw, hraw]
    cases bytes
    · have h := @read?_quoted ['r'] value.toList _ (by decide) (by decide) (by decide) hq hhead
      simpa using h
    · have h := @read?_quoted ['b', 'r'] value.toList _ (by decide) (by decide) (by decide) hq hhead
      simpa using h
  · have hhead := Escape.head?_encode hq value.toList
    rw [if_neg hraw, Bool.eq_false_iff.mpr hraw]
    cases bytes
    · have h := @read?_quoted [] _ _ (by decide) (by decide) (by decide) hq hhead
      simpa [Escape.decode_encode hq] using h
    · have h := @read?_quoted ['b'] _ _ (by decide) (by decide) (by decide) hq hhead
      simpa [Escape.decode_encode hq] using h

/-- The run of one item at the end of a list is as long as said, if it ends there. -/
theorem length_trailing {front : List Char} {c : Char} (hfront : front.getLast? ≠ some c) (n : Nat) :
    ((front ++ List.replicate n c).reverse.takeWhile (· == c)).length = n := by
  have hstop : front.reverse.takeWhile (· == c) = [] := by
    rw [← List.head?_reverse] at hfront
    cases hreverse : front.reverse with
    | nil => rfl
    | cons d ds =>
      rw [hreverse, List.head?_cons, ne_eq, Option.some_inj] at hfront
      rw [List.takeWhile_cons_of_neg (by simpa using hfront)]
  rw [List.reverse_append, List.reverse_replicate, List.takeWhile_append_of_pos (by simp), hstop,
    List.append_nil, List.length_replicate]

/-- A list is what comes before the run of one item at its end, and that run. -/
theorem exists_trailing (value : List Char) (c : Char) :
    ∃ front n, value = front ++ List.replicate n c ∧ front.getLast? ≠ some c := by
  obtain ⟨n, hrun⟩ : ∃ n, value.reverse.takeWhile (· == c) = List.replicate n c :=
    ⟨_, List.eq_replicate_iff.mpr
      ⟨rfl, fun d hd => beq_iff_eq.mp (List.all_eq_true.mp List.all_takeWhile d hd)⟩⟩
  refine ⟨(value.reverse.dropWhile (· == c)).reverse, n, ?_, fun hlast => ?_⟩
  · rw [← List.reverse_inj, List.reverse_append, List.reverse_reverse, List.reverse_replicate, ← hrun,
      List.takeWhile_append_dropWhile]
  · have hhead := List.head?_dropWhile_not (· == c) value.reverse
    rw [List.getLast?_reverse] at hlast
    rw [hlast] at hhead
    simp at hhead

/-- What a value needs in order to stand between the quotes as it is. -/
theorem fitsRaw_iff {value : List Char} :
    fitsRaw value = true ↔ quote value ∉ value ∧ '\n' ∉ value ∧ '\r' ∉ value ∧
      ∃ front n, value = front ++ List.replicate (2 * n) '\\' ∧ front.getLast? ≠ some '\\' := by
  have heven : (value.reverse.takeWhile (· == '\\')).length % 2 = 0 ↔
      ∃ front n, value = front ++ List.replicate (2 * n) '\\' ∧ front.getLast? ≠ some '\\' := by
    constructor
    · intro heven
      obtain ⟨front, m, rfl, hfront⟩ := exists_trailing value '\\'
      rw [length_trailing hfront] at heven
      obtain ⟨n, rfl⟩ := Nat.dvd_of_mod_eq_zero heven
      exact ⟨front, n, rfl, hfront⟩
    · rintro ⟨front, n, rfl, hfront⟩
      rw [length_trailing hfront, Nat.mul_mod_right]
  simp only [fitsRaw, Bool.and_eq_true, Bool.not_eq_true', List.contains_eq_mem,
    decide_eq_false_iff_not, beq_iff_eq, heven, and_assoc]

/-- A string literal survives printing and reading. Its value and its bytes mark come back, and it is
raw again where its value can stand between the quotes as it is. -/
theorem read?_write_survives (lit : StrLit) :
    ∃ back, read? lit.write = some back ∧ back.value = lit.value ∧ back.bytes = lit.bytes ∧
      (back.raw = true ↔ lit.raw = true ∧
        quote lit.value.toList ∉ lit.value.toList ∧ '\n' ∉ lit.value.toList ∧ '\r' ∉ lit.value.toList ∧
        ∃ front n, lit.value.toList = front ++ List.replicate (2 * n) '\\' ∧
          front.getLast? ≠ some '\\') := by
  refine ⟨_, read?_write lit, rfl, rfl, ?_⟩
  rw [← fitsRaw_iff, Bool.and_eq_true]

end StrLit

/-! ## Integers -/

namespace Literal

theorem digit?_of_isDigit {c : Char} (h : c.isDigit = true) :
    digit? 10 c = some (c.toNat - '0'.toNat) := by
  simp only [Char.isDigit, Bool.and_eq_true, decide_eq_true_eq] at h
  obtain ⟨hlow, hhigh⟩ := h
  have hle : c.toNat ≤ 57 := hhigh
  unfold digit? Escape.hexDigit?
  have h09 : ('0' ≤ c && c ≤ '9') = true := by
    rw [Bool.and_eq_true, decide_eq_true_eq, decide_eq_true_eq]
    exact ⟨hlow, hhigh⟩
  rw [if_pos h09, Option.filter_some, if_pos]
  rw [decide_eq_true_eq, show '0'.toNat = 48 from rfl]
  omega

/-- Decimal numerals have the value they spell. -/
theorem digits?_of_isDigit {cs : List Char} (hne : cs ≠ []) (h : ∀ c ∈ cs, c.isDigit = true) :
    digits? 10 cs = some (Nat.ofDigitChars 10 cs 0) := by
  have hfold : ∀ (ds : List Char) (n : Nat), (∀ c ∈ ds, c.isDigit = true) →
      ds.foldlM (fun n c => (digit? 10 c).map (10 * n + ·)) n = some (Nat.ofDigitChars 10 ds n) := by
    intro ds
    induction ds with
    | nil =>
      intro n _
      simp
    | cons d ds ih =>
      intro n hds
      obtain ⟨hd, hds⟩ := List.forall_mem_cons.mp hds
      rw [List.foldlM_cons, digit?_of_isDigit hd, Nat.ofDigitChars_cons]
      exact ih _ hds
  cases cs with
  | nil => exact absurd rfl hne
  | cons c cs => exact hfold _ 0 h

/-- Over a list of characters a quantifier is decided along the list, not over all characters. -/
instance (priority := high) decidableBallChar {P : Char → Prop} [DecidablePred P] (cs : List Char) :
    Decidable (∀ c ∈ cs, P c) :=
  List.decidableBAll P cs

/-- What holds of the ten decimal numerals. -/
theorem forall_isDigit {P : Char → Prop}
    (h : ∀ c ∈ ['0', '1', '2', '3', '4', '5', '6', '7', '8', '9'], P c) {c : Char}
    (hc : c.isDigit = true) : P c := by
  obtain ⟨hlow, hhigh⟩ := Char.isDigit_iff_toNat.mp hc
  rw [show '0'.toNat = 48 from rfl] at hlow
  rw [show '9'.toNat = 57 from rfl] at hhigh
  have hmem : c ∈ ['0', '1', '2', '3', '4', '5', '6', '7', '8', '9'] := by
    rw [← Char.ofNat_toNat c]
    have hall : ∀ n < 58, 48 ≤ n →
        Char.ofNat n ∈ ['0', '1', '2', '3', '4', '5', '6', '7', '8', '9'] := by decide
    exact hall c.toNat (by omega) hlow
  exact h c hmem

/-- Decimal numerals have no letters that a reader of integers looks for. -/
theorem readInt?_of_isDigit {cs : List Char} (hne : cs ≠ []) (h : ∀ c ∈ cs, c.isDigit = true) :
    readInt? cs = (some (Nat.ofDigitChars 10 cs 0)).filter (· ≤ maxInt) := by
  have hlower : cs.map Char.toLower = cs := by
    have hsame : ∀ c ∈ cs, c.toLower = id c := fun c hc =>
      forall_isDigit (P := fun c => c.toLower = id c) (by decide) (h c hc)
    rw [List.map_congr_left hsame, List.map_id]
  have hkept : cs.filter (· != '_') = cs :=
    List.filter_eq_self.mpr fun c hc =>
      forall_isDigit (P := fun c => (c != '_') = true) (by decide) (h c hc)
  have hmark : cs.reverse.dropWhile (fun c => c == 'l' || c == 'L') = cs.reverse := by
    have hlast : ∀ c ∈ cs.reverse, (c == 'l' || c == 'L') = false := fun c hc =>
      forall_isDigit (P := fun c => (c == 'l' || c == 'L') = false) (by decide)
        (h c (List.mem_reverse.mp hc))
    cases hcs : cs.reverse with
    | nil => rfl
    | cons c rest =>
      rw [hcs] at hlast
      rw [List.dropWhile_cons_of_neg]
      simp [hlast c (by simp)]
  unfold readInt?
  simp only [hkept, hmark, List.reverse_reverse, hlower]
  split
  case h_4 => rw [digits?_of_isDigit hne h]
  all_goals
    have hletter := h _ (List.mem_cons_of_mem _ List.mem_cons_self)
    simp at hletter

/-- An integer that a literal can stand for reads back. -/
theorem readInt?_toString {v : Int} (h0 : 0 ≤ v) (hmax : v ≤ maxInt) :
    readInt? (toString v).toList = some v.toNat := by
  obtain ⟨n, rfl⟩ := Int.eq_ofNat_of_zero_le h0
  have htext : (toString (n : Int)).toList = Nat.toDigits 10 n := Nat.toList_repr
  rw [htext, readInt?_of_isDigit Nat.toDigits_ne_nil
    fun c hc => Nat.isDigit_of_mem_toDigits (by decide) (by decide) hc,
    Nat.ofDigitChars_ten_toDigits, Option.filter_some, if_pos]
  · rfl
  · rw [decide_eq_true_eq]
    exact Int.ofNat_le.mp hmax

/-! ## Doubles -/

/-- One or more decimal numerals. -/
def IsNumeral (cs : List Char) : Prop := cs ≠ [] ∧ ∀ c ∈ cs, c.isDigit = true

/-- Numerals with a point between them. -/
def IsPointed (cs : List Char) : Prop :=
  ∃ whole frac, cs = whole ++ '.' :: frac ∧ IsNumeral whole ∧ IsNumeral frac

theorem IsNumeral.append {cs ds : List Char} (h : IsNumeral cs) (hds : ∀ c ∈ ds, c.isDigit = true) :
    IsNumeral (cs ++ ds) := by
  refine ⟨by simp [h.1], fun c hc => ?_⟩
  rcases List.mem_append.mp hc with hc | hc
  · exact h.2 c hc
  · exact hds c hc

theorem isNumeral_numerals (n : Nat) : IsNumeral (Decimal.numerals n) :=
  ⟨Nat.toDigits_ne_nil, fun _ hc => Nat.isDigit_of_mem_toDigits (by decide) (by decide) hc⟩

theorem isDigit_of_mem_replicate {n : Nat} {c : Char} (h : c ∈ List.replicate n '0') :
    c.isDigit = true := by
  rw [List.eq_of_mem_replicate h]
  rfl

theorem isPointed_pointed {cs : List Char} {places : Nat} (h : IsNumeral cs) (hp : places ≠ 0) :
    IsPointed (Decimal.pointed cs places) := by
  unfold Decimal.pointed
  rw [if_neg hp]
  generalize hpadded : List.replicate (places + 1 - cs.length) '0' ++ cs = padded
  have hdigits : ∀ c ∈ padded, c.isDigit = true := by
    intro c hc
    rw [← hpadded] at hc
    rcases List.mem_append.mp hc with hc | hc
    · exact isDigit_of_mem_replicate hc
    · exact h.2 c hc
  have hlength : places < padded.length := by
    rw [← hpadded, List.length_append, List.length_replicate]
    have := List.length_pos_iff.mpr h.1
    omega
  refine ⟨_, _, rfl, ⟨?_, fun c hc => hdigits c (List.mem_of_mem_take hc)⟩,
    ⟨?_, fun c hc => hdigits c (List.mem_of_mem_drop hc)⟩⟩
  · exact List.ne_nil_of_length_pos (by rw [List.length_take]; omega)
  · exact List.ne_nil_of_length_pos (by rw [List.length_drop]; omega)

theorem ofBinary_text (b : Binary) :
    IsNumeral (Decimal.ofBinary b).toList ∨ IsPointed (Decimal.ofBinary b).toList := by
  unfold Decimal.ofBinary
  split
  · exact .inl ⟨by decide, by decide⟩
  · unfold Decimal.plain
    rw [String.toList_ofList]
    split
    · exact .inl ((isNumeral_numerals _).append fun c hc => isDigit_of_mem_replicate hc)
    · exact .inr (isPointed_pointed (isNumeral_numerals _) (by omega))

/-- Text with a sign before it is no literal. -/
theorem readFloat?_sign (cs : List Char) : readFloat? ('-' :: cs) = none := by
  simp [readFloat?, Decimal.read?]

/-- The texts of doubles: a word, something with a sign, or numerals. -/
theorem ofFloat_cases (x : Float) :
    Decimal.ofFloat x = "NaN" ∨ Decimal.ofFloat x = "inf" ∨
      (∃ text, Decimal.ofFloat x = "-" ++ text) ∨
        ∃ b, Decimal.ofFloat x = Decimal.ofBinary b := by
  unfold Decimal.ofFloat
  split
  · exact .inl rfl
  · by_cases hsign : Binary.isNegative x = true
    · exact .inr (.inr (.inl ⟨_, if_pos hsign⟩))
    · simp only [if_neg hsign]
      split
      · exact .inr (.inl rfl)
      · exact .inr (.inr (.inr ⟨_, rfl⟩))

theorem any_eq_any_toList (s : String) (p : Char → Bool) : s.any p = s.toList.any p :=
  String.contains_bool_eq

/-- Numerals are no word and have no point. -/
theorem IsNumeral.not_special {s : String} (h : IsNumeral s.toList) :
    (s.any (· == '.') || s == "inf" || s == "-inf" || s == "NaN") = false := by
  have hdigit : ∀ t ∈ ["inf", "-inf", "NaN"], s ≠ t := by
    rintro t ht rfl
    obtain ⟨-, hdigits⟩ := h
    simp only [List.mem_cons, List.not_mem_nil, or_false] at ht
    rcases ht with rfl | rfl | rfl <;> exact absurd hdigits (by decide)
  have hpoint : s.toList.any (· == '.') = false := by
    rw [List.any_eq_false]
    intro c hc
    exact forall_isDigit (P := fun c => ¬(c == '.') = true) (by decide) (h.2 c hc)
  simp [any_eq_any_toList, hpoint, hdigit "inf", hdigit "-inf", hdigit "NaN"]

/-- The text of a double that a literal can stand for. -/
theorem isPointed_writeFloat {x y : Float} (h : readFloat? (writeFloat x).toList = some y) :
    IsPointed (writeFloat x).toList := by
  unfold writeFloat at h ⊢
  obtain hx | hx | ⟨text, hx⟩ | ⟨b, hx⟩ := ofFloat_cases x
  · rw [hx] at h
    simp [readFloat?, Decimal.read?] at h
  · rw [hx] at h
    simp [readFloat?, Decimal.read?] at h
  · rw [hx] at h
    simp only at h
    split at h <;> simp [readFloat?_sign] at h
  · rw [hx]
    simp only
    rcases ofBinary_text b with hb | hb
    · rw [hb.not_special, if_neg Bool.false_ne_true, String.toList_append]
      exact ⟨_, ['0'], rfl, hb, by decide, by decide⟩
    · have hpoint : (Decimal.ofBinary b).any (· == '.') = true := by
        obtain ⟨whole, frac, hchars, -⟩ := hb
        rw [any_eq_any_toList, hchars]
        simp
      rw [hpoint]
      exact hb

end Literal

end Concord
