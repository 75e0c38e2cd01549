import Concord.Json.Reader
import Concord.Proofs.Tree.Literal

/-!
# Documents read back

`Json.text` writes a document and `Json.read?` reads one. What comes back is the document that was
written, with every number replaced by what its text is read as: `read?_text` says so for every
document of at most `maxDepth` levels, and `reread` is the document that comes back. A document whose
numbers are integers of 64 bits comes back as it is, `read?_text_of_plain`.

The reader works with what follows a value, so every statement has a rest: nothing, or something that
starts with a comma or with the end of an array or object.
-/

namespace Concord.Json

/-! ### What comes back -/

mutual

/-- The levels of nesting of a document. -/
def levels : Json → Nat
  | .arr items => levelsItems items + 1
  | .obj fields => levelsFields fields + 1
  | _ => 0

/-- The levels of nesting of the deepest item. -/
def levelsItems : List Json → Nat
  | [] => 0
  | j :: js => max (levels j) (levelsItems js)

/-- The levels of nesting of the deepest field. -/
def levelsFields : List (String × Json) → Nat
  | [] => 0
  | (_, j) :: fs => max (levels j) (levelsFields fs)

end

mutual

/-- The document that the text of a document stands for, if it can be read. -/
def reread : Json → Option Json
  | .int v => (value? 0 (text (.int v)).toList).map (·.1)
  | .float v => (value? 0 (text (.float v)).toList).map (·.1)
  | .arr items => (rereadItems items).map .arr
  | .obj fields => (rereadFields fields).map .obj
  | j => some j

/-- `reread` for every item of an array. -/
def rereadItems : List Json → Option (List Json)
  | [] => some []
  | j :: js => do return (← reread j) :: (← rereadItems js)

/-- `reread` for every field of an object. -/
def rereadFields : List (String × Json) → Option (List (String × Json))
  | [] => some []
  | (k, j) :: fs => do return (k, ← reread j) :: (← rereadFields fs)

end

mutual

/-- Every number is an integer of 64 bits, with or without a sign. -/
def Plain : Json → Prop
  | .int v => -0x8000000000000000 ≤ v ∧ v ≤ 0xffffffffffffffff
  | .float _ => False
  | .arr items => PlainItems items
  | .obj fields => PlainFields fields
  | _ => True

/-- Every item is plain. -/
def PlainItems : List Json → Prop
  | [] => True
  | j :: js => Plain j ∧ PlainItems js

/-- Every field is plain. -/
def PlainFields : List (String × Json) → Prop
  | [] => True
  | (_, j) :: fs => Plain j ∧ PlainFields fs

end

/-! ### What follows a value -/

/-- Nothing follows, or a comma, or the end of an array or object. -/
def Ends (rest : List Char) : Prop := ∀ c ∈ rest.head?, c = ',' ∨ c = ']' ∨ c = '\x7d'

theorem ends_nil : Ends [] := by simp [Ends]

theorem ends_cons {c : Char} (h : c = ',' ∨ c = ']' ∨ c = '\x7d') (rest : List Char) :
    Ends (c :: rest) := by
  simpa [Ends] using h

theorem Ends.eq_nil_or_cons {rest : List Char} (h : Ends rest) :
    rest = [] ∨ ∃ c cs, rest = c :: cs ∧ (c = ',' ∨ c = ']' ∨ c = '\x7d') := by
  cases rest with
  | nil => exact .inl rfl
  | cons c cs => exact .inr ⟨c, cs, rfl, h c (by simp)⟩

/-- Numerals are taken up to what follows. -/
theorem Ends.takeWhile_digits {rest : List Char} (h : Ends rest) {ds : List Char}
    (hds : ∀ c ∈ ds, c.isDigit = true) :
    (ds ++ rest).takeWhile Char.isDigit = ds ∧ (ds ++ rest).dropWhile Char.isDigit = rest := by
  rw [List.takeWhile_append_of_pos hds, List.dropWhile_append_of_pos hds]
  obtain rfl | ⟨c, cs, rfl, rfl | rfl | rfl⟩ := h.eq_nil_or_cons <;> simp

theorem Ends.exponent?_eq {rest : List Char} (h : Ends rest) : exponent? rest = some (0, rest) := by
  obtain rfl | ⟨c, cs, rfl, rfl | rfl | rfl⟩ := h.eq_nil_or_cons <;> rfl

/-! ### Strings -/

/-- A control character is written as four numerals that give it back. -/
theorem unitChar?_hex {n : Nat} (h : n < 0x20) (rest : List Char) :
    ∃ a b c d, Escape.hex 4 n = [a, b, c, d] ∧
      unitChar? (a :: b :: c :: d :: rest) = some (Char.ofNat n, rest) := by
  have hdigits : ∀ n < 0x20, (Escape.hex 4 n).length = 4 ∧
      Escape.hexDigits? (Escape.hex 4 n) = some n := by decide
  obtain ⟨hlength, hvalue⟩ := hdigits n h
  have hlow : n < 0xD800 := by omega
  generalize Escape.hex 4 n = ds at hlength hvalue
  match ds, hlength with
  | [a, b, c, d], _ =>
    refine ⟨a, b, c, d, rfl, ?_⟩
    simp [unitChar?, unit?, hvalue, hlow]

/-- One written character is read as the character. -/
theorem string?_escapeChar (fuel : Nat) (acc : List Char) (c : Char) (cs : List Char) :
    string? (fuel + 1) acc (escapeChar c ++ cs) = string? fuel (c :: acc) cs := by
  unfold escapeChar
  split
  case isTrue h => simp [string?, simpleEscape?, h]
  case isFalse hquote =>
  split
  case isTrue h => simp [string?, simpleEscape?, h]
  case isFalse hbackslash =>
  split
  case isTrue h => simp [string?, simpleEscape?, h]
  case isFalse =>
  split
  case isTrue h => simp [string?, simpleEscape?, h]
  case isFalse =>
  split
  case isTrue h => simp [string?, simpleEscape?, h]
  case isFalse =>
  split
  case isTrue h => simp [string?, simpleEscape?, h]
  case isFalse =>
  split
  case isTrue h => simp [string?, simpleEscape?, h]
  case isFalse =>
  split
  case isTrue h =>
    obtain ⟨a, b, d, e, hhex, hread⟩ := unitChar?_hex h cs
    simp [string?, hhex, hread]
  case isFalse h => simp [string?, hquote, hbackslash, h]

theorem escapeChar_ne_nil (c : Char) : escapeChar c ≠ [] := by
  unfold escapeChar
  repeat' split
  all_goals simp

theorem string?_escaped (cs rest : List Char) (fuel : Nat) (acc : List Char)
    (hfuel : (cs.flatMap escapeChar).length < fuel) :
    string? fuel acc (cs.flatMap escapeChar ++ '"' :: rest) =
      some (String.ofList (acc.reverse ++ cs), rest) := by
  induction cs generalizing fuel acc with
  | nil =>
    obtain ⟨fuel, rfl⟩ := Nat.exists_eq_add_one_of_ne_zero (Nat.ne_of_gt hfuel)
    simp [string?]
  | cons c cs ih =>
    obtain ⟨fuel, rfl⟩ := Nat.exists_eq_add_one_of_ne_zero (Nat.ne_zero_of_lt hfuel)
    have hc := List.length_pos_iff.mpr (escapeChar_ne_nil c)
    rw [List.flatMap_cons, List.length_append] at hfuel
    rw [List.flatMap_cons, List.append_assoc, string?_escapeChar, ih _ _ (by omega)]
    simp

/-- A string in quotes is read as the string. -/
theorem stringBody?_quote (s : String) (rest : List Char) :
    ∃ body, (quote s).toList = '"' :: body ∧ stringBody? (body ++ rest) = some (s, rest) := by
  refine ⟨s.toList.flatMap escapeChar ++ ['"'], by simp [quote], ?_⟩
  have hfuel : (s.toList.flatMap escapeChar).length <
      (s.toList.flatMap escapeChar ++ '"' :: rest).length + 1 := by
    rw [List.length_append]
    omega
  unfold stringBody?
  rw [List.append_assoc, List.singleton_append, string?_escaped _ _ _ _ hfuel]
  simp

/-! ### Numbers -/

/-- The number that numerals without a point stand for. -/
def wholeNumber? (negative : Bool) (cs : List Char) : Option Json :=
  if cs.head? = some '0' ∧ 1 < cs.length then none
  else
    let (significand, _, dropped) := takeDigits 0 0 cs
    if dropped ≠ [] then
      (scaled? significand dropped.length).map fun f => .float (if negative then -f else f)
    else if !negative then some (.int significand)
    else if significand = 0 ∨ 0x8000000000000000 < significand then
      some (.float (-(Float.ofNat significand)))
    else some (.int (-(significand : Int)))

open Literal in
theorem number?_numeral {cs rest : List Char} (hcs : IsNumeral cs) (h : Ends rest)
    (negative : Bool) :
    number? negative (cs ++ rest) = (wholeNumber? negative cs).map (·, rest) := by
  obtain ⟨htake, hdrop⟩ := h.takeWhile_digits hcs.2
  have hexponent := h.exponent?_eq
  unfold number? wholeNumber?
  simp only [htake, hdrop]
  generalize takeDigits 0 0 cs = taken
  obtain ⟨significand, n, dropped⟩ := taken
  by_cases hzero : cs.head? = some '0' ∧ 1 < cs.length
  · simp [hzero]
  have hkept : (cs.isEmpty || cs.head? == some '0' && decide (1 < cs.length)) = false := by
    simpa [hcs.1] using hzero
  obtain rfl | ⟨c, tail, rfl, rfl | rfl | rfl⟩ := h.eq_nil_or_cons <;>
    · simp only [hexponent, hzero, hkept]
      cases dropped <;> cases negative <;>
        simp [apply_ite (Option.map _), Option.map_eq_bind, Option.bind_assoc, Function.comp_def]

/-- The number that numerals with a point between them stand for. -/
def pointedNumber? (negative : Bool) (whole frac : List Char) : Option Json :=
  if whole.head? = some '0' ∧ 1 < whole.length then none
  else
    let (significand, _, dropped) := takeDigits 0 0 whole
    let (significand, taken, _) :=
      if dropped.isEmpty then takeDigits significand 0 frac else (significand, 0, frac)
    (scaled? significand (dropped.length - taken)).map fun f => .float (if negative then -f else f)

open Literal in
theorem number?_pointed {whole frac rest : List Char} (hwhole : IsNumeral whole)
    (hfrac : IsNumeral frac) (h : Ends rest) (negative : Bool) :
    number? negative (whole ++ '.' :: frac ++ rest) =
      (pointedNumber? negative whole frac).map (·, rest) := by
  have hpoint : whole ++ '.' :: (frac ++ rest) = whole ++ '.' :: frac ++ rest := by simp
  have htake : (whole ++ '.' :: frac ++ rest).takeWhile Char.isDigit = whole := by
    rw [← hpoint, List.takeWhile_append_of_pos hwhole.2]
    simp
  have hdrop : (whole ++ '.' :: frac ++ rest).dropWhile Char.isDigit = '.' :: (frac ++ rest) := by
    rw [← hpoint, List.dropWhile_append_of_pos hwhole.2]
    simp
  obtain ⟨htake', hdrop'⟩ := h.takeWhile_digits hfrac.2
  have hdigits : frac.isEmpty = false := by simpa using hfrac.1
  unfold number? pointedNumber?
  simp only [htake, hdrop, htake', hdrop', h.exponent?_eq, hdigits]
  generalize takeDigits 0 0 whole = taken
  obtain ⟨significand, n, dropped⟩ := taken
  by_cases hzero : whole.head? = some '0' ∧ 1 < whole.length
  · simp [hzero]
  have hkept : (whole.isEmpty || whole.head? == some '0' && decide (1 < whole.length)) = false := by
    simpa [hwhole.1] using hzero
  simp [hkept, hzero, Option.map_eq_bind, Option.bind_assoc, Function.comp_def]

/-! ### Integers -/

theorem takeDigits_of_le {cs : List Char} {significand taken : Nat}
    (h : Nat.ofDigitChars 10 cs significand ≤ maxSignificand) :
    takeDigits significand taken cs =
      (Nat.ofDigitChars 10 cs significand, taken + cs.length, []) := by
  induction cs generalizing significand taken with
  | nil => simp [takeDigits]
  | cons c cs ih =>
    rw [Nat.ofDigitChars_cons] at h
    have hnext : 10 * significand + (c.toNat - '0'.toNat) ≤ maxSignificand := by
      refine Nat.le_trans ?_ h
      rw [Nat.ofDigitChars_eq_ofDigitChars_zero]
      exact Nat.le_add_right_of_le (Nat.le_mul_of_pos_left _ (Nat.pow_pos (by decide)))
    rw [takeDigits]
    simp only [if_pos hnext, ih h, Nat.ofDigitChars_cons, List.length_cons, Nat.add_right_comm _ 1,
      Nat.add_assoc]

/-- No numeral is written with a zero before it. -/
theorem head?_numerals {n : Nat} (h : n ≠ 0) : (Decimal.numerals n).head? ≠ some '0' := by
  unfold Decimal.numerals
  induction n using Nat.strongRecOn with
  | ind n ih =>
    by_cases hn : n < 10
    · have hall : ∀ n < 10, n ≠ 0 → (Nat.toDigits 10 n).head? ≠ some '0' := by decide
      exact hall n hn h
    · rw [Nat.toDigits_of_base_le (by decide) (by omega), List.head?_append]
      have hrest := ih (n / 10) (by omega) (by omega)
      cases hd : (Nat.toDigits 10 (n / 10)).head? with
      | none => exact absurd (List.head?_eq_none_iff.mp hd) Nat.toDigits_ne_nil
      | some d => simpa [hd] using hrest

theorem wholeNumber?_numerals {n : Nat} (h : n ≤ maxSignificand) :
    wholeNumber? false (Decimal.numerals n) = some (.int n) := by
  have hdigits : Nat.ofDigitChars 10 (Decimal.numerals n) 0 = n := Nat.ofDigitChars_ten_toDigits
  have hzero : ¬((Decimal.numerals n).head? = some '0' ∧ 1 < (Decimal.numerals n).length) := by
    rintro ⟨hhead, hlength⟩
    by_cases hn : n = 0
    · subst hn
      exact absurd hlength (by decide)
    · exact head?_numerals hn hhead
  unfold wholeNumber?
  rw [if_neg hzero, takeDigits_of_le (by rw [hdigits]; exact h), hdigits]
  simp

theorem wholeNumber?_negative {n : Nat} (h0 : n ≠ 0) (h : n ≤ 0x8000000000000000) :
    wholeNumber? true (Decimal.numerals n) = some (.int (-n)) := by
  have hdigits : Nat.ofDigitChars 10 (Decimal.numerals n) 0 = n := Nat.ofDigitChars_ten_toDigits
  have hmax : n ≤ maxSignificand := Nat.le_trans h (by decide)
  have hlow : ¬(0x8000000000000000 < n) := by omega
  unfold wholeNumber?
  rw [if_neg fun hzero => head?_numerals h0 hzero.1,
    takeDigits_of_le (by rw [hdigits]; exact hmax), hdigits]
  simp [h0, hlow]

/-! ### Values by their first character -/

theorem value?_quote (depth : Nat) (s : String) (rest : List Char) :
    value? depth ((quote s).toList ++ rest) = some (.str s, rest) := by
  obtain ⟨body, hquote, hread⟩ := stringBody?_quote s rest
  rw [hquote, List.cons_append, value?, skipGap_cons (by decide)]
  simp [hread]

theorem value?_number {c : Char} (hgap : isGap c = false)
    (hc : c ∉ ['n', 't', 'f', '"', '-', '[', '\x7b']) (depth : Nat) (cs : List Char) :
    value? depth (c :: cs) = number? false (c :: cs) := by
  rw [value?, skipGap_cons hgap]
  split <;> simp_all

theorem value?_digit {c : Char} (hc : c.isDigit = true) (depth : Nat) (cs : List Char) :
    value? depth (c :: cs) = number? false (c :: cs) :=
  value?_number (Literal.forall_isDigit (P := fun c => isGap c = false) (by decide) hc)
    (Literal.forall_isDigit
      (P := fun c => c ∉ ['n', 't', 'f', '"', '-', '[', '\x7b']) (by decide) hc) depth cs

/-- The reader of the items of an array with something in it. -/
theorem value?_array {depth : Nat} {c : Char} {cs : List Char} (hgap : isGap c = false)
    (hc : c ≠ ']') :
    value? (depth + 1) ('[' :: c :: cs) =
      (items? ']' (value? depth) (c :: cs).length [] (c :: cs)).map fun p => (.arr p.1, p.2) := by
  rw [value?, skipGap_cons (by decide)]
  simp only [skipGap_cons hgap]
  split
  · simp_all
  · rfl

/-- The reader of the fields of an object with something in it. -/
theorem value?_object {depth : Nat} {c : Char} {cs : List Char} (hgap : isGap c = false)
    (hc : c ≠ '\x7d') :
    value? (depth + 1) ('\x7b' :: c :: cs) =
      (items? '\x7d' (fieldOf? (value? depth)) (c :: cs).length [] (c :: cs)).map
        fun p => (.obj p.1, p.2) := by
  rw [value?, skipGap_cons (by decide)]
  simp only [skipGap_cons hgap]
  split
  · simp_all
  · rfl

/-! ### Items and fields -/

/-- Items divided by commas are read one after the other, when each of them is read whatever
follows it. -/
theorem items?_intercalate {α β : Type} {close : Char} {item : List Char → Option (α × List Char)}
    {written : β → List Char} {value : β → Option α} (hclose : close = ']' ∨ close = '\x7d')
    (b : β) (bs : List β) (hitem : ∀ a ∈ b :: bs, ∀ rest, Ends rest →
      item (written a ++ rest) = (value a).map (·, rest))
    (fuel : Nat) (hfuel : bs.length < fuel) (acc : List α) (rest : List Char) :
    items? close item fuel acc ([','].intercalate ((b :: bs).map written) ++ close :: rest) =
      ((b :: bs).mapM value).map fun as => (acc.reverse ++ as, rest) := by
  have hends : Ends (close :: rest) := ends_cons (.inr hclose) _
  have hgap : isGap close = false := by rcases hclose with rfl | rfl <;> rfl
  induction bs generalizing b fuel acc with
  | nil =>
    obtain ⟨fuel, rfl⟩ := Nat.exists_eq_add_one_of_ne_zero (Nat.ne_zero_of_lt hfuel)
    rw [items?, List.map_cons, List.map_nil, List.intercalate_singleton, hitem b (by simp) _ hends]
    cases hvalue : value b with
    | none => simp [hvalue]
    | some a => rcases hclose with rfl | rfl <;> simp [hvalue, skipGap_cons hgap]
  | cons b' bs ih =>
    obtain ⟨fuel, rfl⟩ := Nat.exists_eq_add_one_of_ne_zero (Nat.ne_zero_of_lt hfuel)
    have hrest := ih b' (fun a ha => hitem a (List.mem_cons_of_mem _ ha)) fuel
      (by simpa using hfuel)
    rw [items?, List.map_cons, List.map_cons, List.intercalate_cons_cons, ← List.map_cons,
      List.append_assoc, List.append_assoc, List.singleton_append,
      hitem b (by simp) _ (ends_cons (.inl rfl) _)]
    cases hvalue : value b with
    | none => simp [hvalue]
    | some a =>
      simp only [Option.map_some, Option.bind_eq_bind, Option.bind_some,
        skipGap_cons (show isGap ',' = false from rfl), hrest, List.mapM_cons, hvalue]
      cases bs.mapM value <;> cases value b' <;> simp

/-! ### Numbers as written -/

open Literal in
/-- The text of a number: numerals with or without a point, and a sign if it is negative. -/
def IsNumber (cs : List Char) : Prop :=
  ∃ ds, (IsNumeral ds ∨ IsPointed ds) ∧ (cs = ds ∨ cs = '-' :: ds)

theorem toList_toString_negSucc (n : Nat) :
    (toString (Int.negSucc n)).toList = '-' :: Decimal.numerals (n + 1) := by
  change ("-" ++ (n + 1).repr).toList = _
  rw [String.toList_append, Nat.toList_repr]
  rfl

theorem isNumber_toString (v : Int) : IsNumber (toString v).toList := by
  cases v with
  | ofNat n =>
    exact ⟨Decimal.numerals n, .inl (Literal.isNumeral_numerals n), .inl Nat.toList_repr⟩
  | negSucc n =>
    exact ⟨Decimal.numerals (n + 1), .inl (Literal.isNumeral_numerals _),
      .inr (toList_toString_negSucc n)⟩

open Literal in
theorem isNumber_writeFloat {x : Float} {sign s : String} (hx : Decimal.ofFloat x = sign ++ s)
    (hsign : sign = "" ∨ sign = "-") (hs : IsNumeral s.toList ∨ IsPointed s.toList) :
    IsNumber (writeFloat x).toList := by
  have hsigned : ∀ t : String, (IsNumeral t.toList ∨ IsPointed t.toList) →
      IsNumber (sign ++ t).toList := by
    intro t ht
    rcases hsign with rfl | rfl
    · exact ⟨t.toList, ht, .inl (by simp)⟩
    · exact ⟨t.toList, ht, .inr (by simp)⟩
  unfold writeFloat
  simp only [hx]
  split
  · exact hsigned s hs
  · next hpoint =>
    rw [String.append_assoc]
    refine hsigned _ (.inr ?_)
    rcases hs with hs | ⟨whole, frac, hchars, -⟩
    · exact ⟨s.toList, ['0'], by simp, hs, by decide, by decide⟩
    · exact absurd (by simp [any_eq_any_toList, hchars]) hpoint

/-- A word for a value that is no number, or the text of a number. -/
theorem writeFloat_cases (x : Float) :
    Literal.writeFloat x ∈ ["NaN", "inf", "-inf"] ∨ IsNumber (Literal.writeFloat x).toList := by
  have hword : ∀ word ∈ ["NaN", "inf", "-inf"], Decimal.ofFloat x = word →
      Literal.writeFloat x ∈ ["NaN", "inf", "-inf"] := by
    intro word hword hx
    unfold Literal.writeFloat
    simp only [List.mem_cons, List.not_mem_nil, or_false] at hword
    rcases hword with rfl | rfl | rfl <;> simp [hx]
  have hnumeral := Literal.ofBinary_text (Binary.ofFloat x)
  by_cases hnan : x.isNaN = true
  · exact .inl (hword "NaN" (by simp) (if_pos hnan))
  have hx : Decimal.ofFloat x =
      if Binary.isNegative x then "-" ++ (if x.isInf then "inf" else Decimal.ofBinary (.ofFloat x))
      else if x.isInf then "inf" else Decimal.ofBinary (.ofFloat x) := if_neg hnan
  by_cases hinf : x.isInf = true <;> by_cases hsign : Binary.isNegative x = true
  · rw [if_pos hsign, if_pos hinf] at hx
    exact .inl (hword "-inf" (by simp) hx)
  · rw [if_neg hsign, if_pos hinf] at hx
    exact .inl (hword "inf" (by simp) hx)
  · rw [if_pos hsign, if_neg hinf] at hx
    exact .inr (isNumber_writeFloat hx (.inr rfl) hnumeral)
  · rw [if_neg hsign, if_neg hinf, ← String.empty_append (s := Decimal.ofBinary _)] at hx
    exact .inr (isNumber_writeFloat hx (.inl rfl) hnumeral)

/-- A number is read the same way whatever follows it. -/
theorem number?_append {cs rest : List Char}
    (hcs : Literal.IsNumeral cs ∨ Literal.IsPointed cs) (h : Ends rest) (negative : Bool) :
    number? negative (cs ++ rest) = (number? negative cs).map fun p => (p.1, rest) := by
  rcases hcs with hcs | ⟨whole, frac, rfl, hwhole, hfrac⟩
  · have halone := number?_numeral hcs ends_nil negative
    rw [List.append_nil] at halone
    rw [number?_numeral hcs h, halone]
    simp [Function.comp_def]
  · have halone := number?_pointed hwhole hfrac ends_nil negative
    rw [List.append_nil] at halone
    rw [number?_pointed hwhole hfrac h, halone]
    simp [Function.comp_def]

theorem eq_cons_of_numeral {cs : List Char} (h : Literal.IsNumeral cs ∨ Literal.IsPointed cs) :
    ∃ c tail, cs = c :: tail ∧ c.isDigit = true := by
  rcases h with ⟨hne, hdigits⟩ | ⟨whole, frac, rfl, ⟨hne, hdigits⟩, -⟩
  · obtain ⟨c, tail, rfl⟩ := List.exists_cons_of_ne_nil hne
    exact ⟨c, tail, rfl, hdigits c (by simp)⟩
  · obtain ⟨c, tail, rfl⟩ := List.exists_cons_of_ne_nil hne
    exact ⟨c, _, rfl, hdigits c (by simp)⟩

/-- The text of a number is read the same way whatever follows it. -/
theorem value?_isNumber {cs rest : List Char} (hcs : IsNumber cs) (h : Ends rest) (depth : Nat) :
    value? depth (cs ++ rest) = ((value? 0 cs).map (·.1)).map (·, rest) := by
  obtain ⟨ds, hds, rfl | rfl⟩ := hcs
  · have happend := number?_append hds h false
    obtain ⟨c, tail, rfl, hc⟩ := eq_cons_of_numeral hds
    rw [List.cons_append] at happend ⊢
    rw [value?_digit hc, value?_digit hc, happend]
    simp [Function.comp_def]
  · rw [List.cons_append, value?_minus, value?_minus, number?_append hds h]
    simp [Function.comp_def]

/-- The words for values that are no numbers are not read. -/
theorem value?_word {word : String} (hword : word ∈ ["NaN", "inf", "-inf"]) (depth : Nat)
    (rest : List Char) : value? depth (word.toList ++ rest) = none := by
  simp only [List.mem_cons, List.not_mem_nil, or_false] at hword
  rcases hword with rfl | rfl | rfl
  · exact value?_number (by decide) (by decide) depth _
  · exact value?_number (by decide) (by decide) depth _
  · exact value?_minus depth _

/-- The text of a double is read the same way whatever follows it. -/
theorem value?_float (x : Float) {rest : List Char} (h : Ends rest) (depth : Nat) :
    value? depth ((text (.float x)).toList ++ rest) = (reread (.float x)).map (·, rest) := by
  rw [reread, text]
  split
  · rcases writeFloat_cases x with hword | hnumber
    · have halone := value?_word hword 0 []
      rw [List.append_nil] at halone
      rw [value?_word hword, halone]
      rfl
    · exact value?_isNumber hnumber h depth
  · simp [value?, skipGap, isGap]

/-! ### Documents -/

theorem textItems_eq (js : List Json) : textItems js = js.map text := by
  induction js with
  | nil => rfl
  | cons j js ih => rw [textItems, ih, List.map_cons]

theorem textFields_eq (fs : List (String × Json)) :
    textFields fs = fs.map fun f => quote f.1 ++ ":" ++ text f.2 := by
  induction fs with
  | nil => rfl
  | cons f fs ih => rw [textFields, ih, List.map_cons]

theorem toList_text_arr (items : List Json) :
    (text (.arr items)).toList =
      '[' :: ([','].intercalate (items.map fun j => (text j).toList) ++ [']']) := by
  rw [text, textItems_eq]
  simp [String.toList_intercalate, Function.comp_def]

/-- A field as it is written in an object. -/
def fieldText (f : String × Json) : List Char := (quote f.1).toList ++ ':' :: (text f.2).toList

theorem toList_text_obj (fields : List (String × Json)) :
    (text (.obj fields)).toList =
      '\x7b' :: ([','].intercalate (fields.map fieldText) ++ ['\x7d']) := by
  have hfield : fieldText = String.toList ∘ fun f => quote f.1 ++ ":" ++ text f.2 := by
    funext f
    simp [fieldText]
  rw [text, textFields_eq, hfield]
  simp [String.toList_intercalate]

/-- The text of a document starts with a character that neither is a blank nor closes anything. -/
theorem text_eq_cons (j : Json) :
    ∃ c cs, (text j).toList = c :: cs ∧ isGap c = false ∧ c ≠ ']' := by
  have hnumber : ∀ cs, IsNumber cs → ∃ c tail, cs = c :: tail ∧ isGap c = false ∧ c ≠ ']' := by
    rintro cs ⟨ds, hds, rfl | rfl⟩
    · obtain ⟨c, tail, rfl, hc⟩ := eq_cons_of_numeral hds
      exact ⟨c, tail, rfl,
        Literal.forall_isDigit (P := fun c => isGap c = false ∧ c ≠ ']') (by decide) hc⟩
    · exact ⟨'-', ds, rfl, by decide, by decide⟩
  cases j with
  | null => exact ⟨'n', _, rfl, by decide, by decide⟩
  | bool b => cases b <;> exact ⟨_, _, rfl, by decide, by decide⟩
  | int v => exact hnumber _ (isNumber_toString v)
  | float x =>
    rw [text]
    split
    · rcases writeFloat_cases x with hword | h
      · simp only [List.mem_cons, List.not_mem_nil, or_false] at hword
        rcases hword with h | h | h <;> rw [h] <;> exact ⟨_, _, rfl, by decide, by decide⟩
      · exact hnumber _ h
    · exact ⟨'n', _, rfl, by decide, by decide⟩
  | str s => exact ⟨'"', _, by rw [text, quote, String.toList_ofList]; rfl, by decide, by decide⟩
  | arr items => exact ⟨'[', _, toList_text_arr items, by decide, by decide⟩
  | obj fields => exact ⟨'\x7b', _, toList_text_obj fields, by decide, by decide⟩

theorem rereadItems_eq (js : List Json) : rereadItems js = js.mapM reread := by
  induction js with
  | nil => rfl
  | cons j js ih => rw [rereadItems, ih, List.mapM_cons]

theorem rereadFields_eq (fs : List (String × Json)) :
    rereadFields fs = fs.mapM fun f => (reread f.2).map (f.1, ·) := by
  induction fs with
  | nil => rfl
  | cons f fs ih =>
    rw [rereadFields, ih, List.mapM_cons]
    cases reread f.2 <;> rfl

theorem levels_of_mem {j : Json} {js : List Json} (h : j ∈ js) : levels j ≤ levelsItems js := by
  induction js with
  | nil => simp at h
  | cons k ks ih =>
    rw [levelsItems]
    rcases List.mem_cons.mp h with rfl | h
    · exact Nat.le_max_left _ _
    · exact Nat.le_trans (ih h) (Nat.le_max_right _ _)

theorem levels_of_mem_fields {f : String × Json} {fs : List (String × Json)} (h : f ∈ fs) :
    levels f.2 ≤ levelsFields fs := by
  induction fs with
  | nil => simp at h
  | cons k ks ih =>
    rw [levelsFields]
    rcases List.mem_cons.mp h with rfl | h
    · exact Nat.le_max_left _ _
    · exact Nat.le_trans (ih h) (Nat.le_max_right _ _)

theorem exists_intercalate_cons (sep : List Char) (c : Char) (cs : List Char)
    (css : List (List Char)) : ∃ tail, sep.intercalate ((c :: cs) :: css) = c :: tail := by
  cases css with
  | nil => exact ⟨cs, List.intercalate_singleton⟩
  | cons ds css => exact ⟨_, by rw [List.intercalate_cons_cons, List.append_assoc]; rfl⟩

theorem length_le_length_intercalate {written : List (List Char)} (h : ∀ cs ∈ written, cs ≠ []) :
    written.length ≤ ([','].intercalate written).length := by
  induction written with
  | nil => simp
  | cons cs css ih =>
    have hcs := List.length_pos_iff.mpr (h cs (by simp))
    have hrest := ih fun ds hds => h ds (List.mem_cons_of_mem _ hds)
    cases css with
    | nil => simpa using Nat.succ_le_of_lt hcs
    | cons ds css =>
      rw [List.intercalate_cons_cons, List.length_append, List.length_append, List.length_cons]
      simp only [List.length_cons, List.length_nil] at hrest ⊢
      omega

/-- The text of the items of an array or object, at least one, starts as the first one does, and is
read item by item. -/
theorem items?_written {α β : Type} {close : Char} {item : List Char → Option (α × List Char)}
    {written : β → List Char} {value : β → Option α} (hclose : close = ']' ∨ close = '\x7d')
    (b : β) (bs : List β)
    (hhead : ∀ a, ∃ c cs, written a = c :: cs ∧ isGap c = false ∧ c ≠ close)
    (hitem : ∀ a ∈ b :: bs, ∀ rest, Ends rest →
      item (written a ++ rest) = (value a).map (·, rest)) (rest : List Char) :
    ∃ c cs, [','].intercalate ((b :: bs).map written) ++ close :: rest = c :: cs ∧
      isGap c = false ∧ c ≠ close ∧
        items? close item (c :: cs).length [] (c :: cs) = ((b :: bs).mapM value).map (·, rest) := by
  obtain ⟨c, cs, hc, hgap, hother⟩ := hhead b
  obtain ⟨tail, htail⟩ := exists_intercalate_cons [','] c cs (bs.map written)
  have hwritten : [','].intercalate ((b :: bs).map written) ++ close :: rest =
      c :: (tail ++ close :: rest) := by
    rw [List.map_cons, hc, htail, List.cons_append]
  refine ⟨c, tail ++ close :: rest, hwritten, hgap, hother, ?_⟩
  have hne : ∀ ds ∈ (b :: bs).map written, ds ≠ [] := by
    intro ds hds
    obtain ⟨a, -, rfl⟩ := List.mem_map.mp hds
    obtain ⟨d, ds, hd, -⟩ := hhead a
    simp [hd]
  have hlength := length_le_length_intercalate hne
  have hfuel : bs.length < (c :: (tail ++ close :: rest)).length := by
    rw [← hwritten]
    simp only [List.length_append, List.length_map, List.length_cons] at hlength ⊢
    omega
  rw [← hwritten] at hfuel ⊢
  rw [items?_intercalate hclose b bs hitem _ hfuel]
  simp

/-- What the reader does with the text of one document. -/
def ReadsAs (j : Json) : Prop :=
  ∀ depth, levels j ≤ depth → ∀ rest, Ends rest →
    value? depth ((text j).toList ++ rest) = (reread j).map (·, rest)

theorem readsAs_arr {items : List Json} (h : ∀ j ∈ items, ReadsAs j) : ReadsAs (.arr items) := by
  intro depth hdepth rest hrest
  obtain ⟨depth, rfl⟩ := Nat.exists_eq_add_one_of_ne_zero
    (show depth ≠ 0 by rw [levels] at hdepth; omega)
  rw [levels, Nat.add_le_add_iff_right] at hdepth
  rw [toList_text_arr, reread, rereadItems_eq, List.cons_append, List.append_assoc,
    List.singleton_append]
  cases items with
  | nil => simp [value?, skipGap, isGap]
  | cons j js =>
    obtain ⟨c, cs, hcs, hgap, hclose, hitems⟩ := items?_written (.inl rfl) j js text_eq_cons
      (fun k hk rest hrest => h k hk depth (Nat.le_trans (levels_of_mem hk) hdepth) rest hrest) rest
    rw [hcs, value?_array hgap hclose, hitems]
    simp [Function.comp_def]

theorem fieldText_eq_cons (f : String × Json) :
    ∃ c cs, fieldText f = c :: cs ∧ isGap c = false ∧ c ≠ '\x7d' := by
  obtain ⟨body, hbody, -⟩ := stringBody?_quote f.1 []
  exact ⟨'"', _, by rw [fieldText, hbody, List.cons_append], by decide, by decide⟩

theorem fieldOf?_fieldText {value : List Char → Option (Json × List Char)} (f : String × Json)
    (rest : List Char) :
    fieldOf? value (fieldText f ++ rest) =
      (value ((text f.2).toList ++ rest)).map fun p => ((f.1, p.1), p.2) := by
  obtain ⟨body, hbody, hread⟩ := stringBody?_quote f.1 (':' :: ((text f.2).toList ++ rest))
  unfold fieldOf? fieldText
  rw [hbody, List.cons_append, List.cons_append, List.append_assoc, List.cons_append,
    skipGap_cons (by decide)]
  simp only [hread, Option.bind_eq_bind, Option.bind_some,
    skipGap_cons (show isGap ':' = false from rfl)]
  cases value ((text f.2).toList ++ rest) <;> rfl

theorem readsAs_obj {fields : List (String × Json)} (h : ∀ f ∈ fields, ReadsAs f.2) :
    ReadsAs (.obj fields) := by
  intro depth hdepth rest hrest
  obtain ⟨depth, rfl⟩ := Nat.exists_eq_add_one_of_ne_zero
    (show depth ≠ 0 by rw [levels] at hdepth; omega)
  rw [levels, Nat.add_le_add_iff_right] at hdepth
  rw [toList_text_obj, reread, rereadFields_eq, List.cons_append, List.append_assoc,
    List.singleton_append]
  cases fields with
  | nil => simp [value?, skipGap, isGap]
  | cons f fs =>
    have hfield : ∀ g ∈ f :: fs, ∀ rest, Ends rest →
        fieldOf? (value? depth) (fieldText g ++ rest) =
          ((reread g.2).map (g.1, ·)).map (·, rest) := by
      intro g hg rest hrest
      have hvalue := h g hg depth (Nat.le_trans (levels_of_mem_fields hg) hdepth) rest hrest
      rw [fieldOf?_fieldText, hvalue]
      simp [Function.comp_def]
    obtain ⟨c, cs, hcs, hgap, hclose, hitems⟩ :=
      items?_written (.inr rfl) f fs fieldText_eq_cons hfield rest
    rw [hcs, value?_object hgap hclose, hitems]
    simp [Function.comp_def]

mutual

/-- The text of a document is read whatever follows it. -/
theorem readsAs : (j : Json) → ReadsAs j
  | .null => by
    intro depth _ rest _
    simp [text, reread, value?, skipGap, isGap]
  | .bool b => by
    intro depth _ rest _
    cases b <;> simp [text, reread, value?, skipGap, isGap]
  | .int v => fun depth _ _ h => value?_isNumber (isNumber_toString v) h depth
  | .float x => fun depth _ _ h => value?_float x h depth
  | .str s => fun depth _ rest _ => value?_quote depth s rest
  | .arr items => readsAs_arr (readsAs_items items)
  | .obj fields => readsAs_obj (readsAs_fields fields)

theorem readsAs_items : (js : List Json) → ∀ j ∈ js, ReadsAs j
  | [] => by simp
  | j :: js => List.forall_mem_cons.mpr ⟨readsAs j, readsAs_items js⟩

theorem readsAs_fields : (fs : List (String × Json)) → ∀ f ∈ fs, ReadsAs f.2
  | [] => by simp
  | (_, j) :: fs => List.forall_mem_cons.mpr ⟨readsAs j, readsAs_fields fs⟩

end

/-- The text of a document that is not too deep is read as `reread` says. -/
theorem read?_text {j : Json} (h : levels j ≤ maxDepth) : read? (text j) = reread j := by
  have hread := readsAs j maxDepth h [] ends_nil
  rw [List.append_nil] at hread
  unfold read?
  rw [hread]
  cases reread j <;> rfl

/-! ### Plain documents -/

theorem reread_natCast (n : Nat) : reread (.int n) = wholeNumber? false (Decimal.numerals n) := by
  have hnumeral := Literal.isNumeral_numerals n
  have hread := number?_numeral hnumeral ends_nil false
  obtain ⟨c, tail, hc, hdigit⟩ := eq_cons_of_numeral (.inl hnumeral)
  rw [reread, text, show (toString (n : Int)).toList = Decimal.numerals n from Nat.toList_repr]
  rw [List.append_nil] at hread
  rw [hc] at hread ⊢
  rw [value?_digit hdigit, hread]
  simp [Function.comp_def]

theorem reread_int {v : Int} (h : Plain (.int v)) : reread (.int v) = some (.int v) := by
  obtain ⟨hlow, hhigh⟩ := h
  cases v with
  | ofNat n => exact (reread_natCast n).trans (wholeNumber?_numerals (Int.ofNat_le.mp hhigh))
  | negSucc n =>
    have hread := number?_numeral (Literal.isNumeral_numerals (n + 1)) ends_nil true
    rw [List.append_nil, wholeNumber?_negative (by omega) (by omega)] at hread
    rw [reread, text, toList_toString_negSucc, value?_minus, hread]
    rfl

/-- Where no digit is dropped the significand is the number that the digits stand for. -/
theorem takeDigits_of_none_dropped {cs : List Char} {significand taken : Nat}
    (h : (takeDigits significand taken cs).2.2 = []) :
    (takeDigits significand taken cs).1 = Nat.ofDigitChars 10 cs significand := by
  induction cs generalizing significand taken with
  | nil => rfl
  | cons c cs ih =>
    by_cases hnext : 10 * significand + (c.toNat - '0'.toNat) ≤ maxSignificand
    · simp only [takeDigits, if_pos hnext] at h ⊢
      rw [ih h, Nat.ofDigitChars_cons]
    · simp only [takeDigits, if_neg hnext] at h
      cases h

/-- A count of any size comes back as itself, if it comes back as an integer. -/
theorem eq_of_reread_natCast {n : Nat} {v : Int} (h : reread (.int n) = some (.int v)) : v = n := by
  have hdigits : Nat.ofDigitChars 10 (Decimal.numerals n) 0 = n := Nat.ofDigitChars_ten_toDigits
  have htaken := @takeDigits_of_none_dropped (Decimal.numerals n) 0 0
  rw [reread_natCast, wholeNumber?] at h
  generalize takeDigits 0 0 (Decimal.numerals n) = parts at h htaken
  obtain ⟨significand, taken, dropped⟩ := parts
  split at h
  · cases h
  · by_cases hdropped : dropped = []
    · simp only [hdropped, ne_eq, not_true_eq_false, if_false, Bool.not_false, if_true,
        Option.some_inj, int.injEq] at h
      have hsignificand : significand = n := (htaken hdropped).trans hdigits
      rw [← h, hsignificand]
    · simp only [ne_eq, hdropped, not_false_eq_true, if_true, Option.map_eq_some_iff] at h
      obtain ⟨x, -, hx⟩ := h
      cases hx

mutual

/-- A plain document comes back as it is. -/
theorem reread_of_plain : (j : Json) → Plain j → reread j = some j
  | .null, _ => by rw [reread] <;> simp
  | .bool _, _ => by rw [reread] <;> simp
  | .int _, h => reread_int h
  | .float _, h => h.elim
  | .str _, _ => by rw [reread] <;> simp
  | .arr items, h => by rw [reread, rereadItems_of_plain items h]; rfl
  | .obj fields, h => by rw [reread, rereadFields_of_plain fields h]; rfl

theorem rereadItems_of_plain : (js : List Json) → PlainItems js → rereadItems js = some js
  | [], _ => rfl
  | j :: js, h => by rw [rereadItems, reread_of_plain j h.1, rereadItems_of_plain js h.2]; rfl

theorem rereadFields_of_plain :
    (fs : List (String × Json)) → PlainFields fs → rereadFields fs = some fs
  | [], _ => rfl
  | (_, j) :: fs, h => by
    rw [rereadFields, reread_of_plain j h.1, rereadFields_of_plain fs h.2]; rfl

end

/-- Reading the text of a plain document gives the document. -/
theorem read?_text_of_plain {j : Json} (hdepth : levels j ≤ maxDepth) (h : Plain j) :
    read? (text j) = some j := by
  rw [read?_text hdepth, reread_of_plain j h]

end Concord.Json
