import Concord.Digest.Basic
import Mathlib.Data.List.Basic

/-!
# Digests read back

`Digest.read` takes the numerals of a digest back to the digest, `read_hex`. The reader works on the
bytes of a text, so the bytes of an ASCII text come first. Every digest of a text has such numerals,
`isHash_ofText`.
-/

namespace Concord

/-! ### Bytes of a text -/

/-- Collecting the bytes of an array from a place on. -/
theorem toList_loop_byteArray (bytes : ByteArray) (i : Nat) (acc : List UInt8) :
    ByteArray.toList.loop bytes i acc = acc.reverse ++ bytes.data.toList.drop i := by
  fun_induction ByteArray.toList.loop bytes i acc with
  | case1 i acc hi ih =>
    have hlength : i < bytes.data.toList.length := by simpa using hi
    have hget : bytes.get! i = bytes.data.toList[i] := getElem!_pos bytes.data i hi
    rw [ih, List.drop_eq_getElem_cons hlength, hget]
    simp
  | case2 i acc hi =>
    have hlength : bytes.data.toList.length ≤ i := by simpa using hi
    rw [List.drop_of_length_le hlength, List.append_nil]

theorem toList_byteArray (bytes : ByteArray) : bytes.toList = bytes.data.toList := by
  rw [ByteArray.toList, toList_loop_byteArray]
  rfl

/-- A text of ASCII characters has one byte for each of them. -/
theorem toUTF8_of_ascii {cs : List Char} (h : ∀ c ∈ cs, c.toNat < 128) :
    (String.ofList cs).toUTF8.toList = cs.map fun c => c.val.toUInt8 := by
  rw [toList_byteArray, String.toUTF8_eq_toByteArray, String.toByteArray_ofList, List.utf8Encode,
    List.data_toByteArray]
  induction cs with
  | nil => rfl
  | cons c cs ih =>
    have hc : String.utf8EncodeChar c = [c.val.toUInt8] := by
      have hc : c.val.toNat < 128 := h c (by simp)
      exact String.utf8EncodeChar_eq_singleton
        (Char.utf8Size_eq_one_iff.mpr (UInt32.le_iff_toNat_le.mpr (Nat.le_of_lt_succ hc)))
    have hcs := ih fun d hd => h d (List.mem_cons_of_mem _ hd)
    simpa [List.flatMap_cons, hc] using hcs

namespace Digest

/-- Hexadecimal numerals in lower case. -/
def numerals : List Char :=
  ['0', '1', '2', '3', '4', '5', '6', '7', '8', '9', 'a', 'b', 'c', 'd', 'e', 'f']

/-- A digest of the right length, in lower case. -/
def IsHash (d : Digest) : Prop :=
  d.hex.toList.length = 2 * size ∧ ∀ c ∈ d.hex.toList, c ∈ numerals

instance (d : Digest) : Decidable d.IsHash :=
  decidable_of_iff
    (d.hex.toList.length = 2 * size ∧ d.hex.toList.all (fun c => numerals.elem c) = true)
    (by simp only [IsHash, List.all_eq_true, List.elem_iff])

-- Each fact about the sixteen numerals is run as a `List.all`.
theorem numeral_ascii : ∀ c ∈ numerals, c.toNat < 128 := by
  have h : numerals.all (fun c => Nat.blt c.toNat 128) = true := by decide
  simpa only [List.all_eq_true, Nat.blt_eq] using h

theorem numeral_byte : ∀ c ∈ numerals, Char.ofNat c.val.toUInt8.toNat = c := by
  have h : numerals.all (fun c => Char.ofNat c.val.toUInt8.toNat == c) = true := by decide
  simpa only [List.all_eq_true, beq_iff_eq] using h

theorem numeral_digit : ∀ c ∈ numerals, (Escape.hexDigit? c).isSome = true := by
  have h : numerals.all (fun c => (Escape.hexDigit? c).isSome) = true := by decide
  simpa only [List.all_eq_true] using h

theorem numeral_lower : ∀ c ∈ numerals, c.toLower = c := by
  have h : numerals.all (fun c => c.toLower == c) = true := by decide
  simpa only [List.all_eq_true, beq_iff_eq] using h

/-- The numerals of a digest are read as the digest. -/
theorem read_hex {d : Digest} (h : d.IsHash) : read d.hex = .ok d := by
  obtain ⟨hlength, hnumerals⟩ := h
  have hbytes : d.hex.toUTF8.toList = d.hex.toList.map fun c => c.val.toUInt8 := by
    have h := toUTF8_of_ascii fun c hc => numeral_ascii c (hnumerals c hc)
    rwa [String.ofList_toList] at h
  have hgood : badNumeral? (d.hex.toList.map fun c => c.val.toUInt8) = none := by
    unfold badNumeral?
    rw [List.findSome?_eq_none_iff]
    rintro ⟨b, i⟩ hb
    have hmem := List.fst_mem_of_mem_zipIdx hb
    obtain ⟨c, hc, rfl⟩ := List.mem_map.mp hmem
    simp only [numeral_byte c (hnumerals c hc), numeral_digit c (hnumerals c hc), if_true]
  have hlower : d.hex.toList.map Char.toLower = d.hex.toList := by
    rw [List.map_congr_left fun c hc => numeral_lower c (hnumerals c hc), List.map_id']
  unfold read
  rw [hbytes]
  simp only [hgood, List.length_map, hlength, hlower, String.ofList_toList]
  rfl

/-! ### Digests of texts -/

/-- The numerals of the right number of bytes are a digest. -/
theorem isHash_hexOf {bytes : List UInt8} (h : bytes.length = size) :
    (⟨hexOf bytes⟩ : Digest).IsHash := by
  have hpairs : (List.range 256).all (fun n =>
      (Escape.hex 2 n).length == 2 && (Escape.hex 2 n).all fun c => numerals.elem c) = true := by
    decide +kernel
  simp only [List.all_eq_true, List.mem_range, Bool.and_eq_true, beq_iff_eq, List.elem_iff]
    at hpairs
  have hbyte : ∀ b : UInt8, (Escape.hex 2 b.toNat).length = 2 ∧
      ∀ c ∈ Escape.hex 2 b.toNat, c ∈ numerals := fun b => hpairs b.toNat b.toNat_lt
  constructor
  · simp only [hexOf, String.toList_ofList, List.length_flatMap]
    have hlengths : bytes.map (fun b => (Escape.hex 2 b.toNat).length) = bytes.map fun _ => 2 :=
      List.map_congr_left fun b _ => (hbyte b).1
    rw [hlengths, List.map_const', List.sum_replicate_nat, h, Nat.mul_comm]
  · intro c hc
    simp only [hexOf, String.toList_ofList, List.mem_flatMap] at hc
    obtain ⟨b, -, hc⟩ := hc
    exact (hbyte b).2 c hc

theorem isHash_ofText (text : String) : (ofText text).IsHash := by
  apply isHash_hexOf
  rfl

end Digest

end Concord
