import Concord.Digest.Blake3
import Concord.Text.Quoted

/-!
# Digests

A digest stands for a source text or for a document. The two kinds are hashed under contexts of
their own, so a text and a document that share their bytes do not share a digest.
-/

namespace Concord

/-- A digest, as its 64 hexadecimal numerals in lower case. -/
structure Digest where
  hex : String
deriving Repr, DecidableEq, Inhabited

namespace Digest

/-- Two hexadecimal numerals for each byte. -/
def hexOf (bytes : List UInt8) : String :=
  String.ofList (bytes.flatMap fun b => Escape.hex 2 b.toNat)

/-- The digest of a byte string under a context. -/
def ofBytes (context data : String) : Digest :=
  ⟨hexOf (Blake3.deriveKey context.toUTF8.toList data.toUTF8.toList)⟩

/-- The digest of a source text, exactly as written. -/
def ofText (text : String) : Digest := ofBytes "canonize 2024 source text" text

/-- The digest of a document, given its compact text. -/
def ofDocument (text : String) : Digest := ofBytes "canonize 2024 serialized value" text

/-- The first half of the first half: enough to tell digests apart in a log. -/
def short (d : Digest) : String := String.ofList (d.hex.toList.take 16)

/-- Why a text is no digest. -/
inductive ReadError where
  | oddLength
  | badNumeral (c : Char) (position : Nat)
  | wrongLength (bytes : Nat)
deriving Repr, DecidableEq

/-- Bytes of a digest. -/
def size : Nat := 32

/-- The wording of the fault. -/
def ReadError.message : ReadError → String
  | .oddLength => "invalid hex digest: Odd number of digits"
  | .badNumeral c i =>
    "invalid hex digest: Invalid character " ++ Quoted.char c ++ " at position " ++ toString i
  | .wrongLength n => "hash must be " ++ toString size ++ " bytes, got " ++ toString n

/-- The first byte of a text that is no hexadecimal numeral, read as a character. -/
def badNumeral? (bytes : List UInt8) : Option (Char × Nat) :=
  bytes.zipIdx.findSome? fun (b, i) =>
    let c := Char.ofNat b.toNat
    if (Escape.hexDigit? c).isSome then none else some (c, i)

/-- Read a digest written with numerals of either case. -/
def read (text : String) : Except ReadError Digest :=
  let bytes := text.toUTF8.toList
  if bytes.length % 2 = 1 then .error .oddLength
  else
    match badNumeral? bytes with
    | some (c, i) => .error (.badNumeral c i)
    | none =>
      if bytes.length = 2 * size then .ok ⟨String.ofList (text.toList.map Char.toLower)⟩
      else .error (.wrongLength (bytes.length / 2))

end Digest

end Concord
