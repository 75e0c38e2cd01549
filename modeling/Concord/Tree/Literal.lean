import Concord.Tree.Basic
import Concord.Number.Decimal

/-!
# Texts of literals

How integer, float and string literals are written and read. `StrLit.write` chooses the quote that
needs fewer escapes and keeps a raw literal raw where its value allows it; `StrLit.read?` decodes a
literal as written in a source text, with any letters before the quote, one or three quotes, and
every escape.
-/

namespace Concord

/-! ### Escapes -/

namespace Escape

/-- Lower-case hexadecimal numerals of a number, at least `width` of them. -/
def hex (width n : Nat) : List Char :=
  let ds := Nat.toDigits 16 n
  List.replicate (width - ds.length) '0' ++ ds

/-- The value of a hexadecimal numeral. -/
def hexDigit? (c : Char) : Option Nat :=
  if '0' ≤ c && c ≤ '9' then some (c.toNat - '0'.toNat)
  else if 'a' ≤ c && c ≤ 'f' then some (c.toNat - 'a'.toNat + 10)
  else if 'A' ≤ c && c ≤ 'F' then some (c.toNat - 'A'.toNat + 10)
  else none

/-- The value of hexadecimal numerals, most significant first. -/
def hexDigits? (cs : List Char) : Option Nat :=
  cs.foldlM (fun n c => (hexDigit? c).map (16 * n + ·)) 0

/-- The value of hexadecimal numerals, at least one, that a plus sign may precede. -/
def hexNumber? : List Char → Option Nat
  | [] => none
  | '+' :: d :: ds => hexDigits? (d :: ds)
  | ds => hexDigits? ds

/-- The character with a code point, if it has one. -/
def charOf? (n : Nat) : Option Char :=
  if n < 0xD800 || (0xDFFF < n && n < 0x110000) then some (Char.ofNat n) else none

/-- The character of an escape by one letter. -/
def simple? : Char → Option Char
  | '\\' => some '\\'
  | '\x27' => some '\x27'
  | '"' => some '"'
  | 'n' => some '\n'
  | 't' => some '\t'
  | 'r' => some '\r'
  | '0' => some '\x00'
  | 'a' => some '\x07'
  | 'b' => some '\x08'
  | 'f' => some '\x0c'
  | 'v' => some '\x0b'
  | _ => none

/-- How many numerals follow the letter of an escape by code point. -/
def codeWidth? : Char → Option Nat
  | 'x' => some 2
  | 'u' => some 4
  | 'U' => some 8
  | _ => none

/-- Decode the numerals of an escape by code point; an escape that names no character stays as
written. -/
def code (letter : Char) (width : Nat) (digits : List Char) : List Char :=
  match (hexNumber? digits).bind charOf? with
  | some c => if digits.length = width then [c] else '\\' :: letter :: digits
  | none => '\\' :: letter :: digits

/-- Decode the escapes of a literal's content. Looking at `skip` more characters is left out, as
they belong to an escape that was decoded before. -/
def decodeFrom : Nat → List Char → List Char
  | _, [] => []
  | skip + 1, _ :: cs => decodeFrom skip cs
  | 0, '\\' :: [] => ['\\']
  | 0, '\\' :: c :: cs =>
    if c = '\n' then decodeFrom 0 cs
    else
      match simple? c, codeWidth? c with
      | some d, _ => d :: decodeFrom 0 cs
      | none, some width => code c width (cs.take width) ++ decodeFrom width cs
      | none, none => '\\' :: c :: decodeFrom 0 cs
  | 0, c :: cs => c :: decodeFrom 0 cs

/-- Decode every escape of a literal's content. -/
def decode (cs : List Char) : List Char := decodeFrom 0 cs

/-- Write one character of a literal that stands in the quotes `quote`. -/
def encodeChar (quote c : Char) : List Char :=
  if c = '\\' then ['\\', '\\']
  else if c = '\n' then ['\\', 'n']
  else if c = '\r' then ['\\', 'r']
  else if c = '\t' then ['\\', 't']
  else if c = quote then ['\\', c]
  else if c.toNat < 0x20 || c.toNat == 0x7f then '\\' :: 'x' :: hex 2 c.toNat
  else [c]

/-- Write the content of a literal that stands in the quotes `quote`. -/
def encode (quote : Char) (cs : List Char) : List Char := cs.flatMap (encodeChar quote)

end Escape

namespace StrLit

/-- The single quote, unless only the other one makes escapes unnecessary. -/
def quote (value : List Char) : Char :=
  if value.contains '\x27' && !value.contains '"' then '"' else '\x27'

/-- Whether a value can stand between the quotes without any escape. -/
def fitsRaw (value : List Char) : Bool :=
  !value.contains (quote value) && !value.contains '\n' && !value.contains '\r' &&
    (value.reverse.takeWhile (· == '\\')).length % 2 == 0

/-- The literal as written in a source text. -/
def write (lit : StrLit) : List Char :=
  let value := lit.value.toList
  let q := quote value
  let mark := if lit.bytes then ['b'] else []
  if lit.raw && fitsRaw value then mark ++ 'r' :: q :: value ++ [q]
  else mark ++ q :: Escape.encode q value ++ [q]

/-- Whether a character is a single or a double quote. -/
def isQuote (c : Char) : Bool := c == '\x27' || c == '"'

/-- Read a literal as written in a source text. A literal with interpolation has no value. -/
def read? (text : List Char) : Option StrLit :=
  let mark := (text.takeWhile (!isQuote ·)).map Char.toLower
  let body := text.dropWhile (!isQuote ·)
  if body.isEmpty || mark.contains 'f' || mark.contains 't' then none
  else
    let triple := ['"', '"', '"'].isPrefixOf body || ['\x27', '\x27', '\x27'].isPrefixOf body
    let width := if triple then 3 else 1
    if body.length < 2 * width then none
    else
      let content := (body.drop width).take (body.length - 2 * width)
      let raw := mark.contains 'r'
      some
        { value := String.ofList (if raw then content else Escape.decode content)
          raw
          bytes := mark.contains 'b' }

end StrLit

namespace Literal

/-- The text of a double: a number without a fraction keeps a zero after the point. -/
def writeFloat (x : Float) : String :=
  let text := Decimal.ofFloat x
  if text.any (· == '.') || text == "inf" || text == "-inf" || text == "NaN" then text
  else text ++ ".0"

/-- The value of a numeral in a base up to 16. -/
def digit? (base : Nat) (c : Char) : Option Nat :=
  (Escape.hexDigit? c).filter (· < base)

/-- The value of numerals in a base up to 16, at least one. -/
def digits? (base : Nat) : List Char → Option Nat
  | [] => none
  | cs => cs.foldlM (fun n c => (digit? base c).map (base * n + ·)) 0

/-- The greatest integer a literal can stand for. -/
def maxInt : Nat := 0x7fffffffffffffff

/-- Read an integer literal: decimal or with a base mark, underscores left out, a mark of length at
the end dropped. Too large a number, or a trailing letter of an imaginary one, is no integer. -/
def readInt? (text : List Char) : Option Nat :=
  let kept := text.filter (· != '_')
  let cleaned := ((kept.reverse.dropWhile fun c => c == 'l' || c == 'L').reverse).map Char.toLower
  let value := match cleaned with
    | '0' :: 'x' :: ds => digits? 16 ds
    | '0' :: 'o' :: ds => digits? 8 ds
    | '0' :: 'b' :: ds => digits? 2 ds
    | ds => digits? 10 ds
  value.filter (· ≤ maxInt)

/-- Read a float literal; an imaginary or infinite one is no float. -/
def readFloat? (text : List Char) : Option Float :=
  (Decimal.read? (text.filter (· != '_'))).filter (·.isFinite)

end Literal

end Concord
