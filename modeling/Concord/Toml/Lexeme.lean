import Concord.Tree.Literal

/-!
# Lexemes of settings

The smallest parts of a settings text in the TOML format: gaps, comments and the ends of lines, strings
in their four forms, and keys. A reader takes the characters that are left and gives what it read with
the characters after it.
-/

namespace Concord.Toml

/-! ### Gaps and lines -/

/-- Blanks within a line. -/
def isGap (c : Char) : Bool := c == ' ' || c == '\t'

/-- Skip blanks within a line. -/
def skipGap (cs : List Char) : List Char := cs.dropWhile isGap

/-- Characters that stand for themselves: a tab and all but the control characters. -/
def isPlain (c : Char) : Bool := c == '\t' || (0x20 ≤ c.toNat && c.toNat != 0x7f)

/-- Read the end of a line. -/
def newline? : List Char → Option (List Char)
  | '\n' :: cs => some cs
  | '\r' :: '\n' :: cs => some cs
  | _ => none

/-- Skip a comment, up to the end of its line. -/
def skipComment : List Char → List Char
  | '#' :: cs => cs.dropWhile isPlain
  | cs => cs

/-- Read the rest of a line that holds nothing else but a comment. -/
def endOfLine? (cs : List Char) : Option (List Char) :=
  match skipComment (skipGap cs) with
  | [] => some []
  | cs => newline? cs

/-- Skip blanks, ends of lines and comments, from inside a comment or from outside one. -/
def skipLines (inComment : Bool) : List Char → List Char
  | [] => []
  | '\r' :: '\n' :: cs => skipLines false cs
  | c :: cs =>
    if c = '\n' then skipLines false cs
    else if isGap c || (inComment && isPlain c) then skipLines inComment cs
    else if c = '#' then skipLines true cs
    else c :: cs

/-! ### Strings -/

/-- The character of a code point written with `width` numerals. -/
def codePoint? (width : Nat) (cs : List Char) : Option (Char × List Char) := do
  let digits := cs.take width
  if digits.length < width then none
  let c ← (Escape.hexDigits? digits).bind Escape.charOf?
  return (c, cs.drop width)

/-- Read an escape after its backslash. -/
def escape? : List Char → Option (Char × List Char)
  | 'b' :: cs => some ('\x08', cs)
  | 'f' :: cs => some ('\x0c', cs)
  | 'n' :: cs => some ('\n', cs)
  | 'r' :: cs => some ('\r', cs)
  | 't' :: cs => some ('\t', cs)
  | '"' :: cs => some ('"', cs)
  | '\\' :: cs => some ('\\', cs)
  | 'u' :: cs => codePoint? 4 cs
  | 'U' :: cs => codePoint? 8 cs
  | _ => none

/-- Read a string within one line after its opening quote, with the characters read so far in reverse.
Between double quotes a backslash starts an escape. -/
def singleLine? (quote : Char) : Nat → List Char → List Char → Option (String × List Char)
  | 0, _, _ => none
  | _ + 1, _, [] => none
  | fuel + 1, acc, c :: cs =>
    if c = quote then some (String.ofList acc.reverse, cs)
    else if c = '\\' ∧ quote = '"' then
      (escape? cs).bind fun (d, cs) => singleLine? quote fuel (d :: acc) cs
    else if isPlain c then singleLine? quote fuel (c :: acc) cs
    else none

/-- Skip the blanks and the ends of lines after a backslash that ends a line. -/
def continued? (cs : List Char) : Option (List Char) := do
  let cs ← newline? (skipGap cs)
  return skipBlankLines cs
where
  /-- Skip blanks and ends of lines. -/
  skipBlankLines : List Char → List Char
    | [] => []
    | '\r' :: '\n' :: cs => skipBlankLines cs
    | c :: cs => if c = '\n' ∨ isGap c then skipBlankLines cs else c :: cs

/-- How many quotes stand in front. -/
def quotes (quote : Char) (cs : List Char) : Nat := (cs.takeWhile (· == quote)).length

/-- Read a string over several lines after its opening quotes. Three quotes close it, and up to two
more in front of them belong to it. -/
def manyLines? (quote : Char) : Nat → List Char → List Char → Option (String × List Char)
  | 0, _, _ => none
  | _ + 1, _, [] => none
  | fuel + 1, acc, c :: cs =>
    if 3 ≤ quotes quote (c :: cs) then
      let inner := min 2 (quotes quote (c :: cs) - 3)
      some (String.ofList ((List.replicate inner quote ++ acc).reverse), cs.drop (inner + 2))
    else if c = '\\' ∧ quote = '"' then
      match continued? cs with
      | some cs => manyLines? quote fuel acc cs
      | none => (escape? cs).bind fun (d, cs) => manyLines? quote fuel (d :: acc) cs
    else if isPlain c then manyLines? quote fuel (c :: acc) cs
    else (newline? (c :: cs)).bind fun cs => manyLines? quote fuel ('\n' :: acc) cs

/-- Read a string after the first of its quotes. A line that ends right after three opening quotes
does not count. -/
def string? (quote : Char) (cs : List Char) : Option (String × List Char) :=
  match cs.splitAt 2 with
  | ([a, b], rest) =>
    if a = quote ∧ b = quote then manyLines? quote (rest.length + 1) [] ((newline? rest).getD rest)
    else singleLine? quote (cs.length + 1) [] cs
  | _ => singleLine? quote (cs.length + 1) [] cs

/-! ### Keys -/

/-- Characters of a key without quotes. -/
def isKeyChar (c : Char) : Bool := c.isAlphanum || c == '_' || c == '-'

/-- Read one key: bare, or a string within one line. -/
def key? (cs : List Char) : Option (String × List Char) :=
  match cs with
  | '"' :: cs => singleLine? '"' (cs.length + 1) [] cs
  | '\x27' :: cs => singleLine? '\x27' (cs.length + 1) [] cs
  | cs =>
    let name := cs.takeWhile isKeyChar
    if name.isEmpty then none else some (String.ofList name, cs.dropWhile isKeyChar)

/-- Keys in a path, and levels of nesting, have to be fewer. -/
def limit : Nat := 80

/-- Read a path: keys divided by dots, and blanks around them. -/
def keys? : Nat → List Char → Option (List String × List Char)
  | 0, _ => none
  | fuel + 1, cs => do
    let (k, cs) ← key? (skipGap cs)
    match skipGap cs with
    | '.' :: cs =>
      let (ks, cs) ← keys? fuel cs
      return (k :: ks, cs)
    | cs => return ([k], cs)

/-- Read a path of fewer than `limit` keys. -/
def path? (cs : List Char) : Option (List String × List Char) := keys? (limit - 1) cs

end Concord.Toml
