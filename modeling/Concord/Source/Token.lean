import Concord.Text.Identifier

/-!
# Tokens of a source text

A source text is a sequence of tokens with gaps of blanks between them. Comments and line
continuations are tokens too, because the text of a construct that is kept as written includes them.
`tokenize` loses nothing: gaps and token texts, in order, make up the source text.
-/

namespace Concord.Source

/-- The classes of tokens. -/
inductive TokenKind where
  | word
  | int
  | float
  | string
  | op
  | comment
  | continuation
  | bad
  | finish
deriving Repr, DecidableEq

/-- A token with what stands before it. -/
inductive Token where
  /-- Class, text, blanks before the token, its column in bytes, its indentation if a line break
  stands between it and the last token that is no comment, its number, and the token lists of the
  interpolations of a string. -/
  | mk (kind : TokenKind) (text gap : String) (column : Nat) (line : Option Nat) (index : Nat)
      (holes : List (List Token))

namespace Token

/-- The class of a token. -/
def kind : Token → TokenKind
  | mk k _ _ _ _ _ _ => k

/-- The text of a token. -/
def text : Token → String
  | mk _ t _ _ _ _ _ => t

/-- The blanks before a token. -/
def gap : Token → String
  | mk _ _ g _ _ _ _ => g

/-- The number of bytes between the start of the line and the token. -/
def column : Token → Nat
  | mk _ _ _ c _ _ _ => c

/-- The indentation of a token that starts a line. -/
def line : Token → Option Nat
  | mk _ _ _ _ l _ _ => l

/-- The number of the token. -/
def index : Token → Nat
  | mk _ _ _ _ _ i _ => i

/-- The token lists of the interpolations of a string. -/
def holes : Token → List (List Token)
  | mk _ _ _ _ _ _ hs => hs

/-- Comments and line continuations may stand between any two tokens. -/
def isTrivia (t : Token) : Bool := t.kind == .comment || t.kind == .continuation

instance : Inhabited Token := ⟨mk .finish "" "" 0 (some 0) 0 []⟩

end Token

/-! ### Character classes -/

/-- Blanks between tokens. -/
def isGap (c : Char) : Bool :=
  let n := c.toNat
  (9 ≤ n && n ≤ 13) || n == 0x20 || n == 0xFEFF || n == 0x2060 || n == 0x200B

/-- Quotes that start and end a string. -/
def isStringQuote (c : Char) : Bool := c == '\x27' || c == '"' || c == '\x60'

/-- Letters that may stand before the quote of a string. -/
def isStringMark : Char → Bool
  | 'f' | 'F' | 't' | 'T' | 'r' | 'R' | 'b' | 'B' | 'u' | 'U' => true
  | _ => false

/-! ### Numbers -/

/-- Take `digit+ _?` repeatedly. -/
def takeGroups (isDigit : Char → Bool) : List Char → List Char × List Char
  | [] => ([], [])
  | c :: cs =>
    if isDigit c then
      let (more, rest) := takeGroups isDigit cs
      (c :: more, rest)
    else if c == '_' then
      -- An underscore belongs to the number after a digit; a second one does not.
      match cs with
      | d :: _ =>
        if isDigit d then
          let (more, rest) := takeGroups isDigit cs
          ('_' :: more, rest)
        else (['_'], cs)
      | [] => (['_'], [])
    else ([], c :: cs)

/-- Take digits that an underscore may precede in groups. -/
def takeBased (isDigit : Char → Bool) : List Char → List Char × List Char
  | [] => ([], [])
  | c :: cs =>
    if isDigit c then
      let (more, rest) := takeBased isDigit cs
      (c :: more, rest)
    else
      match c, cs with
      | '_', d :: _ =>
        if isDigit d then
          let (more, rest) := takeBased isDigit cs
          ('_' :: more, rest)
        else ([], c :: cs)
      | _, _ => ([], c :: cs)

/-- Whether a character is a hexadecimal digit. -/
def isHexDigit (c : Char) : Bool :=
  c.isDigit || ('a' ≤ c && c ≤ 'f') || ('A' ≤ c && c ≤ 'F')

/-- The digits of a base mark. -/
def basedDigits? : Char → Option (Char → Bool)
  | 'x' | 'X' => some isHexDigit
  | 'o' | 'O' => some fun c => '0' ≤ c && c ≤ '7'
  | 'b' | 'B' => some fun c => c == '0' || c == '1'
  | _ => none

/-- Take one character of a set, if it comes next. -/
def takeOne (allowed : List Char) : List Char → List Char × List Char
  | c :: cs => if allowed.contains c then ([c], cs) else ([], c :: cs)
  | [] => ([], [])

/-- Take the exponent of a float, if there is one with a digit in it. -/
def takeExponent (cs : List Char) : List Char × List Char :=
  let (mark, rest) := takeOne ['e', 'E'] cs
  if mark.isEmpty then ([], cs)
  else
    let (sign, rest) := takeOne ['+', '-'] rest
    match rest with
    | d :: _ =>
      if d.isDigit then
        let (digits, rest) := takeGroups Char.isDigit rest
        (mark ++ sign ++ digits, rest)
      else ([], cs)
    | [] => ([], cs)

/-- Take a number, which starts with a digit or a point before a digit. -/
def takeNumber (cs : List Char) : TokenKind × List Char × List Char :=
  let decimal : TokenKind × List Char × List Char :=
    let (whole, rest) := takeGroups Char.isDigit cs
    let (point, rest') := takeOne ['.'] rest
    if !point.isEmpty then
      let (frac, rest') := match rest' with
        | d :: _ => if d.isDigit then takeGroups Char.isDigit rest' else ([], rest')
        | [] => ([], [])
      let (exponent, rest') := takeExponent rest'
      let (mark, rest') := takeOne ['j', 'J'] rest'
      (.float, whole ++ point ++ frac ++ exponent ++ mark, rest')
    else
      let (exponent, rest') := takeExponent rest
      if !exponent.isEmpty then
        let (mark, rest') := takeOne ['j', 'J'] rest'
        (.float, whole ++ exponent ++ mark, rest')
      else
        let (mark, rest) := takeOne ['l', 'L', 'j', 'J'] rest
        (.int, whole ++ mark, rest)
  match cs with
  | '0' :: b :: rest =>
    match basedDigits? b with
    | some isDigit =>
      let (digits, rest) := takeBased isDigit rest
      if digits.isEmpty then decimal
      else
        let (mark, rest) := takeOne ['l', 'L'] rest
        (.int, '0' :: b :: digits ++ mark, rest)
    | none => decimal
  | _ => decimal

/-! ### Operators -/

/-- Operators and delimiters, longer ones before their beginnings. -/
def operators : List (List Char) :=
  ["...", "**=", "//=", ">>=", "<<=", "**", "//", ">>", "<<", "<=", ">=", "==", "!=", "<>", "->",
    ":=", "+=", "-=", "*=", "/=", "%=", "@=", "&=", "|=", "^=", "+", "-", "*", "/", "%", "@", "&",
    "|", "^", "~", "<", ">", "(", ")", "[", "]", "\x7b", "\x7d", ",", ":", ".", ";", "="].map
    String.toList

/-- The longest operator a text starts with. -/
def operator? (cs : List Char) : Option (List Char) := operators.find? (·.isPrefixOf cs)

/-! ### Strings -/

/-- How the content of a string is read. -/
structure StringForm where
  quote : Char
  triple : Bool
  raw : Bool
  bytes : Bool
  format : Bool

/-- A run of characters of a string is open to a line break only at its start, unless the string has
three quotes; this is the state within a run. -/
abbrev HasContent := Bool

/-- The next part of a string's content. -/
inductive StringStep where
  /-- Part of the content, with the number of characters it has and whether the run is open. -/
  | more (count : Nat) (content : HasContent)
  /-- The closing quotes, with their number. -/
  | close (count : Nat)
  /-- The brace that opens an interpolation. -/
  | hole
  /-- A fault. -/
  | fail

/-- What follows the backslash of an escape in a string that is not raw: the number of characters of
the whole escape. -/
def escapeLength : List Char → Nat
  | '\n' :: _ => 2
  | '\r' :: '\n' :: _ => 3
  | 'N' :: '\x7b' :: rest =>
    let name := rest.takeWhile (· != '\x7d')
    if name.isEmpty || name.length == rest.length then 1 else name.length + 4
  | c :: _ => if c == '\\' || c == '\x27' || c == '"' then 2 else 1
  | [] => 1

/-- How many characters a backslash covers in a raw string. -/
def rawEscapeLength (quote : Char) (cs : List Char) : Nat :=
  let (covered, rest) := match cs with
    | c :: rest => if c == quote || c == '\\' then (1, rest) else (0, cs)
    | [] => (0, [])
  let breaks := match rest with
    | '\r' :: '\n' :: _ => 2
    | '\r' :: _ => 1
    | '\n' :: _ => 1
    | _ => 0
  1 + covered + breaks

/-- Read the next part of a string's content. -/
def stringStep (form : StringForm) (content : HasContent) (cs : List Char) : StringStep :=
  match cs with
  | [] => .fail
  | c :: rest =>
    if c == '\x00' then .fail
    else if form.format && c == '\x7b' then
      if rest.head? == some '\x7b' then .more 2 false else .hole
    else if form.format && c == '\x7d' then
      if rest.head? == some '\x7d' then .more 2 false else .fail
    else if c == '\\' then
      if form.raw then .more (rawEscapeLength form.quote rest) content
      else if form.bytes && (rest.head?.any fun d => d == 'N' || d == 'u' || d == 'U') then
        -- These are no escapes here, and the character after the letter is passed by as well.
        if rest.length < 2 then .fail else .more 3 true
      else .more (escapeLength rest) false
    else if c == form.quote then
      if form.triple then
        if rest.take 2 == [form.quote, form.quote] then .close 3
        else .more (if rest.head? == some form.quote then 2 else 1) false
      else .close 1
    else if c == '\n' && content && !form.triple then .fail
    else .more 1 true

/-- Whether the tokens of an interpolation end before this character, outside all brackets. -/
def endsHole (lambdas : Nat) : List Char → Bool
  | '\x7d' :: _ => true
  | '!' :: c :: _ => c != '='
  | ':' :: c :: _ => c != '=' && lambdas == 0
  | [':'] => lambdas == 0
  | '=' :: c :: _ => c != '='
  | _ => false

/-- What a token text does to the depth of brackets. -/
def depthAfter (depth : Nat) (text : String) : Nat :=
  if text == "(" || text == "[" || text == "\x7b" then depth + 1
  else if text == ")" || text == "]" || text == "\x7d" then depth - 1
  else depth

/-- A token without its place. -/
structure Lexeme where
  kind : TokenKind
  chars : List Char
  rest : List Char
  holes : List (List Token) := []

/-- What is known of the place where the next token starts. -/
structure Place where
  column : Nat := 0
  line : Option Nat := some 0
  indent : Nat := 0
  index : Nat := 0

namespace Place

/-- The place after a character of a gap. -/
def afterGap (p : Place) (c : Char) : Place :=
  let column := p.column + c.utf8Size
  if c == '\n' then { p with column := 0, line := some 0, indent := 0 }
  else if c == ' ' then { p with column, indent := p.indent + 1 }
  else if c == '\t' then { p with column, indent := p.indent + 8 }
  else if c == '\r' || c == '\x0c' then { p with column, indent := 0 }
  else { p with column }

/-- The column after a text. -/
def columnAfter (column : Nat) (cs : List Char) : Nat :=
  cs.foldl (fun n c => if c == '\n' then 0 else n + c.utf8Size) column

/-- The place after a token: a comment or a continuation leaves a line break that was seen in
force. -/
def afterToken (p : Place) (trivia : Bool) (cs : List Char) : Place :=
  { column := columnAfter p.column cs
    line := if trivia then p.line else none
    indent := p.indent
    index := p.index + 1 }

end Place

/-- Put a lexeme in its place. -/
def Lexeme.at (l : Lexeme) (gap : List Char) (p : Place) : Token :=
  .mk l.kind (String.ofList l.chars) (String.ofList gap) p.column (p.line.map fun _ => p.indent)
    p.index l.holes

/-- Read the tokens of an interpolation up to where its expression ends, given a reader of single
tokens. -/
def holeTokens (next : List Char → Lexeme) :
    Nat → Place → Nat → Nat → List Char → Option (List Token × List Char)
  | 0, _, _, _, _ => none
  | fuel + 1, p, depth, lambdas, cs =>
    let gap := cs.takeWhile isGap
    let p := gap.foldl Place.afterGap p
    let cs := cs.dropWhile isGap
    if cs.isEmpty then none
    else if depth == 0 && endsHole lambdas cs then
      let finish : Lexeme := { kind := .finish, chars := [], rest := cs }
      some ([finish.at gap p], cs)
    else
      let lexeme := next cs
      let token := lexeme.at gap p
      let lambdas :=
        if depth != 0 then lambdas
        else if token.text == "lambda" then lambdas + 1
        else if token.text == ":" then lambdas - 1
        else lambdas
      (holeTokens next fuel (p.afterToken token.isTrivia lexeme.chars) (depthAfter depth token.text)
        lambdas lexeme.rest).map fun (ts, rest) => (token :: ts, rest)

/-- Read a format specification up to the brace that closes the interpolation, given a reader of
interpolations. -/
def formatSpec (hole : List Char → Option (List (List Token) × List Char)) :
    Nat → List Char → Option (List (List Token) × List Char)
  | 0, _ => none
  | _ + 1, [] => none
  | fuel + 1, c :: cs =>
    if c == '\x7d' then some ([], c :: cs)
    else if c == '\x7b' then
      (hole cs).bind fun (inner, rest) =>
        (formatSpec hole fuel rest).map fun (more, rest) => (inner ++ more, rest)
    else formatSpec hole fuel cs

/-- Read an interpolation after its opening brace: expression, equals sign, conversion and format
specification. The result holds the tokens of its expression and of all nested ones. -/
def interpolation (next : List Char → Lexeme) :
    Nat → List Char → Option (List (List Token) × List Char)
  | 0, _ => none
  | depth + 1, cs => do
    let (tokens, rest) ← holeTokens next (cs.length + 1) {} 0 0 cs
    let rest := match rest with
      | '=' :: rest => rest.dropWhile isGap
      | rest => rest
    let rest ← match rest with
      | '!' :: c :: rest => if 'a' ≤ c && c ≤ 'z' then some (rest.dropWhile isGap) else none
      | rest => some rest
    let (inner, rest) ← match rest with
      | ':' :: rest => formatSpec (interpolation next depth) (rest.length + 1) rest
      | rest => some ([], rest)
    match rest with
    | '\x7d' :: rest => some (tokens :: inner, rest)
    | _ => none

/-- Read the content of a string up to its closing quotes, given a reader of interpolations. The
result is the rest of the text and the interpolations. -/
def stringContent (form : StringForm)
    (hole : List Char → Option (List (List Token) × List Char)) :
    Nat → HasContent → List Char → Option (List Char × List (List Token))
  | 0, _, _ => none
  | fuel + 1, content, cs =>
    match stringStep form content cs with
    | .fail => none
    | .close n => some (cs.drop n, [])
    | .more n content => stringContent form hole fuel content (cs.drop n)
    | .hole =>
      (hole (cs.drop 1)).bind fun (inner, rest) =>
        (stringContent form hole fuel false rest).map fun (rest, more) => (rest, inner ++ more)

/-- The string a text starts with, if letters of a string mark and a quote come next. A string that
does not end is a fault that takes the whole rest. -/
def string? (hole : List Char → Option (List (List Token) × List Char)) (cs : List Char) :
    Option Lexeme :=
  let mark := cs.takeWhile isStringMark
  match cs.dropWhile isStringMark with
  | [] => none
  | q :: rest =>
    if isStringQuote q then
      let triple := q != '\x60' && rest.take 2 == [q, q]
      let has (a b : Char) : Bool := mark.any fun c => c == a || c == b
      let form : StringForm :=
        { quote := q, triple, raw := has 'r' 'R', bytes := has 'b' 'B'
          format := has 'f' 'F' || has 't' 'T' }
      let content := if triple then rest.drop 2 else rest
      match stringContent form hole (content.length + 1) false content with
      | some (after, holes) =>
        some { kind := .string, chars := cs.take (cs.length - after.length), rest := after, holes }
      | none => some { kind := .bad, chars := cs, rest := [] }
    else none

/-- The line continuation a text starts with: a backslash before a line break or the end. -/
def continuation? : List Char → Option Lexeme
  | ['\\'] => some { kind := .continuation, chars := ['\\'], rest := [] }
  | '\\' :: '\n' :: rest => some { kind := .continuation, chars := ['\\', '\n'], rest }
  | '\\' :: '\r' :: '\n' :: rest =>
    some { kind := .continuation, chars := ['\\', '\r', '\n'], rest }
  | _ => none

/-- The token a text starts with, where strings may be nested `depth` levels deep. -/
def lexeme : Nat → List Char → Lexeme
  | 0, cs => { kind := .bad, chars := cs, rest := [] }
  | depth + 1, cs =>
    match cs with
    | [] => { kind := .finish, chars := [], rest := [] }
    | c :: rest =>
      match string? (interpolation (lexeme depth) (depth + 1)) cs with
      | some s => s
      | none =>
        if c == '#' then
          { kind := .comment, chars := cs.takeWhile (· != '\n'), rest := cs.dropWhile (· != '\n') }
        else if Identifier.isStart c then
          { kind := .word, chars := c :: rest.takeWhile Identifier.isContinue
            rest := rest.dropWhile Identifier.isContinue }
        else if c.isDigit || (c == '.' && rest.head?.any Char.isDigit) then
          let (kind, chars, rest) := takeNumber cs
          { kind, chars, rest }
        else
          match continuation? cs with
          | some l => l
          | none =>
            match operator? cs with
            | some op => { kind := .op, chars := op, rest := cs.drop op.length }
            | none => { kind := .bad, chars := [c], rest }

/-- The tokens of a text from a place on; the last one marks the end. -/
def tokensFrom (depth : Nat) : Nat → Place → List Char → List Token
  | 0, _, _ => []
  | fuel + 1, p, cs =>
    let gap := cs.takeWhile isGap
    let p := gap.foldl Place.afterGap p
    let cs := cs.dropWhile isGap
    let l := lexeme depth cs
    if cs.isEmpty then
      -- The end counts as a line break at the left margin.
      [l.at gap { p with line := some 0, indent := 0 }]
    else
      let token := l.at gap p
      token :: tokensFrom depth fuel (p.afterToken token.isTrivia l.chars) l.rest

/-- The tokens of a source text. -/
def tokenize (source : List Char) : List Token :=
  tokensFrom (source.length + 1) (source.length + 1) {} source

end Concord.Source
