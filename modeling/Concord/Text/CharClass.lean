import Concord.Tree.Literal

/-!
# Character classes of patterns

A class token of a pattern is a bracketed class or one of the six shorthands such as `\d`. This
module finds the tokens of a text and says which characters a token matches. Inside brackets there
are single characters, ranges, escapes, the shorthands, Unicode properties, and the operations
`&&`, `--` and `~~` from left to right. Only characters below 128 are ever asked for, so the
properties are given for those.
-/

namespace Concord.CharClass

/-- A set of characters. -/
abbrev Members := Char → Bool

/-! ### Finding tokens -/

/-- The rest after the closing bracket of a class, given what follows the opening one. An escaped
character does not close it, and a line feed cannot be escaped. -/
def afterBracket : List Char → Option (List Char)
  | [] => none
  | ']' :: rest => some rest
  | '\\' :: c :: rest => if c = '\n' then none else afterBracket rest
  | '\\' :: [] => none
  | _ :: rest => afterBracket rest

/-- Whether a letter after a backslash is a shorthand. -/
def isShorthand (c : Char) : Bool := "dDwWsS".toList.contains c

/-- The rest after a token at the start of a text, if there is one. -/
def afterToken? : List Char → Option (List Char)
  | '[' :: rest => afterBracket rest
  | '\\' :: c :: rest => if isShorthand c then some rest else none
  | _ => none

/-- The tokens of a text and the texts around them, with `between` read since the last token, from
the last character to the first. -/
def splitFrom : Nat → List Char → List Char → List (List Char) × List (List Char)
  | 0, between, _ => ([], [between.reverse])
  | _ + 1, between, [] => ([], [between.reverse])
  | steps + 1, between, c :: cs =>
    match afterToken? (c :: cs) with
    | some rest =>
      let (tokens, gaps) := splitFrom steps [] rest
      ((c :: cs).take (cs.length + 1 - rest.length) :: tokens, between.reverse :: gaps)
    | none => splitFrom steps (c :: between) cs

/-- The tokens of a text, and the texts before, between and after them. -/
def split (text : List Char) : List (List Char) × List (List Char) :=
  splitFrom (text.length + 1) [] text

/-! ### Sets -/

/-- No character. -/
def nothing : Members := fun _ => false

/-- Characters of both sets. -/
def both (a b : Members) : Members := fun c => a c && b c

/-- Characters of one of the sets. -/
def either (a b : Members) : Members := fun c => a c || b c

/-- Characters of the first set but not of the second. -/
def without (a b : Members) : Members := fun c => a c && !b c

/-- Characters of exactly one of the sets. -/
def apart (a b : Members) : Members := fun c => a c ^^ b c

/-- All characters but those of a set. -/
def others (a : Members) : Members := fun c => !a c

/-- The characters of a text. -/
def oneOf (s : String) : Members := fun c => s.toList.contains c

/-- The characters from one to another. -/
def range (a b : Char) : Members := fun c => a ≤ c && c ≤ b

/-- Blanks. -/
def blanks : Members := oneOf " \t\n\r\x0b\x0c"

/-- Letters, digits and the underscore. -/
def wordChars : Members := fun c => c.isAlphanum || c == '_'

/-- The set of a shorthand. -/
def shorthand? : Char → Option Members
  | 'd' => some Char.isDigit
  | 'D' => some (others Char.isDigit)
  | 'w' => some wordChars
  | 'W' => some (others wordChars)
  | 's' => some blanks
  | 'S' => some (others blanks)
  | _ => none

/-! ### Unicode properties -/

/-- Control characters. -/
def controls : Members := fun c => c.toNat < 32 || c.toNat == 127

/-- Hexadecimal digits. -/
def hexDigits : Members := fun c => (Escape.hexDigit? c).isSome

/-- Properties with the names they go by, in small letters without separators. -/
def properties : List (List String × Members) :=
  [(["any", "ascii", "assigned"], others nothing),
    (["l", "letter", "lc", "casedletter", "alphabetic", "alpha", "latin", "latn"], Char.isAlpha),
    (["lu", "uppercaseletter", "uppercase", "upper"], Char.isUpper),
    (["ll", "lowercaseletter", "lowercase", "lower"], Char.isLower),
    (["n", "number", "nd", "decimalnumber", "digit"], Char.isDigit),
    (["p", "punctuation", "punct"], oneOf "!\"#%&'()*,-./:;?@[\\]_\x7b\x7d"),
    (["pc", "connectorpunctuation"], oneOf "_"),
    (["pd", "dashpunctuation", "dash"], oneOf "-"),
    (["ps", "openpunctuation"], oneOf "([\x7b"),
    (["pe", "closepunctuation"], oneOf ")]\x7d"),
    (["po", "otherpunctuation"], oneOf "!\"#%&'*,./:;?@\\"),
    (["s", "symbol"], oneOf "$+<=>^\x60|~"),
    (["sm", "mathsymbol"], oneOf "+<=>|~"),
    (["math"], oneOf "+<=>^|~"),
    (["sc", "currencysymbol"], oneOf "$"),
    (["sk", "modifiersymbol"], oneOf "^\x60"),
    (["z", "separator", "zs", "spaceseparator"], oneOf " "),
    (["whitespace", "wspace", "space"], blanks),
    (["c", "other", "cc", "control", "cntrl"], controls),
    (["asciihexdigit", "ahex", "hexdigit", "hex"], hexDigits),
    (["common", "zyyy"], others Char.isAlpha),
    (["idstart", "ids", "xidstart", "xids"], Char.isAlpha),
    (["idcontinue", "idc", "xidcontinue", "xidc"], wordChars),
    (["lt", "titlecaseletter", "lm", "modifierletter", "lo", "otherletter", "m", "mark", "mn",
      "nonspacingmark", "mc", "spacingmark", "me", "enclosingmark", "nl", "letternumber", "no",
      "othernumber", "pi", "initialpunctuation", "pf", "finalpunctuation", "so", "othersymbol",
      "zl", "lineseparator", "zp", "paragraphseparator", "cf", "format", "cs", "surrogate", "co",
      "privateuse", "cn", "unassigned", "greek", "grek", "cyrillic", "cyrl", "han", "hani",
      "hiragana", "hira", "katakana", "kana", "arabic", "arab", "hebrew", "hebr", "thai",
      "hangul", "hang", "devanagari", "deva", "armenian", "armn", "georgian", "geor"], nothing)]

/-- The characters with a property; case, blanks and separators of its name do not matter. -/
def property? (name : List Char) : Option Members :=
  let plain := String.ofList ((name.filter fun c => !" _-".toList.contains c).map Char.toLower)
  (properties.find? fun (names, _) => names.contains plain).map (·.2)

/-! ### Bracketed classes -/

/-- A part of a class: one character, or a set. -/
inductive Part where
  | single (c : Char)
  | set (members : Members)

/-- The characters of a part. -/
def Part.members : Part → Members
  | .single c => fun d => d == c
  | .set m => m

/-- Characters that have a meaning outside of classes. -/
def isMeta (c : Char) : Bool := "\\.+*?()|[]\x7b\x7d^$#&-~".toList.contains c

/-- Characters that a backslash may stand before without changing them. -/
def isEscapable (c : Char) : Bool :=
  isMeta c || (c.toNat < 128 && !c.isAlphanum && c != '<' && c != '>')

/-- Control characters by their letters. -/
def control? : Char → Option Char
  | 'a' => some '\x07'
  | 'f' => some '\x0c'
  | 't' => some '\t'
  | 'n' => some '\n'
  | 'r' => some '\r'
  | 'v' => some '\x0b'
  | _ => none

/-- A character given by its number: `width` hexadecimal digits, or any number of them in
braces. -/
def hexChar? (width : Nat) : List Char → Option (Part × List Char)
  | '\x7b' :: rest => do
    let digits := rest.takeWhile (· != '\x7d')
    let '\x7d' :: rest := rest.dropWhile (· != '\x7d') | none
    let n ← Escape.hexNumber? digits
    (Escape.charOf? n).map (.single ·, rest)
  | cs => do
    let digits := cs.take width
    if digits.length < width then none
    else
      let n ← Escape.hexNumber? digits
      (Escape.charOf? n).map (.single ·, cs.drop width)

/-- A property given by its letter or by its name in braces, possibly negated. -/
def propertyPart? (negated : Bool) : List Char → Option (Part × List Char)
  | '\x7b' :: rest => do
    let name := rest.takeWhile (· != '\x7d')
    let '\x7d' :: rest := rest.dropWhile (· != '\x7d') | none
    let (negated, name) := match name with
      | '^' :: name => (!negated, name)
      | _ => (negated, name)
    let m ← property? name
    some (.set (if negated then others m else m), rest)
  | c :: rest => do
    let m ← property? [c]
    some (.set (if negated then others m else m), rest)
  | [] => none

/-- The part that follows a backslash. -/
def escaped? : List Char → Option (Part × List Char)
  | [] => none
  | c :: rest =>
    if c = 'x' then hexChar? 2 rest
    else if c = 'u' then hexChar? 4 rest
    else if c = 'U' then hexChar? 8 rest
    else if c = 'p' then propertyPart? false rest
    else if c = 'P' then propertyPart? true rest
    else if isEscapable c then some (.single c, rest)
    else
      match shorthand? c, control? c with
      | some m, _ => some (.set m, rest)
      | none, some d => some (.single d, rest)
      | none, none => none

/-- One part of a class. -/
def part? : List Char → Option (Part × List Char)
  | [] => none
  | '\\' :: rest => escaped? rest
  | c :: rest => some (.single c, rest)

/-- A part, or a range between two characters. -/
def item? (cs : List Char) : Option (Members × List Char) := do
  let (first, rest) ← part? cs
  match rest with
  | '-' :: c :: _ =>
    if c = ']' || c = '-' then some (first.members, rest)
    else
      let (last, rest) ← part? (rest.drop 1)
      match first, last with
      | .single a, .single b => if a ≤ b then some (range a b, rest) else none
      | _, _ => none
  | _ => some (first.members, rest)

/-- The parts of a class up to its closing bracket, with the characters `before` of what stands
before the last operation, which `join` adds to, and the characters `now` since. -/
def body? : Nat → (Members → Members) → Members → List Char → Option Members
  | 0, _, _, _ => none
  | steps + 1, join, now, cs =>
    match cs with
    | [] => none
    | [']'] => some (join now)
    | ']' :: _ => none
    | '[' :: _ => none
    | '&' :: '&' :: rest => body? steps (both (join now)) nothing rest
    | '-' :: '-' :: rest => body? steps (without (join now)) nothing rest
    | '~' :: '~' :: rest => body? steps (apart (join now)) nothing rest
    | _ => do
      let (m, rest) ← item? cs
      body? steps join (either now m) rest

/-- A class from what follows its opening bracket and an optional circumflex. Hyphens at the start
stand for themselves, and so does a bracket, which leaves the class open. -/
def bracket? (cs : List Char) : Option Members :=
  let hyphens := cs.takeWhile (· == '-')
  let rest := cs.dropWhile (· == '-')
  if hyphens.isEmpty && rest.head? == some ']' then none
  else body? (cs.length + 1) id (if hyphens.isEmpty then nothing else oneOf "-") rest

/-- The characters that a class token matches, if it is well formed. -/
def members? : List Char → Option Members
  | '[' :: '^' :: rest => (bracket? rest).map others
  | '[' :: rest => bracket? rest
  | ['\\', c] => shorthand? c
  | _ => none

/-- The characters below 128. -/
def ascii : List Char := (List.range 128).map Char.ofNat

/-- Whether two tokens match the same characters below 128. -/
def sameMembers (a b : List Char) : Bool :=
  match members? a, members? b with
  | some p, some q => ascii.all fun c => p c == q c
  | _, _ => false

/-- Whether two patterns have class tokens at the same places around the same text, and differ only
in how they spell classes of the same characters. -/
def isVariant (ours theirs : String) : Bool :=
  let (a, around) := split ours.toList
  let (b, around') := split theirs.toList
  !a.isEmpty && a.length == b.length && a != b && around == around' &&
    (a.zip b).all fun (x, y) => x == y || sameMembers x y

end Concord.CharClass
