import Concord.Source.Cursor
import Concord.Tree.Literal

/-!
# Reading expressions

A recursive-descent reader. Its levels, from the loosest binding to the tightest: conditional and
lambda, `as` and `:=`, `or`, `and`, `not`, comparisons, the binary operators of `binaryLevels`,
signs, power, `await`, and calls, attributes and subscripts. Every level is a function of the
reader of whole expressions, which `expression` ties together; a nested expression always follows a
token, so the number of tokens bounds the nesting.
-/

namespace Concord.Source

/-- A reader of whole expressions, for every context. -/
abbrev ExprReader := Context → Reader Expr

/-- A reader of an atom with what follows it, which tells whether something did. -/
abbrev PrimaryReader := Context → Reader (Expr × Bool)

/-- Binary operators in increasing order of binding strength, all grouping to the left. -/
def binaryLevels : List (List BinOp) :=
  [[.bitOr], [.bitAnd], [.bitXor], [.shiftLeft, .shiftRight], [.add, .sub],
    [.mul, .matMul, .div, .mod, .floorDiv]]

/-- The sign a token stands for. -/
def sign? : String → Option UnaryOp
  | "-" => some .neg
  | "+" => some .pos
  | "~" => some .invert
  | _ => none

/-- The comparison operator spelled by one token. -/
def comparison? : String → Option CmpOp
  | "==" => some .eq
  | "!=" | "<>" => some .notEq
  | "<" => some .lt
  | "<=" => some .ltEq
  | ">" => some .gt
  | ">=" => some .gtEq
  | "in" => some .member
  | "is" => some .same
  | _ => none

/-- The value of a word that is a constant. -/
def constant? : String → Option Expr
  | "True" => some (.bool true)
  | "False" => some (.bool false)
  | "None" => some .none
  | _ => none

section Levels

variable (self : ExprReader)

/-! ### Lists of expressions -/

/-- Expressions divided by commas; more than one, or a comma at the end, make a tuple. -/
def expressions (ctx : Context) : Reader Expr := fun ts => do
  let (es, comma, rest) ← commaItems ctx (some id) (self ctx) (ts.length + 1) ts
  match es, comma with
  | [e], false => some (e, rest)
  | es, _ => some (.tuple es, rest)

/-- The keyword `yield` with what it yields, kept as written. -/
def yieldExpr (ctx : Context) : Reader Expr := fun ts => do
  let start ← Cursor.operand? ctx ts
  if (Cursor.next start).text != "yield" then none
  let ts := Cursor.advance start
  if Cursor.ahead ctx ts == "from" then
    let (_, rest) ← self ctx (Cursor.advance ts)
    some (Cursor.verbatim start rest, rest)
  else
    let finished := ctx.breaks == .ends && (Cursor.next ts).line.isSome
    match if finished then none else expressions self ctx ts with
    | some (_, rest) => some (Cursor.verbatim start rest, rest)
    | none => some (Cursor.verbatim start ts, ts)

/-- An asterisk and an expression. The flag tells whether the operand is more than a name, an
attribute or a subscript. -/
def splat (ctx : Context) : Reader (Expr × Bool) := fun ts => do
  let ts := Cursor.advance ts
  let (e, rest) ← self ctx ts
  let simple := match e with
    | .name _ | .attribute _ _ | .subscript _ _ => true
    | _ => false
  let value := (Cursor.continuations ts).headD e
  some ((.starred value, !simple), rest)

/-- An element of a display: an expression, or one spread by an asterisk. -/
def element (ctx : Context) : Reader Expr := fun ts =>
  match (Cursor.next ts).text with
  | "*" => (splat self ctx ts).map fun ((e, _), rest) => (e, rest)
  | "yield" => yieldExpr self ctx ts
  | _ => self ctx ts

/-- What was read as an element from `first` on, as a whole expression: there an asterisk goes with a
name, an attribute or a subscript alone, and nothing is yielded. -/
def whole (ctx : Context) (first : Cursor) (result : Expr × Cursor) : Option (Expr × Cursor) :=
  match (Cursor.next first).text with
  | "*" | "yield" => self ctx first
  | _ => some result

/-! ### Strings and interpolations -/

/-- Whether the tokens of an interpolation make up an expression. -/
def holeIsExpression (tokens : List Token) : Bool :=
  match (yieldExpr self {} tokens).or (expressions self {} tokens) with
  | some (_, rest) => (Cursor.next rest).kind == .finish
  | none => false

/-- The further strings that follow a string directly, with the position after them. -/
def moreStrings (ctx : Context) : Nat → Cursor → List Token × Cursor
  | 0, ts => ([], ts)
  | fuel + 1, ts =>
    let t := Cursor.next ts
    if t.kind == .string && !(ctx.breaks == .ends && t.line.isSome) then
      let (more, rest) := moreStrings ctx fuel (Cursor.advance ts)
      (t :: more, rest)
    else ([], ts)

/-- One or more strings in a row. Adjacent strings are joined; where one has no fixed value, all are
kept as written. -/
def strings (ctx : Context) : Reader Expr := fun ts =>
  let first := Cursor.next ts
  let start := Cursor.advance ts
  let (more, rest) := moreStrings ctx ts.length start
  let parts := first :: more
  if parts.any fun t => t.holes.any (!holeIsExpression self ·) then none
  else
    let broken := ((Cursor.skip ts).takeWhile fun t =>
      match rest with
      | r :: _ => t.index < r.index
      | [] => true).any (·.kind == .continuation)
    let whole := Cursor.verbatim ts rest
    match parts.mapM fun t => StrLit.read? t.text.toList with
    | some [lit] => some (.str lit, rest)
    | some lits =>
      if broken then some (whole, rest)
      else
        some (.str { value := String.join (lits.map (·.value)), bytes := lits.any (·.bytes) }, rest)
    | none => some (whole, rest)

/-! ### Targets -/

/-- A simple target: a name, or something that ends in an attribute or a subscript. -/
def simpleTarget (ctx : Context) (primary : PrimaryReader) : Reader Expr := fun ts => do
  let ((e, followed), rest) ← primary ctx ts
  match e, followed with
  | .name n, false => if (Cursor.next ts).isIdentifier then some (.name n, rest) else none
  | .attribute _ _, true | .subscript _ _, true => some (e, rest)
  | _, _ => none

/-- A target: a simple one, one spread by an asterisk, or targets in brackets, nested at most `depth`
levels deep. -/
def target (ctx : Context) (primary : PrimaryReader) : Nat → Reader Expr
  | 0, _ => none
  | depth + 1, ts => do
    let ts ← Cursor.operand? ctx ts
    let inside (close : String) : Option (List Expr × Cursor) :=
      bracketItems close (some id) (target ctx.inBrackets primary depth) (ts.length + 1) []
        (Cursor.advance ts)
    match simpleTarget ctx primary ts with
    | some result => some result
    | none =>
      match (Cursor.next ts).text with
      | "(" => (inside ")").map fun (es, rest) => (.tuple es, rest)
      | "[" => (inside "]").map fun (es, rest) => (.list es, rest)
      | "*" =>
        let after ← Cursor.operand? ctx (Cursor.advance ts)
        let (e, rest) ← simpleTarget ctx primary after
        some (.starred ((Cursor.continuations (Cursor.advance ts)).headD e), rest)
      | _ => none

/-- Targets divided by commas; more than one, or a comma at the end, make a tuple. -/
def targets (ctx : Context) (primary : PrimaryReader) : Reader Expr := fun ts => do
  let (es, comma, rest) ←
    commaItems ctx (some id) (target ctx primary (ts.length + 1)) (ts.length + 1) ts
  match es, comma with
  | [e], false => some (e, rest)
  | es, _ => some (.tuple es, rest)

/-! ### Comprehensions -/

/-- The clauses of a comprehension: `for` clauses, each with its conditions, and whether one of them
is asynchronous. -/
def clauses (ctx : Context) (primary : PrimaryReader) :
    Nat → Cursor → Option ((List Clause × Bool) × Cursor)
  | 0, _ => none
  | fuel + 1, ts => do
    let isAsync := Cursor.ahead ctx ts == "async"
    let ts := if isAsync then Cursor.advance ts else ts
    let ts ← Cursor.expect? ctx "for" ts
    let (left, ts) ← targets ctx primary ts
    let ts ← Cursor.expect? ctx "in" ts
    let inner := { ctx with ternary := false }
    let (iters, _, ts) ← commaItems inner none (self inner) (ts.length + 1) ts
    let iter := match iters with
      | [e] => e
      | es => .tuple es
    let rec conditions : Nat → Cursor → Option (List Expr × Cursor)
      | 0, _ => none
      | fuel + 1, ts =>
        if Cursor.ahead ctx ts == "if" then do
          let (e, rest) ← self inner (Cursor.advance ts)
          let (es, rest) ← conditions fuel rest
          some ((Cursor.continuations (Cursor.advance ts)).headD e :: es, rest)
        else some ([], ts)
    let (ifs, ts) ← conditions (ts.length + 1) ts
    let clause : Clause := ⟨left, iter, ifs⟩
    let following := Cursor.ahead ctx ts
    if following == "for" || following == "async" then
      let ((rest, anyAsync), last) ← clauses ctx primary fuel ts
      some ((clause :: rest, isAsync || anyAsync), last)
    else some (([clause], isAsync), ts)

/-- Whether a comprehension clause comes next. -/
def startsClause (ctx : Context) (ts : Cursor) : Bool :=
  let s := Cursor.ahead ctx ts
  s == "for" || s == "async"

/-- Finish a comprehension after its element: clauses and closing bracket. `start` is the position
of the opening bracket. -/
def comprehension (ctx : Context) (primary : PrimaryReader) (kind : CompKind)
    (close : String) (start : Cursor) (e : Expr) (value : Option Expr) : Reader Expr := fun ts => do
  let ((cs, isAsync), rest) ← clauses self ctx primary (ts.length + 1) ts
  let rest ← Cursor.expect? ctx close rest
  if isAsync then some (Cursor.verbatim start rest, rest)
  else some (.comp kind e value cs, rest)

/-! ### Brackets -/

/-- What starts with a parenthesis: a tuple, an expression in parentheses, or a generator. -/
def parenthesized (ctx : Context) (primary : PrimaryReader) : Reader Expr := fun start => do
  let ctx := ctx.inBrackets
  let ts := Cursor.advance start
  if Cursor.ahead ctx ts == ")" then
    let rest := Cursor.advance ts
    some (.tuple (Cursor.continuations ts), rest)
  else
    let first := Cursor.settle ts
    let before := Cursor.continuations ts
    let spread := (Cursor.next first).text == "*"
    let yields := (Cursor.next first).text == "yield"
    let ((e, long), rest) ←
      if spread then splat self ctx first
      else (element self ctx first).map fun (e, rest) => ((e, false), rest)
    match Cursor.ahead ctx rest with
    | ")" =>
      let last := Cursor.advance rest
      if spread && long then some (.tuple (before ++ e :: Cursor.continuations rest), last)
      else if yields || !before.isEmpty || !(Cursor.continuations rest).isEmpty then
        some (Cursor.verbatim start last, last)
      else some (e, last)
    | "," =>
      let (es, last) ←
        bracketItems ")" (some id) (element self ctx) (ts.length + 1)
          (before ++ e :: Cursor.continuations rest) (Cursor.advance rest)
      some (.tuple es, last)
    | _ =>
      let (e, rest) ← whole self ctx first (e, rest)
      comprehension self ctx primary .generator ")" start e none rest

/-- What starts with a square bracket: a list or a list comprehension. -/
def bracketed (ctx : Context) (primary : PrimaryReader) : Reader Expr := fun start => do
  let ctx := ctx.inBrackets
  let ts := Cursor.advance start
  if Cursor.ahead ctx ts == "]" then some (.list (Cursor.continuations ts), Cursor.advance ts)
  else
    let before := Cursor.continuations ts
    let first := Cursor.settle ts
    let (e, rest) ← element self ctx first
    if startsClause ctx rest then
      let (e, rest) ← whole self ctx first (e, rest)
      comprehension self ctx primary .list "]" start e none rest
    else
      match Cursor.ahead ctx rest with
      | "]" => some (.list (before ++ e :: Cursor.continuations rest), Cursor.advance rest)
      | "," =>
        let (es, last) ←
          bracketItems "]" (some id) (element self ctx) (ts.length + 1)
            (before ++ e :: Cursor.continuations rest) (Cursor.advance rest)
        some (.list es, last)
      | _ => none

/-- An entry of a dictionary display; one spread by two asterisks has no key. -/
def entry (ctx : Context) : Reader (Option (Expr × Expr)) := fun ts => do
  if (Cursor.next ts).text == "**" then
    let (_, rest) ← self ctx (Cursor.advance ts)
    some (none, rest)
  else
    let (k, rest) ← self ctx ts
    let rest ← Cursor.expect? ctx ":" rest
    let (v, rest) ← self ctx rest
    some (some (k, v), rest)

/-- The entries of a dictionary, or the whole display as written if one of them is no pair. -/
def dictOf (start finish : Cursor) (entries : List (Option (Expr × Expr))) : Expr :=
  match entries.mapM id with
  | some pairs => .dict pairs
  | none => Cursor.verbatim start finish

/-- What starts with a brace: a dictionary, a set, or a comprehension of either. -/
def braced (ctx : Context) (primary : PrimaryReader) : Reader Expr := fun start => do
  let ctx := ctx.inBrackets
  let close := "\x7d"
  let ts := Cursor.advance start
  let extra : Option (Expr → Option (Expr × Expr)) := some fun _ => none
  let finish (acc : List (Option (Expr × Expr))) (rest : Cursor) : Option (Expr × Cursor) := do
    let (es, last) ← bracketItems close extra (entry self ctx) (ts.length + 1) acc rest
    some (dictOf start last es, last)
  let before := Cursor.continuations ts
  let noPairs := before.map fun _ => none
  match Cursor.ahead ctx ts with
  | "\x7d" => some (dictOf start (Cursor.advance ts) noPairs, Cursor.advance ts)
  | "," =>
    let rest ← Cursor.expect? ctx close (Cursor.advance ts)
    some (.dict [], rest)
  | "**" => finish [] ts
  | _ =>
    let first := Cursor.settle ts
    let (e, rest) ← element self ctx first
    if Cursor.ahead ctx rest == ":" then
      let (e, rest) ← whole self ctx first (e, rest)
      let (v, after) ← self ctx (← Cursor.expect? ctx ":" rest)
      if startsClause ctx after then
        comprehension self ctx primary .dict close start e (some v) after
      else
        let acc := noPairs ++ some (e, v) :: (Cursor.continuations after).map fun _ => none
        match Cursor.ahead ctx after with
        | "\x7d" => some (dictOf start (Cursor.advance after) acc, Cursor.advance after)
        | "," => finish acc (Cursor.advance after)
        | _ => none
    else if startsClause ctx rest then
      let (e, rest) ← whole self ctx first (e, rest)
      comprehension self ctx primary .set close start e none rest
    else
      match Cursor.ahead ctx rest with
      | "\x7d" => some (.set (before ++ e :: Cursor.continuations rest), Cursor.advance rest)
      | "," =>
        let (es, last) ←
          bracketItems close (some id) (element self ctx) (ts.length + 1)
            (before ++ e :: Cursor.continuations rest) (Cursor.advance rest)
        some (.set es, last)
      | _ => none

/-! ### Arguments and subscripts -/

/-- One argument of a call. -/
def argument (ctx : Context) : Reader Arg := fun ts => do
  let t := Cursor.next ts
  let after := Cursor.advance ts
  let spread (mark : Expr → Arg) : Option (Arg × Cursor) := do
    let (e, rest) ← self ctx after
    some (mark ((Cursor.continuations after).headD e), rest)
  if t.text == "*" then spread .star
  else if t.text == "**" then spread .doubleStar
  else if t.isIdentifier && (Cursor.ahead ctx after == "=") then
    let (e, rest) ← self ctx (Cursor.advance after)
    some (.keyword t.text e, rest)
  else
    let (e, rest) ← self ctx ts
    some (.positional e, rest)

/-- The arguments of a call from the opening parenthesis on. A generator may stand alone without
parentheses of its own. -/
def arguments (ctx : Context) (primary : PrimaryReader) : Reader (List Arg) := fun start => do
  let ctx := ctx.inBrackets
  let ts := Cursor.advance start
  let before := (Cursor.continuations ts).map ArgOf.positional
  let finish (acc : List Arg) (rest : Cursor) : Option (List Arg × Cursor) :=
    bracketItems ")" (some .positional) (argument self ctx) (ts.length + 1) acc rest
  match Cursor.ahead ctx ts with
  | ")" => some (before, Cursor.advance ts)
  | "," =>
    let rest ← Cursor.expect? ctx ")" (Cursor.advance ts)
    some (before ++ (Cursor.continuations (Cursor.advance ts)).map .positional, rest)
  | _ =>
    let first := Cursor.settle ts
    let (a, rest) ← argument self ctx first
    match a with
    | .positional e | .star e =>
      if startsClause ctx rest then
        let (e, rest) ← whole self ctx first (e, rest)
        let (g, last) ← comprehension self ctx primary .generator ")" start e none rest
        return ([.positional g], last)
    | _ => pure ()
    let acc := before ++ a :: (Cursor.continuations rest).map .positional
    match Cursor.ahead ctx rest with
    | ")" => some (acc, Cursor.advance rest)
    | "," => finish acc (Cursor.advance rest)
    | _ => none

/-- One index of a subscript: an expression or a slice. -/
def index (ctx : Context) : Reader Expr := fun ts => do
  let ends (ts : Cursor) : Bool :=
    let s := Cursor.ahead ctx ts
    s == ":" || s == "]" || s == ","
  let part (ts : Cursor) : Option (Option Expr × Cursor) :=
    if ends ts then some (none, ts) else (self ctx ts).map fun (e, rest) => (some e, rest)
  -- Of several things in one place of a slice the last one stands.
  let last (e : Option Expr) (ts : Cursor) : Option Expr :=
    if Cursor.ahead ctx ts == ":" then ((Cursor.continuations ts).getLast?).or e else e
  let (lower, rest) ←
    if Cursor.ahead ctx ts == ":" then some (none, ts)
    else (self ctx ts).map fun (e, rest) => (some e, rest)
  if Cursor.ahead ctx rest == ":" then
    let lower := last lower rest
    let (upper, rest) ← part (Cursor.advance rest)
    if Cursor.ahead ctx rest == ":" then
      let upper := last upper rest
      let (step, rest) ← part (Cursor.advance rest)
      some (.slice lower upper step, rest)
    else some (.slice lower upper none, rest)
  else
    let e ← lower
    some (e, rest)

/-- What follows an atom: calls, attributes and subscripts. The flag tells whether there is any. -/
def trailers (ctx : Context) (primary : PrimaryReader) :
    Nat → Expr → Bool → Cursor → Option ((Expr × Bool) × Cursor)
  | 0, _, _, _ => none
  | fuel + 1, e, followed, ts =>
    match Cursor.ahead ctx ts with
    | "." => do
      let (n, rest) ← identifier ctx (Cursor.advance ts)
      trailers ctx primary fuel (.attribute e n) true rest
    | "(" => do
      let (args, rest) ← arguments self ctx primary (Cursor.skip ts)
      trailers ctx primary fuel (.call e args) true rest
    | "[" => do
      let inner := ctx.inBrackets
      let after ← Cursor.operand? inner (Cursor.advance ts)
      if Cursor.ahead inner after == "]" then none
      let (es, rest) ← bracketItems "]" none (index self inner) (ts.length + 1) [] after
      let i := match es with
        | [e] => e
        | es => .tuple es
      trailers ctx primary fuel (.subscript e i) true rest
    | _ => some ((e, followed), ts)

/-- An atom: a name, a literal, or something in brackets. -/
def atom (ctx : Context) (primary : PrimaryReader) : Reader Expr := fun ts =>
  let t := Cursor.next ts
  let rest := Cursor.advance ts
  match t.kind with
  | .word =>
    match constant? t.text with
    | some e => some (e, rest)
    | none => if t.isIdentifier then some (.name t.text, rest) else none
  | .int =>
    match Literal.readInt? t.text.toList with
    | some n => some (.int n, rest)
    | none => some (.verbatim t.text, rest)
  | .float =>
    match Literal.readFloat? t.text.toList with
    | some x => some (.float x, rest)
    | none => some (.verbatim t.text, rest)
  | .string => strings self ctx ts
  | .op =>
    match t.text with
    | "(" => parenthesized self ctx primary ts
    | "[" => bracketed self ctx primary ts
    | "\x7b" => braced self ctx primary ts
    | "..." => some (.verbatim "...", rest)
    | "*" => do
      let after ← Cursor.operand? ctx rest
      let (e, last) ← simpleTarget ctx primary after
      some (.starred ((Cursor.continuations rest).headD e), last)
    | _ => none
  | _ => none

/-- An atom with what follows it, for atoms nested at most `depth` levels deep before a token is
taken. -/
def primary : Nat → PrimaryReader
  | 0, _, _ => none
  | depth + 1, ctx, ts => do
    let ts ← Cursor.operand? ctx ts
    let (e, rest) ← atom self ctx (primary depth) ts
    trailers self ctx (primary depth) (rest.length + 1) e false rest

/-! ### Operators -/

/-- Whether a primary expression can start with a token. -/
def startsPrimary (t : Token) : Bool :=
  match t.kind with
  | .word => t.isIdentifier || (constant? t.text).isSome
  | .int | .float | .string => true
  | .op => ["(", "[", "\x7b", "...", "+", "-", "~"].contains t.text
  | _ => false

/-- The levels of signs, power and `await`. A sign binds looser than a power to its right, and
tighter than one to its left. -/
def signed (ctx : Context) : Nat → Reader Expr
  | 0, _ => none
  | fuel + 1, ts => do
    let ts ← Cursor.operand? ctx ts
    let t := Cursor.next ts
    match if t.kind == .op then sign? t.text else none with
    | some op =>
      let (e, rest) ← signed ctx fuel (Cursor.advance ts)
      some (.unary op e, rest)
    | none =>
      let after := Cursor.advance ts
      let operand := Cursor.next after
      let awaits := t.kind == .word && t.text == "await" && startsPrimary operand &&
        !(ctx.breaks == .ends && operand.line.isSome)
      let (base, rest) ←
        if awaits then
          if operand.kind == .op && (sign? operand.text).isSome then
            (signed ctx fuel after).map fun (_, rest) => (Cursor.verbatim ts rest, rest)
          else
            (primary self (after.length + 1) ctx after).map fun (_, rest) =>
              (Cursor.verbatim ts rest, rest)
        else (primary self (ts.length + 1) ctx ts).map fun ((e, _), rest) => (e, rest)
      if Cursor.ahead ctx rest == "**" then
        let (e, rest) ← signed ctx fuel (Cursor.advance rest)
        some (.bin .pow base e, rest)
      else some (base, rest)

/-- Go on with operators of one level, grouping to the left. -/
def leftChain (ctx : Context) (ops : List BinOp) (operand : Reader Expr) :
    Nat → Expr → Reader Expr
  | 0, e, ts => some (e, ts)
  | fuel + 1, e, ts =>
    match ops.find? (·.symbol == Cursor.ahead ctx ts) with
    | some op => do
      let (r, rest) ← operand (Cursor.advance ts)
      leftChain ctx ops operand fuel (.bin op e r) rest
    | none => some (e, ts)

/-- The levels of the binary operators. -/
def binary (ctx : Context) : List (List BinOp) → Reader Expr
  | [], ts => signed self ctx (ts.length + 1) ts
  | ops :: tighter, ts => do
    let (e, rest) ← binary ctx tighter ts
    leftChain ctx ops (binary ctx tighter) rest.length e rest

/-- The comparison operator that comes next, with the position after it and whether its words are
parted by more than blanks. -/
def comparisonAhead (ctx : Context) (ts : Cursor) : Option (CmpOp × Bool × Cursor) :=
  let after := Cursor.advance ts
  let second := (Cursor.next after).text
  let parted := after.head?.any Token.isTrivia
  match Cursor.ahead ctx ts with
  | "not" => if second == "in" then some (.notMember, parted, Cursor.advance after) else none
  | "is" =>
    if second == "not" then some (.notSame, parted, Cursor.advance after)
    else some (.same, false, after)
  | s => (comparison? s).map (·, false, after)

/-- The links of a comparison and whether line continuations or comments break it up. -/
def comparisonLinks (ctx : Context) (operand : Reader Expr) :
    Nat → Cursor → Option ((List (CmpOp × Expr) × Bool) × Cursor)
  | 0, ts => some (([], false), ts)
  | fuel + 1, ts =>
    match comparisonAhead ctx ts with
    | some (op, parted, after) => do
      let (e, rest) ← operand after
      let ((links, broken), last) ← comparisonLinks ctx operand fuel rest
      let here := parted || !(Cursor.continuations ts).isEmpty ||
        !(Cursor.continuations after).isEmpty
      some (((op, e) :: links, here || broken), last)
    | none => some (([], false), ts)

/-- The level of comparisons, which chain. -/
def comparison (ctx : Context) : Reader Expr := fun ts => do
  let operand := binary self ctx binaryLevels
  let start ← Cursor.operand? ctx ts
  let (e, rest) ← operand start
  let ((links, broken), last) ← comparisonLinks ctx operand rest.length rest
  if links.isEmpty then some (e, rest)
  else if broken then some (Cursor.verbatim start last, last)
  else some (.compare e links, last)

/-! ### Parameters and lambdas -/

/-- An annotation, kept as written. -/
def typeNote (ctx : Context) : Reader String := fun ts => do
  let start ← Cursor.operand? ctx ts
  let mark := (Cursor.next start).text
  let (_, rest) ←
    if mark == "*" || mark == "**" then identifier ctx (Cursor.advance start)
    else (self ctx start).map fun (_, rest) => ("", rest)
  some (Cursor.textUpTo start rest, rest)

/-- One parameter. Annotations are read where `annotated` says so. -/
def parameter (ctx : Context) (annotated : Bool) : Reader Param := fun ts => do
  let t := Cursor.next ts
  let rest := Cursor.advance ts
  let typed (p : Param) (ts : Cursor) : Option (Param × Cursor) :=
    if annotated && Cursor.ahead ctx ts == ":" then
      (typeNote self ctx (Cursor.advance ts)).map fun (a, rest) =>
        ({ p with typeNote := some a }, rest)
    else some (p, ts)
  let defaulted (p : Param) (ts : Cursor) : Option (Param × Cursor) :=
    if Cursor.ahead ctx ts == "=" then
      (self ctx (Cursor.advance ts)).map fun (e, rest) => ({ p with default := some e }, rest)
    else some (p, ts)
  let following := (Cursor.next rest).text
  if t.text == "*" && (following == "," || following == ")" || following == ":") then
    some ({ name := "", kind := .keywordOnly }, rest)
  else if t.text == "*" then
    let (n, after) ← identifier ctx rest
    typed { name := n, kind := .varArgs } after
  else if t.text == "**" then
    let (n, after) ← identifier ctx rest
    typed { name := n, kind := .kwArgs } after
  else if t.text == "/" && t.kind == .op then some ({ name := "", kind := .positionalOnly }, rest)
  else if t.text == "(" then
    let (_, after) ← target ctx (primary self (ts.length + 1)) (ts.length + 1) ts
    defaulted { name := Cursor.textUpTo ts after } after
  else if t.isIdentifier then
    let (p, after) ← typed { name := t.text } rest
    defaulted p after
  else none

/-- A lambda from its keyword on. -/
def lambdaExpr (ctx : Context) : Reader Expr := fun ts => do
  let head := ctx.unfinished
  let rest := Cursor.advance ts
  let extra : Expr → Param := fun
    | .verbatim t => { name := t }
    | _ => { name := "" }
  let (ps, rest) ←
    if Cursor.ahead head rest == ":" then some ([], Cursor.advance rest)
    else
      bracketItems ":" (some extra) (parameter self head false) (ts.length + 1) [] rest
  let (e, last) ← self ctx rest
  some (.lambda ps e, last)

/-- The level of `not`, where lambdas and assignment expressions may stand too. -/
def negation (ctx : Context) : Nat → Reader Expr
  | 0, _ => none
  | fuel + 1, ts => do
    let ts ← Cursor.operand? ctx ts
    let t := Cursor.next ts
    let after := Cursor.advance ts
    if t.kind == .word && t.text == "not" then
      let (e, rest) ← negation ctx fuel after
      some (.unary .not e, rest)
    else if t.kind == .word && t.text == "lambda" then lambdaExpr self ctx ts
    else if t.isIdentifier && Cursor.ahead ctx after == ":=" then
      let (_, rest) ← self ctx.withoutTernary (Cursor.advance after)
      some (Cursor.verbatim ts rest, rest)
    else comparison self ctx ts

/-- Go on with a short-circuit operator, grouping to the left. -/
def logicChain (ctx : Context) (op : BoolOp) (operand : Reader Expr) :
    Nat → Expr → Reader Expr
  | 0, e, ts => some (e, ts)
  | fuel + 1, e, ts =>
    if Cursor.ahead ctx ts == op.symbol then do
      let (r, rest) ← operand (Cursor.advance ts)
      logicChain ctx op operand fuel (.logic op e r) rest
    else some (e, ts)

/-- The level of `and`. -/
def conjunction (ctx : Context) : Reader Expr := fun ts => do
  let operand : Reader Expr := fun ts => negation self ctx (ts.length + 1) ts
  let (e, rest) ← operand ts
  logicChain ctx .and operand rest.length e rest

/-- The level of `or`. -/
def disjunction (ctx : Context) : Reader Expr := fun ts => do
  let (e, rest) ← conjunction self ctx ts
  logicChain ctx .or (conjunction self ctx) rest.length e rest

/-- The level of `as`, kept as written. -/
def aliased (ctx : Context) : Reader Expr := fun ts => do
  let start := Cursor.skip ts
  let (e, rest) ← disjunction self ctx ts
  if ctx.aliasing && Cursor.ahead ctx rest == "as" then
    let (_, last) ← self ctx.withoutTernary (Cursor.advance rest)
    some (Cursor.verbatim start last, last)
  else some (e, rest)

/-- The level of conditional expressions. -/
def conditional (ctx : Context) : Reader Expr := fun ts => do
  let start := Cursor.skip ts
  let (e, rest) ← aliased self ctx ts
  if ctx.ternary && Cursor.ahead ctx rest == "if" then
    let middle := ctx.unfinished
    let first := Cursor.advance rest
    let (t, after) ← self middle first
    let second ← Cursor.expect? middle "else" after
    let (o, last) ← self ctx second
    let whole := [rest, first, after, second].all fun ts => (Cursor.continuations ts).isEmpty
    if whole then some (.ifExp t e o, last) else some (Cursor.verbatim start last, last)
  else some (e, rest)

end Levels

/-- Read an expression nested at most `depth` levels deep. -/
def expression : Nat → ExprReader
  | 0, _, _ => none
  | depth + 1, ctx, ts => conditional (expression depth) ctx ts

end Concord.Source
