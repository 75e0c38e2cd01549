import Concord.Source.CasePattern
import Concord.Text.Blank

/-!
# Reading statements

Simple statements fill a line or share one with semicolons between them; compound statements hold
blocks. A block is the rest of the line after a colon or the following lines that are indented
deeper. Its indentation is that of its first statement; it ends before the first statement that is
indented less, and comments belong to it as long as they are indented at least as far. A statement
with no node of its own is kept as written, moved to the left margin.
-/

namespace Concord.Source

/-- Move the lines of a text after the first to the left by at most `column` blanks. -/
def dedent (column : Nat) (text : String) : String :=
  match Text.lines text.toList with
  | [] => ""
  | first :: rest =>
    let shift (line : List Char) : List Char :=
      line.drop (min column (line.takeWhile (· == ' ')).length)
    "\n".intercalate ((first :: rest.map shift).map String.ofList)

/-- The text between two positions as a statement. -/
def verbatimStmt (kind : String) (start finish : Cursor) (binds : List String := []) : Stmt :=
  .verbatim kind (dedent (Cursor.next start).column (Cursor.textUpTo start finish)) binds

/-- Pass by what stands on the same line after a simple statement. -/
def lineRest (ts : Cursor) : Cursor := ts.dropWhile fun t => t.isTrivia && t.line.isNone

/-- Whether a simple statement is complete here. -/
def statementEnds (ts : Cursor) : Bool :=
  let t := Cursor.next ts
  t.line.isSome || t.text == ";"

/-- Keep a result only where the statement is complete. -/
def complete? (r : Option (Stmt × Cursor)) : Option (Stmt × Cursor) :=
  r.filter fun (_, rest) => statementEnds rest

/-- Operators that combine an assignment with a binary operator. -/
def augmented? (s : String) : Option BinOp :=
  match s.toList.reverse with
  | '=' :: op => BinOp.ofSymbol? (String.ofList op.reverse)
  | _ => none

/-- The right side of an assignment: a value after any further targets, or something that makes the
statement one to be kept as written. -/
inductive RightSide where
  | value (targets : List Expr) (e : Expr)
  | other

section Simple

variable (expr : ExprReader)

/-- Targets divided by commas. -/
def targetList (ctx : Context) : Reader Expr := fun ts =>
  targets ctx (primary expr (ts.length + 1)) ts

/-- The right side of an assignment, with at most `depth` further assignments in it. -/
def rightSide (ctx : Context) : Nat → Reader RightSide
  | 0, _ => none
  | depth + 1, ts =>
    let plain : Option (RightSide × Cursor) :=
      ((yieldExpr expr ctx ts).or (expressions expr ctx ts)).map fun (e, rest) =>
        (.value [] e, rest)
    match targetList expr ctx ts with
    | none => plain
    | some (t, rest) =>
      let onwards (rest : Cursor) : Option (RightSide × Cursor) :=
        (rightSide ctx depth (Cursor.advance rest)).map fun (r, last) =>
          match r with
          | .value ts e => (.value (t :: ts) e, last)
          | .other => (.other, last)
      match Cursor.ahead ctx rest with
      | "=" => onwards rest
      | ":" => do
        let (_, rest) ← typeNote expr ctx (Cursor.advance rest)
        if Cursor.ahead ctx rest == "=" then onwards rest else some (.other, rest)
      | s =>
        if (augmented? s).isSome then
          (rightSide ctx depth (Cursor.advance rest)).map fun (_, last) => (.other, last)
        else plain

/-- An assignment of any form. -/
def assignment (ctx : Context) : Reader Stmt := fun ts => do
  let (t, rest) ← targetList expr ctx ts
  let kind := "assignment"
  let assigned (typeNote : Option String) (rest : Cursor) : Option (Stmt × Cursor) :=
    (rightSide expr ctx (ts.length + 1) (Cursor.advance rest)).map fun (r, last) =>
      match r with
      | .value [] e => (.assign [t] e typeNote, last)
      | .value more e => (.assign (t :: more) e none, last)
      | .other => (verbatimStmt kind ts last, last)
  match Cursor.ahead ctx rest with
  | "=" => assigned none rest
  | ":" =>
    let (a, rest) ← typeNote expr ctx (Cursor.advance rest)
    if Cursor.ahead ctx rest == "=" then assigned (some a) rest
    else some (verbatimStmt kind ts rest, rest)
  | s =>
    let op ← augmented? s
    let after := Cursor.advance rest
    let (r, last) ← rightSide expr ctx (ts.length + 1) after
    match r with
    | .value [] e => some (.augAssign t op e, last)
    | _ => some (.augAssign t op (Cursor.verbatim after last), last)

/-- An assignment, or expressions whose values are dropped. -/
def expressionStmt (ctx : Context) : Reader Stmt := fun ts =>
  match complete? (assignment expr ctx ts) with
  | some r => some r
  | none =>
    match yieldExpr expr ctx ts with
    | some (e, rest) => some (.expr e, rest)
    | none => do
      let (es, _, rest) ← commaItems ctx (some id) (expr ctx) (ts.length + 1) ts
      match es with
      | [e] => some (.expr e, rest)
      | es => some (.expr (.tuple es), rest)

/-- A name of a module: identifiers divided by points, as written. -/
def moduleName (ctx : Context) : Reader String := fun ts => do
  let start ← Cursor.operand? ctx ts
  let (_, rest) ← dottedName ctx (ts.length + 1) start
  some (Cursor.textUpTo start rest, rest)

/-- A name to import, with its alias. -/
def importName (ctx : Context) : Reader Alias := fun ts => do
  let (name, rest) ← moduleName ctx ts
  if Cursor.ahead ctx rest == "as" then
    let (asName, rest) ← identifier ctx (Cursor.advance rest)
    some (⟨name, some asName⟩, rest)
  else some (⟨name, none⟩, rest)

/-- Names to import, perhaps in parentheses. -/
def importNames (ctx : Context) : Reader (List Alias) := fun ts =>
  if Cursor.ahead ctx ts == "(" then do
    let inner := ctx.inBrackets
    let after := Cursor.settle (Cursor.advance ts)
    if Cursor.ahead inner after == ")" then none
    else bracketItems ")" none (importName inner) (ts.length + 1) [] after
  else (commaItems ctx none (importName ctx) (ts.length + 1) ts).map fun (ns, _, rest) => (ns, rest)

/-- The module an import takes names from: points, a name, or both. -/
def importSource (ctx : Context) : Reader String := fun ts => do
  let start ← Cursor.operand? ctx ts
  let isPoint (t : Token) : Bool := t.kind == .op && (t.text == "." || t.text == "...")
  let rec points : Nat → Cursor → Cursor
    | 0, ts => ts
    | fuel + 1, ts => if isPoint (Cursor.next ts) then points fuel (Cursor.advance ts) else ts
  let rest := points start.length start
  if isPoint (Cursor.next start) then
    if (Cursor.next rest).text == "import" then some (Cursor.textUpTo start rest, rest)
    else
      let (_, rest) ← moduleName ctx rest
      some (Cursor.textUpTo start rest, rest)
  else moduleName ctx start

/-- An import of names from a module. -/
def fromStmt (ctx : Context) : Reader Stmt := fun start => do
  let head := ctx.unfinished
  let (source, rest) ← importSource head (Cursor.advance start)
  let rest ← Cursor.expect? head "import" rest
  let future := (Cursor.next (Cursor.advance start)).text == "__future__"
  if Cursor.ahead head rest == "*" then
    if future then none
    else
      let rest := Cursor.advance rest
      some (verbatimStmt "import_from_statement" start rest, rest)
  else
    let ts ← Cursor.operand? ctx rest
    let (names, rest) ← importNames ctx (Cursor.settle ts)
    if future then
      if source == "__future__" then some (verbatimStmt "future_import_statement" start rest, rest)
      else none
    else some (.importFrom source names, rest)

/-- Names of a declaration. -/
def declaration (ctx : Context) : Reader (List String) := fun ts => do
  let extra : Expr → String := fun
    | .verbatim t => t
    | _ => ""
  let (names, comma, rest) ← commaItems ctx (some extra) (identifier ctx) (ts.length + 1) ts
  -- A comma must not end the names.
  if comma && (names.length < 2 || Cursor.ahead ctx rest == ",") then none
  else some ((Cursor.continuations ts).map extra ++ names, rest)

/-- Whether nothing follows on the line. -/
def lineIsOver (ts : Cursor) : Bool := statementEnds ts

/-- The statements that start with a keyword. -/
def keywordStmt (ctx : Context) (word : String) : Reader Stmt := fun start =>
  let rest := Cursor.advance start
  let first (e : Expr) : Expr := (Cursor.continuations rest).headD e
  match word with
  | "pass" => some (.pass, rest)
  | "break" => some (.break, rest)
  | "continue" => some (.continue, rest)
  | "return" =>
    if lineIsOver rest then some (.ret none, rest)
    else (expressions expr ctx rest).map fun (e, last) => (.ret (some (first e)), last)
  | "del" =>
    (expressions expr ctx rest).map fun (_, last) =>
      (verbatimStmt "delete_statement" start last, last)
  | "raise" => do
    let (e, after) ←
      if lineIsOver rest || Cursor.ahead ctx rest == "from" then some (none, rest)
      else (expressions expr ctx rest).map fun (e, after) => (some (first e), after)
    if Cursor.ahead ctx after == "from" then
      let (c, last) ← expr ctx (Cursor.advance after)
      some (.raise e (some c), last)
    else some (.raise e none, after)
  | "assert" => do
    let (es, comma, last) ← commaItems ctx (some id) (expr ctx) (rest.length + 1) rest
    if comma && es.length < 2 then none
    else
      match Cursor.continuations rest ++ es with
      | t :: m :: _ => some (.assert t (some m), last)
      | [t] => some (.assert t none, last)
      | [] => none
  | "import" =>
    (commaItems ctx none (importName ctx) (rest.length + 1) rest).map fun (ns, _, last) =>
      (.importNames ns, last)
  | "from" => fromStmt ctx start
  | "global" => (declaration ctx rest).map fun (ns, last) => (.globals ns, last)
  | "nonlocal" => (declaration ctx rest).map fun (ns, last) => (.nonlocals ns, last)
  | _ => none

/-- The statement form of printing, kept as written. -/
def printStmt (ctx : Context) : Reader Stmt := fun start => do
  let rest := Cursor.advance start
  let kept (last : Cursor) : Stmt × Cursor := (verbatimStmt "print_statement" start last, last)
  if Cursor.ahead ctx rest == ">>" then
    let (_, after) ← expr ctx (Cursor.advance rest)
    if Cursor.ahead ctx after == "," then
      let more := Cursor.advance after
      if lineIsOver more then some (kept more)
      else
        let (_, _, last) ← commaItems ctx none (expr ctx) (more.length + 1) more
        some (kept last)
    else some (kept after)
  else
    if lineIsOver rest then none
    else
      let (_, _, last) ← commaItems ctx none (expr ctx) (rest.length + 1) rest
      some (kept last)

/-- The statement form of executing a text, kept as written. -/
def execStmt (ctx : Context) : Reader Stmt := fun start => do
  let rest := Cursor.advance start
  let t := Cursor.next rest
  if lineIsOver rest then none
  else if t.kind == .string || t.isIdentifier then
    let after := Cursor.advance rest
    let last ←
      if Cursor.ahead ctx after == "in" then
        (commaItems ctx none (expr ctx) (after.length + 1) (Cursor.advance after)).map (·.2.2)
      else some after
    some (verbatimStmt "exec_statement" start last, last)
  else none

/-- The definition of a type alias, kept as written. -/
def typeStmt (ctx : Context) : Reader Stmt := fun start => do
  let rest := Cursor.advance start
  if lineIsOver rest then none
  else
    let (_, after) ← typeNote expr ctx rest
    let after ← Cursor.expect? ctx "=" after
    let (_, last) ← typeNote expr ctx after
    some (verbatimStmt "type_alias_statement" start last, last)

/-- One simple statement. -/
def simpleStmt (ctx : Context) : Reader Stmt := fun ts =>
  let t := Cursor.next ts
  let after := Cursor.advance ts
  let plain : Unit → Option (Stmt × Cursor) := fun _ => complete? (expressionStmt expr ctx ts)
  if t.kind != .word then plain ()
  else if keywords.contains t.text then
    match complete? (keywordStmt expr ctx t.text ts) with
    | some r => some r
    | none => plain ()
  else
    match t.text with
    | "print" =>
      let printed : Unit → Option (Stmt × Cursor) := fun _ => complete? (printStmt expr ctx ts)
      if Cursor.ahead ctx after == ">>" then (printed ()).or (plain ())
      else
        match plain () with
        | some r => some r
        | none => printed ()
    | "exec" =>
      match plain () with
      | some r => some r
      | none => complete? (execStmt expr ctx ts)
    | "type" =>
      match complete? (typeStmt expr ctx ts) with
      | some r => some r
      | none => plain ()
    | _ => plain ()

/-- The simple statements of a line, divided by semicolons. -/
def simpleStmts (indent : Nat) : Nat → Reader Block
  | 0, _ => none
  | fuel + 1, ts => do
    let ctx : Context := { indent, breaks := .ends }
    let (s, rest) ← simpleStmt expr ctx ts
    if (Cursor.next rest).line.isSome then some ([s], lineRest rest)
    else
      let after := Cursor.advance rest
      if (Cursor.next after).line.isSome then some ([s], lineRest after)
      else
        let (ss, last) ← simpleStmts indent fuel (Cursor.settle after)
        some (s :: ss, last)

end Simple

/-- A reader of the block of lines that starts at a position, with the given indentation. -/
abbrev BlockReader := Nat → Reader Block

section Compound

variable (expr : ExprReader) (block : BlockReader)

/-- The block after a colon: the rest of the line, deeper indented lines, or nothing. -/
def suite (indent : Nat) : Reader Block := fun ts =>
  let t := Cursor.next ts
  match t.line with
  | some i => if indent < i then block i ts else some ([], lineRest ts)
  | none => simpleStmts expr indent (ts.length + 1) ts

/-- A colon and the block after it. -/
def colonSuite (indent : Nat) : Reader Block := fun ts => do
  let rest ← Cursor.expect? { indent, breaks := .passes } ":" ts
  suite expr block indent rest

/-- Whether a clause of the current statement starts here with the given word. -/
def clauseAhead (indent : Nat) (word : String) (ts : Cursor) : Bool :=
  let t := Cursor.next ts
  t.kind == .word && t.text == word && t.line.all (indent ≤ ·)

/-- An `else` clause, if there is one. -/
def elseClause (indent : Nat) (word : String) : Reader Block := fun ts =>
  if clauseAhead indent word ts then colonSuite expr block indent (Cursor.advance ts)
  else some ([], ts)

/-- The context of the head of a compound statement. -/
def headContext (indent : Nat) : Context := { indent, breaks := .passes }

/-- A conditional from its keyword on, with its further branches. -/
def ifStmt (indent : Nat) : Nat → Reader Stmt
  | 0, _ => none
  | fuel + 1, ts => do
    let (t, rest) ← expr (headContext indent) (Cursor.advance ts)
    let (body, rest) ← colonSuite expr block indent rest
    if clauseAhead indent "elif" rest then
      let (s, last) ← ifStmt indent fuel (Cursor.skip rest)
      some (.cond t body [s], last)
    else
      let (orelse, last) ← elseClause expr block indent "else" rest
      some (.cond t body orelse, last)

/-- A `for` loop from its keyword on. -/
def forStmt (indent : Nat) : Reader Stmt := fun ts => do
  let ctx := headContext indent
  let (t, rest) ← targetList expr ctx (Cursor.advance ts)
  let rest ← Cursor.expect? ctx "in" rest
  let (i, rest) ← expressions expr ctx rest
  let (body, rest) ← colonSuite expr block indent rest
  let (orelse, last) ← elseClause expr block indent "else" rest
  some (.forLoop t i body orelse, last)

/-- A `while` loop from its keyword on. -/
def whileStmt (indent : Nat) : Reader Stmt := fun ts => do
  let (t, rest) ← expr (headContext indent) (Cursor.advance ts)
  let (body, rest) ← colonSuite expr block indent rest
  let (orelse, last) ← elseClause expr block indent "else" rest
  some (.whileLoop t body orelse, last)

/-- An exception handler from its keyword on. -/
def handler (indent : Nat) : Reader Handler := fun ts => do
  let ctx : Context := { headContext indent with aliasing := false }
  let rest := Cursor.advance ts
  let rest := if Cursor.ahead ctx rest == "*" then Cursor.advance rest else rest
  let (type, rest) ←
    if Cursor.ahead ctx rest == ":" then some (none, rest)
    else (expr ctx rest).map fun (e, rest) => (some e, rest)
  let s := Cursor.ahead ctx rest
  let (name, rest) ←
    if type.isSome && (s == "as" || s == ",") then do
      let start ← Cursor.operand? ctx (Cursor.advance rest)
      let (_, rest) ← expr ctx start
      some (some (Cursor.textUpTo start rest), rest)
    else some (none, rest)
  let (body, last) ← colonSuite expr block indent rest
  some (⟨type, name, body⟩, last)

/-- The handlers of a `try` statement. -/
def handlers (indent : Nat) : Nat → Reader (List Handler)
  | 0, _ => none
  | fuel + 1, ts =>
    if clauseAhead indent "except" ts then do
      let (h, rest) ← handler expr block indent (Cursor.skip ts)
      let (hs, last) ← handlers indent fuel rest
      some (h :: hs, last)
    else some ([], ts)

/-- A `try` statement from its keyword on. -/
def tryStmt (indent : Nat) : Reader Stmt := fun ts => do
  let (body, rest) ← colonSuite expr block indent (Cursor.advance ts)
  let (hs, rest) ← handlers expr block indent (rest.length + 1) rest
  let (orelse, rest) ← elseClause expr block indent "else" rest
  let (final, last) ← elseClause expr block indent "finally" rest
  some (.tryBlock body hs orelse final, last)

/-- A `with` statement from its keyword on: the position after it. -/
def withStmt (indent : Nat) : Check := fun ts => do
  let ctx := headContext indent
  let (_, _, rest) ← commaItems ctx none (expr ctx) (ts.length + 1) (Cursor.advance ts)
  let (_, last) ← colonSuite expr block indent rest
  some last

/-- Type parameters in square brackets, if there are any: the position after them. -/
def typeParams (ctx : Context) : Check := fun ts =>
  if Cursor.ahead ctx ts == "[" then
    let inner := ctx.inBrackets
    let item : Check := fun ts => do
      let (_, rest) ← typeNote expr inner ts
      if Cursor.ahead inner rest == ":" then
        (typeNote expr inner (Cursor.advance rest)).map (·.2)
      else some rest
    checkItems "]" item (Cursor.advance ts)
  else some ts

/-- A function definition from the keyword `def` on. -/
def function (indent : Nat) (decorators : List Expr) (isAsync : Bool) : Reader Function :=
  fun ts => do
    let ctx := headContext indent
    let (name, rest) ← identifier ctx (Cursor.advance ts)
    let rest ← typeParams expr ctx rest
    let rest ← Cursor.expect? ctx "(" rest
    let inner := ctx.inBrackets
    let extra : Expr → Param := fun
      | .verbatim t => { name := t }
      | _ => { name := "" }
    let (params, rest) ←
      bracketItems ")" (some extra) (parameter expr inner true) (ts.length + 1) [] rest
    let (returns, rest) ←
      if Cursor.ahead ctx rest == "->" then
        (typeNote expr ctx (Cursor.advance rest)).map fun (a, rest) => (some a, rest)
      else some (none, rest)
    let (body, last) ← colonSuite expr block indent rest
    some (⟨name, params, body, decorators, returns, isAsync⟩, last)

/-- A class definition from its keyword on: its name and the position after it. -/
def classDef (indent : Nat) : Reader String := fun ts => do
  let ctx := headContext indent
  let (name, rest) ← identifier ctx (Cursor.advance ts)
  let rest ← typeParams expr ctx rest
  let rest ←
    if Cursor.ahead ctx rest == "(" then
      (arguments expr ctx (primary expr (rest.length + 1)) (Cursor.skip rest)).map (·.2)
    else some rest
  let (_, last) ← colonSuite expr block indent rest
  some (name, last)

/-- The `case` clauses of a match statement whose block has the given indentation. -/
def caseClauses (indent : Nat) : Nat → Check
  | 0, _ => none
  | fuel + 1, ts =>
    let t := Cursor.next ts
    let commentLow := match ts.find? (·.kind == .comment) with
      | some c => if c.index < t.index then c.line.all (· < indent) else true
      | none => true
    if t.line.any (· < indent) && commentLow then some ts
    else if (ts.headD default).isTrivia then caseClauses indent fuel ts.tail
    else if t.text == "case" && t.kind == .word then do
      let ctx := headContext indent
      let after := Cursor.advance ts
      let item : Reader Unit := fun ts =>
        (casePattern expr ctx (ts.length + 1) ts).map ((), ·)
      let (_, _, rest) ← commaItems ctx none item (ts.length + 1) after
      let rest ←
        if Cursor.ahead ctx rest == "if" then (expr ctx (Cursor.advance rest)).map (·.2)
        else some rest
      let (_, rest) ← colonSuite expr block indent rest
      caseClauses indent fuel rest
    else none

/-- A match statement from its keyword on: the position after it. -/
def matchStmt (indent : Nat) : Check := fun ts => do
  let ctx := headContext indent
  let (_, _, rest) ← commaItems ctx none (expr ctx) (ts.length + 1) (Cursor.advance ts)
  let rest ← Cursor.expect? ctx ":" rest
  match (Cursor.next rest).line with
  | some i =>
    if indent < i then caseClauses expr block i (rest.length + 1) rest else some (lineRest rest)
  | none => none

/-- The decorators before a definition. -/
def decorators (indent : Nat) : Nat → Reader (List Expr)
  | 0, _ => none
  | fuel + 1, ts =>
    let t := Cursor.next ts
    if t.text == "@" && t.line.all (indent ≤ ·) then do
      let ctx : Context := { indent, breaks := .ends }
      let after := Cursor.advance (Cursor.settle ts)
      let (e, rest) ← expr ctx after
      if (Cursor.next rest).line.isNone then none
      else
        let (es, last) ← decorators indent fuel rest
        some ((Cursor.continuations after).headD e :: es, last)
    else some ([], ts)

/-- A definition after its decorators. `start` is where they begin. -/
def definition (indent : Nat) (start : Cursor) (decorators : List Expr) : Reader Stmt := fun ts =>
  let t := Cursor.next ts
  let after := Cursor.advance ts
  match t.text with
  | "def" =>
    (function expr block indent decorators false ts).map fun (f, last) => (.define f, last)
  | "async" =>
    if (Cursor.next after).text == "def" then
      (function expr block indent decorators true (Cursor.skip after)).map fun (f, last) =>
        (.define f, last)
    else none
  | "class" =>
    (classDef expr block indent ts).map fun (name, last) =>
      (verbatimStmt Stmt.classKind start last [name], last)
  | _ => none

/-- One statement, or the simple statements of one line. -/
def statement (indent : Nat) : Reader Block := fun ts =>
  let ts := Cursor.settle ts
  let t := Cursor.next ts
  let one (r : Option (Stmt × Cursor)) : Option (Block × Cursor) :=
    r.map fun (s, rest) => ([s], rest)
  let kept (kind : String) (r : Option Cursor) : Option (Block × Cursor) :=
    r.map fun rest => ([verbatimStmt kind ts rest], rest)
  let simple : Unit → Option (Block × Cursor) := fun _ =>
    simpleStmts expr indent (ts.length + 1) ts
  if t.kind == .op && t.text == "@" then
    one do
      let (ds, rest) ← decorators expr indent (ts.length + 1) ts
      let t := Cursor.next rest
      if t.line.any (· < indent) then none
      else definition expr block indent ts ds (Cursor.settle rest)
  else if t.kind != .word then simple ()
  else
    match t.text with
    | "if" => one (ifStmt expr block indent (ts.length + 1) ts)
    | "for" => one (forStmt expr block indent ts)
    | "while" => one (whileStmt expr block indent ts)
    | "try" => one (tryStmt expr block indent ts)
    | "with" => kept "with_statement" (withStmt expr block indent ts)
    | "def" | "class" => one (definition expr block indent ts [] ts)
    | "async" =>
      let after := Cursor.skip (Cursor.advance ts)
      match (Cursor.next after).text with
      | "def" => one (definition expr block indent ts [] ts)
      | "for" => kept "for_statement" ((forStmt expr block indent after).map (·.2))
      | "with" => kept "with_statement" (withStmt expr block indent after)
      | _ => simple ()
    | "match" =>
      match simple () with
      | some r => some r
      | none => kept "match_statement" (matchStmt expr block indent ts)
    | _ => simple ()

/-- The statements of a block with the given indentation. -/
def blockFrom (indent : Nat) : Nat → Reader Block
  | 0, _ => none
  | fuel + 1, ts =>
    let t := Cursor.next ts
    -- Comments stay in the block while they are indented as far as it is.
    let commentLow := match (ts.takeWhile Token.isTrivia).find? (·.kind == .comment) with
      | some c => c.line.all (· < indent)
      | none => true
    if t.line.any (· < indent) && commentLow then some ([], ts)
    else if (ts.headD default).isTrivia then blockFrom indent fuel ts.tail
    else if t.kind == .finish then some ([], ts)
    else do
      let (ss, rest) ← statement expr block indent ts
      let (more, last) ← blockFrom indent fuel rest
      some (ss ++ more, last)

end Compound

/-- Read a block nested at most `depth` levels deep. -/
def blockOf (expr : ExprReader) : Nat → BlockReader
  | 0, _, _ => none
  | depth + 1, indent, ts => blockFrom expr (blockOf expr depth) indent (2 * ts.length + 2) ts

end Concord.Source

namespace Concord

/-- Read a source text; `none` if any part of it breaks the grammar. -/
def Module.parse? (source : String) : Option Module :=
  let cs := source.toList
  let tokens := Source.tokenize cs
  let depth := cs.length + 2
  match Source.blockOf (Source.expression depth) depth 0 tokens with
  | some (body, rest) =>
    if (Source.Cursor.next rest).kind == .finish then some ⟨body⟩ else none
  | none => none

end Concord
