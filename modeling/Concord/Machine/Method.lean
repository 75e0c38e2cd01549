import Concord.Machine.Native
import Concord.Text.Case

/-!
# Methods of texts and containers

What a method does with its receiver and its arguments. A method call costs one unit of fuel. Only
sorting a list takes arguments by name.
-/

namespace Concord.Machine

/-- The longest text, in bytes, that replacing may build. -/
def maxTextBytes : Nat := 1000000

/-! ### Texts -/

/-- The text passed at a position. -/
def textAt (method : String) (args : List Value) (i : Nat) : Except Signal String :=
  match args[i]? with
  | none => .error (.error .type s!"{method}() missing argument")
  | some v => textArg method v

/-- The characters to strip: those of the first argument, or blanks. -/
def stripped (method : String) (args : List Value) : Except Signal (Char → Bool) :=
  match args with
  | [] | .none :: _ => .ok Text.isBlank
  | v :: _ => do
    let chars := (← textArg method v).toList
    return fun c => chars.contains c

/-- Drop characters at the front. -/
def stripStart (p : Char → Bool) (cs : List Char) : List Char := cs.dropWhile p

/-- Drop characters at the end. -/
def stripEnd (p : Char → Bool) (cs : List Char) : List Char := (cs.reverse.dropWhile p).reverse

/-- The pieces of a text between separators, or its words if there is no separator. -/
def splitText (cs : List Char) (args : List Value) : Except Signal (List (List Char)) :=
  match args with
  | [] | .none :: _ => .ok (Text.words cs)
  | sep :: _ => do
    let sep ← textArg "split" sep
    if sep.isEmpty then throw (.error .value "empty separator")
    return Text.pieces sep.toList cs

/-- The texts among items that all have to be texts. -/
def textItems (items : List Value) : Except Signal (List String) :=
  items.mapM fun
    | .str s => .ok s
    | other => .error (.error .type
        s!"sequence item: expected str instance, {other.typeName} found")

/-- Join texts with a separator. The bytes of the result cost one unit of fuel for every 64. -/
def joinText (separator : String) (items : Value) : Exec Value := do
  let pieces ← textItems (← iterate items)
  let joined := separator.intercalate pieces
  Exec.charge (joined.utf8ByteSize / 64)
  return .str joined

/-- Whether one of the texts passed stands at an end of the receiver. -/
def standsAt (method : String) (holds : List Char → Bool) (args : List Value) : Exec Value := do
  match args with
  | .tuple r :: _ =>
    let options ← (← Exec.ofHeap (·.tuple r)).mapM fun v => Exec.ofExcept (textArg method v)
    return .bool (options.any fun s => holds s.toList)
  | _ => return .bool (holds (← textAt method args 0).toList)

/-- Put a text in all places of another. -/
def replaceText (cs : List Char) (args : List Value) : Except Signal Value := do
  arity "replace" args 2 2
  let old ← textAt "replace" args 0
  let new ← textAt "replace" args 1
  let result := String.ofList (Text.replace old.toList new.toList cs)
  if maxTextBytes < result.utf8ByteSize then throw (.unsupported "oversized string")
  return .str result

/-- A text is of a class if it has a character and all of them are. -/
def ofClass (p : Char → Bool) (cs : List Char) : Value := .bool (!cs.isEmpty && cs.all p)

/-- Methods of texts. -/
def textMethod (s name : String) (args : List Value) : Exec Value := do
  let cs := s.toList
  let text (cs : List Char) : Value := .str (String.ofList cs)
  match name with
  | "upper" => return text (Text.upperText cs)
  | "lower" => return text (Text.lowerText cs)
  | "strip" =>
    let p ← stripped name args
    return text (stripEnd p (stripStart p cs))
  | "lstrip" => return text (stripStart (← stripped name args) cs)
  | "rstrip" => return text (stripEnd (← stripped name args) cs)
  | "split" => Exec.newList ((← splitText cs args).map text)
  | "join" =>
    arity name args 1 1
    joinText s (argAt args 0)
  | "startswith" => standsAt name (Text.startsWith · cs) args
  | "endswith" => standsAt name (Text.endsWith · cs) args
  | "replace" => replaceText cs args
  | "find" =>
    arity name args 1 1
    let part ← textAt name args 0
    return .int ((Text.find? part.toList cs).elim (-1) fun n => (n : Int))
  | "count" =>
    arity name args 1 1
    let part ← textAt name args 0
    return .int (Text.count part.toList cs)
  | "isdigit" => return ofClass Char.isDigit cs
  | "isalpha" => return ofClass Text.isLetter cs
  | "isalnum" => return ofClass (fun c => Text.isLetter c || Text.isNumeric c) cs
  | "isspace" => return ofClass Text.isBlank cs
  | "isupper" => return ofClass Text.isUpper (cs.filter Text.isLetter)
  | "islower" => return ofClass Text.isLower (cs.filter Text.isLetter)
  | "capitalize" => return text (Text.capitalize cs)
  | "title" => return text (Text.titleText cs)
  | "format" => throw (.unsupported "str.format")
  | _ => throw (.noAttribute "str" name)

/-! ### Lists and tuples -/

/-- The position of the first item equal to a value. -/
def Heap.indexOf? (h : Heap) (items : List Value) (v : Value) : Option Nat :=
  items.findIdx? (h.equal · v)

/-- Questions to a list or a tuple. -/
def sequenceQuery (typeName : String) (items : List Value) (name : String) (args : List Value) :
    Exec Value := do
  match name with
  | "index" =>
    arity name args 1 1
    match ← Exec.ofHeap (·.indexOf? items (argAt args 0)) with
    | some i => return .int i
    | none => throw (.error .value s!"{typeName}.index(x): x not in {typeName}")
  | "count" =>
    arity name args 1 1
    return .int (← Exec.ofHeap fun h => (items.filter (h.equal · (argAt args 0))).length)
  | _ => throw (.noAttribute typeName name)

/-- Sort a list in place. -/
def sortList (apply : Apply) (r : Ref) (keywords : Keywords) : Exec Value := do
  let (key, keywords) := takeKeyword "key" keywords
  let (downwards, keywords) := takeKeyword "reverse" keywords
  let downwards ← match downwards with
    | some v => Exec.truthy v
    | none => pure false
  rejectKeywords "sort" keywords
  let pairs ← withKeys apply (keyFunction key) (← Exec.ofHeap (·.list r))
  Exec.setList r (← sortValues pairs downwards)
  return .none

/-- The position before which a new item goes; a negative one counts from the end. -/
def insertPosition (place : Int) (len : Nat) : Nat :=
  (if place < 0 then max (place + len) 0 else min place len).toNat

/-- Methods of lists other than sorting. -/
def listMethod (r : Ref) (name : String) (args : List Value) : Exec Value := do
  let items ← Exec.ofHeap (·.list r)
  let count (least most : Nat) : Exec Unit := Exec.ofExcept (arity name args least most)
  match name with
  | "append" =>
    count 1 1
    Exec.setList r (items ++ args)
    return .none
  | "extend" =>
    count 1 1
    let extra ← iterate (argAt args 0)
    Exec.setList r (items ++ extra)
    return .none
  | "insert" =>
    count 2 2
    let place := insertPosition (← intArg (argAt args 0)) items.length
    Exec.setList r (items.insertIdx place (argAt args 1))
    return .none
  | "pop" =>
    count 0 1
    if items.isEmpty then throw (.error .index "pop from empty list")
    let place ← match args with
      | [] => pure (items.length - 1)
      | i :: _ => Exec.ofExcept (position i items.length "pop index out of range")
    Exec.setList r (items.eraseIdx place)
    return argAt items place
  | "remove" =>
    count 1 1
    match ← Exec.ofHeap (·.indexOf? items (argAt args 0)) with
    | some i =>
      Exec.setList r (items.eraseIdx i)
      return .none
    | none => throw (.error .value "list.remove(x): x not in list")
  | "clear" =>
    Exec.setList r []
    return .none
  | "reverse" =>
    Exec.setList r items.reverse
    return .none
  | "copy" => Exec.newList items
  | _ => sequenceQuery "list" items name args

/-! ### Dictionaries and sets -/

/-- Methods of dictionaries. -/
def dictMethod (r : Ref) (name : String) (args : List Value) : Exec Value := do
  let entries ← Exec.ofHeap (·.dict r)
  let count (least most : Nat) : Exec Unit := Exec.ofExcept (arity name args least most)
  let key := argAt args 0
  match name with
  | "get" =>
    count 1 2
    return (← Exec.ofHeap (·.valueOf? entries key)).getD (argAt args 1)
  | "keys" => Exec.newList (entries.map (·.1))
  | "values" => Exec.newList (entries.map (·.2))
  | "items" => Exec.newList (← entries.mapM fun (k, v) => Exec.newTuple [k, v])
  | "setdefault" =>
    count 1 2
    match ← Exec.ofHeap (·.valueOf? entries key) with
    | some v => return v
    | none =>
      Exec.setDict r (← insertEntry entries key (argAt args 1))
      return argAt args 1
  | "pop" =>
    count 1 2
    match ← Exec.ofHeap fun h => entries.findIdx? fun e => h.equal e.1 key with
    | some i =>
      Exec.setDict r (entries.eraseIdx i)
      return argAt (entries.map (·.2)) i
    | none =>
      match args with
      | _ :: default :: _ => return default
      | _ => throw (.error .key (← Exec.ofHeap (·.repr key)))
  | "update" =>
    count 1 1
    match key with
    | .dict q =>
      let additions ← Exec.ofHeap (·.dict q)
      for (k, v) in additions do
        Exec.setDict r (← insertEntry (← Exec.ofHeap (·.dict r)) k v)
      return .none
    | _ => throw (.unsupported "dict.update with non-dict")
  | "copy" => Exec.newDict entries
  | "clear" =>
    Exec.setDict r []
    return .none
  | _ => throw (.noAttribute "dict" name)

/-- Methods of sets. -/
def setMethod (r : Ref) (name : String) (args : List Value) : Exec Value := do
  let members ← Exec.ofHeap (·.set r)
  let item := argAt args 0
  let checkedPlace : Exec (Option Nat) := do
    arity name args 1 1
    if ← Exec.ofHeap (·.hashable item) then Exec.ofHeap (·.indexOf? members item)
    else throw (.unhashable item)
  match name with
  | "add" =>
    if (← checkedPlace).isNone then Exec.setSet r (members ++ [item])
    return .none
  | "discard" =>
    match ← checkedPlace with
    | some i => Exec.setSet r (members.eraseIdx i)
    | none => pure ()
    return .none
  | "remove" =>
    match ← checkedPlace with
    | some i => Exec.setSet r (members.eraseIdx i)
    | none => throw (.error .key (← Exec.ofHeap (·.repr item)))
    return .none
  | "copy" => Exec.newSet members
  | _ => throw (.noAttribute "set" name)

/-- A call of a method, which costs one unit of fuel. -/
def callMethod (apply : Apply) (receiver : Value) (name : String) (args : List Value)
    (keywords : Keywords) : Exec Value := do
  Exec.charge 1
  match receiver with
  | .list r =>
    if name == "sort" then sortList apply r keywords
    else
      rejectKeywords name keywords
      listMethod r name args
  | .str s =>
    rejectKeywords name keywords
    textMethod s name args
  | .dict r =>
    rejectKeywords name keywords
    dictMethod r name args
  | .set r =>
    rejectKeywords name keywords
    setMethod r name args
  | .tuple r =>
    rejectKeywords name keywords
    sequenceQuery "tuple" (← Exec.ofHeap (·.tuple r)) name args
  | other => throw (.noAttribute other.typeName name)

end Concord.Machine
