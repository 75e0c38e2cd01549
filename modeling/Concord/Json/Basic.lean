import Concord.Tree.Literal

/-!
# Documents

Structured documents in the JSON format. The fields of an object keep their order, and an integer
stays apart from a number with a fraction. `Json.text` writes a document without blanks, which is
the form that is hashed and stored.
-/

namespace Concord

/-- A document. -/
inductive Json where
  | null
  | bool (value : Bool)
  | int (value : Int)
  | float (value : Float)
  | str (value : String)
  | arr (items : List Json)
  | obj (fields : List (String × Json))
deriving Repr, Inhabited

namespace Json

/-- Write one character of a string. -/
def escapeChar (c : Char) : List Char :=
  if c = '"' then ['\\', '"']
  else if c = '\\' then ['\\', '\\']
  else if c = '\x08' then ['\\', 'b']
  else if c = '\x0c' then ['\\', 'f']
  else if c = '\n' then ['\\', 'n']
  else if c = '\r' then ['\\', 'r']
  else if c = '\t' then ['\\', 't']
  else if c.toNat < 0x20 then '\\' :: 'u' :: Escape.hex 4 c.toNat
  else [c]

/-- A string in quotes. -/
def quote (s : String) : String :=
  String.ofList ('"' :: s.toList.flatMap escapeChar ++ ['"'])

mutual

/-- The text of a document, without blanks. -/
def text : Json → String
  | .null => "null"
  | .bool true => "true"
  | .bool false => "false"
  | .int v => toString v
  | .float v => if v.isFinite then Literal.writeFloat v else "null"
  | .str s => quote s
  | .arr items => "[" ++ ",".intercalate (textItems items) ++ "]"
  | .obj fields => "\x7b" ++ ",".intercalate (textFields fields) ++ "\x7d"

/-- The texts of the items of an array. -/
def textItems : List Json → List String
  | [] => []
  | j :: js => text j :: textItems js

/-- The texts of the fields of an object. -/
def textFields : List (String × Json) → List String
  | [] => []
  | (k, j) :: fs => (quote k ++ ":" ++ text j) :: textFields fs

end

mutual

/-- Whether two documents are the same, order of fields included. -/
def same : Json → Json → Bool
  | .null, j => match j with | .null => true | _ => false
  | .bool a, j => match j with | .bool b => a == b | _ => false
  | .int a, j => match j with | .int b => a == b | _ => false
  | .float a, j => match j with | .float b => decide (a = b) | _ => false
  | .str a, j => match j with | .str b => a == b | _ => false
  | .arr a, j => match j with | .arr b => sameItems a b | _ => false
  | .obj a, j => match j with | .obj b => sameFields a b | _ => false

/-- Pointwise `same` on the items of arrays. -/
def sameItems : List Json → List Json → Bool
  | [], [] => true
  | a :: as, b :: bs => same a b && sameItems as bs
  | _, _ => false

/-- Pointwise `same` on the fields of objects. -/
def sameFields : List (String × Json) → List (String × Json) → Bool
  | [], [] => true
  | (k, a) :: as, (l, b) :: bs => k == l && (same a b && sameFields as bs)
  | _, _ => false

end

mutual

theorem same_iff : (a b : Json) → (same a b = true ↔ a = b)
  | .null, j => by cases j <;> simp [same]
  | .bool _, j => by cases j <;> simp [same]
  | .int _, j => by cases j <;> simp [same]
  | .float _, j => by cases j <;> simp [same]
  | .str _, j => by cases j <;> simp [same]
  | .arr a, j => by cases j <;> simp [same, sameItems_iff a]
  | .obj a, j => by cases j <;> simp [same, sameFields_iff a]

theorem sameItems_iff : (a b : List Json) → (sameItems a b = true ↔ a = b)
  | [], b => by cases b <;> simp [sameItems]
  | a :: as, b => by cases b <;> simp [sameItems, same_iff a, sameItems_iff as]

theorem sameFields_iff : (a b : List (String × Json)) → (sameFields a b = true ↔ a = b)
  | [], b => by cases b <;> simp [sameFields]
  | (k, a) :: as, b => by
    cases b <;> simp [sameFields, same_iff a, sameFields_iff as, Prod.ext_iff, and_assoc]

end

instance : DecidableEq Json := fun a b => decidable_of_iff _ (same_iff a b)

/-- The field of an object with that name; of several, the last. -/
def field? (j : Json) (name : String) : Option Json :=
  match j with
  | .obj fields => fields.reverse.lookup name
  | _ => none

/-- The field of an object with that name, unless it is missing or null. -/
def given? (j : Json) (name : String) : Option Json :=
  (j.field? name).filter fun
    | .null => false
    | _ => true

/-- A list of texts as an array of strings. -/
def strs (texts : List String) : Json := .arr (texts.map .str)

/-- An optional text; a missing one is null. -/
def strOrNull : Option String → Json
  | some s => .str s
  | none => .null

/-- A count. -/
def nat (n : Nat) : Json := .int n

end Json

end Concord
