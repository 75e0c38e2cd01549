import Concord.Number.Decimal
import Concord.Text.Blank

/-!
# Moments in time

Which texts name a moment, as RFC 3339 writes it: a date, a time of day with an optional fraction, and
an offset from universal time. Blanks before a number or an offset do not matter, leading zeros may be
missing, and a blank may stand for the letter between date and time.
-/

namespace Concord.Timestamp

/-- Read a number of one to `width` digits after blanks. -/
def number? (width : Nat) (cs : List Char) : Option (Nat × List Char) :=
  let cs := Text.trimStart cs
  let digits := (cs.takeWhile Char.isDigit).take width
  if digits.isEmpty then none else some (Decimal.digitsValue digits, cs.drop digits.length)

/-- Read a character, after blanks. -/
def literal? (c : Char) (cs : List Char) : Option (List Char) :=
  match Text.trimStart cs with
  | d :: rest => if c = d then some rest else none
  | [] => none

/-- Whether a year has a 29th of February. -/
def isLeap (year : Nat) : Bool := year % 4 == 0 && (year % 100 != 0 || year % 400 == 0)

/-- The days of a month. -/
def daysOf (year month : Nat) : Nat :=
  if month == 2 then if isLeap year then 29 else 28
  else if [4, 6, 9, 11].contains month then 30
  else 31

/-- Read a date. -/
def date? (cs : List Char) : Option (List Char) := do
  let (year, cs) ← number? 4 cs
  let (month, cs) ← number? 2 (← literal? '-' cs)
  let (day, cs) ← number? 2 (← literal? '-' cs)
  if 1 ≤ month ∧ month ≤ 12 ∧ 1 ≤ day ∧ day ≤ daysOf year month then some cs else none

/-- Read a time of day. -/
def time? (cs : List Char) : Option (List Char) := do
  let (hour, cs) ← number? 2 cs
  let (minute, cs) ← number? 2 (← literal? ':' cs)
  let (second, cs) ← number? 2 (← literal? ':' cs)
  if 24 ≤ hour ∨ 60 ≤ minute ∨ 61 ≤ second then none
  match cs with
  | '.' :: rest =>
    if (rest.takeWhile Char.isDigit).isEmpty then none else some (rest.dropWhile Char.isDigit)
  | cs => some cs

/-- Read an offset after its sign: two digits each for hours and minutes. -/
def hoursMinutes? (cs : List Char) : Option (List Char) := do
  let h₁ :: h₂ :: cs := cs | none
  if !(h₁.isDigit && h₂.isDigit) || 24 ≤ Decimal.digitsValue [h₁, h₂] then none
  let m₁ :: m₂ :: cs := cs.dropWhile (fun c => c == ':' || Text.isBlank c) | none
  if !(m₁.isDigit && m₂.isDigit) || 60 ≤ Decimal.digitsValue [m₁, m₂] then none
  return cs

/-- Read an offset from universal time. -/
def offset? (cs : List Char) : Option (List Char) :=
  match cs with
  | 'Z' :: rest | 'z' :: rest => some rest
  | '+' :: rest | '-' :: rest => hoursMinutes? rest
  | _ => if (cs.take 3).map Char.toUpper == ['U', 'T', 'C'] then some (cs.drop 3) else none

/-- Whether a text names a moment. -/
def isValid (s : String) : Bool :=
  (do
    let cs ← date? s.toList
    let sep :: cs := cs | none
    if !(['t', 'T', ' '].contains sep) then none
    let cs ← time? cs
    let cs ← offset? (Text.trimStart cs)
    if Text.allBlank cs then some () else none).isSome

end Concord.Timestamp
