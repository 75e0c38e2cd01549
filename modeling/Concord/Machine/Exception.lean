/-!
# Exceptions of the running program

The classes of exceptions that a program can raise and catch, and raised exceptions.
-/

namespace Concord.Machine

/-- The classes of exceptions. -/
inductive ExceptionClass where
  | arithmetic | assertion | attr | base | exception | index | key | lookup | name
  | notImplemented | overflow | recursion | runtime | stopIteration | type | value | zeroDivision
deriving Repr, DecidableEq

namespace ExceptionClass

/-- Every class, in the order of their names. -/
def all : List ExceptionClass :=
  [arithmetic, assertion, attr, base, exception, index, key, lookup, name, notImplemented,
    overflow, recursion, runtime, stopIteration, type, value, zeroDivision]

/-- The name by which programs refer to a class. -/
def label : ExceptionClass → String
  | arithmetic => "ArithmeticError"
  | assertion => "AssertionError"
  | attr => "AttributeError"
  | base => "BaseException"
  | exception => "Exception"
  | index => "IndexError"
  | key => "KeyError"
  | lookup => "LookupError"
  | name => "NameError"
  | notImplemented => "NotImplementedError"
  | overflow => "OverflowError"
  | recursion => "RecursionError"
  | runtime => "RuntimeError"
  | stopIteration => "StopIteration"
  | type => "TypeError"
  | value => "ValueError"
  | zeroDivision => "ZeroDivisionError"

/-- The class of that name. -/
def ofLabel? (s : String) : Option ExceptionClass := all.find? (·.label == s)

theorem ofLabel?_label (c : ExceptionClass) : ofLabel? c.label = some c := by
  cases c <;> decide +kernel

/-- Whether a handler for the first class catches an exception of the second. -/
def catches : ExceptionClass → ExceptionClass → Bool
  | exception, _ | base, _ => true
  | arithmetic, zeroDivision | arithmetic, overflow => true
  | lookup, index | lookup, key => true
  | c, d => c == d

theorem catches_self (c : ExceptionClass) : c.catches c = true := by cases c <;> rfl

end ExceptionClass

/-- An exception with the text of its first argument. -/
structure Exception where
  kind : ExceptionClass
  message : String
deriving Repr, DecidableEq

/-- The class, followed by the message if there is one. -/
def Exception.text (e : Exception) : String :=
  if e.message.isEmpty then e.kind.label else e.kind.label ++ ": " ++ e.message

end Concord.Machine
