import MarkdownOutlets.Problem.Failure

/-! # Mismatches

  A document that was checked holds only values of the right kinds. One that
  was not, and a cache, may hold any value, and then an operation may meet a
  value of a kind that it is not defined for, or the wrong number of values.
  Such a mismatch is no problem of the document: it ends whatever is going
  on.
-/

namespace MarkdownOutlets

/-- Why an operation is not defined for a value. Values are named by their
    kinds. -/
inductive Mismatch
  /-- The value has no such attribute. -/
  | noAttribute (kindName member : Text)
  /-- A text is needed for a search. -/
  | notSearchable (kindName : Text)
  /-- A text is needed to put it into another text. -/
  | notText (kindName : Text)
  /-- A text is needed for a path. -/
  | notPath (kindName : Text)
  /-- The two values are not ordered. -/
  | notOrdered (sign left right : Text)
  /-- The value holds no keys. -/
  | notContainer (kindName : Text)
  /-- A text has no entries by name. -/
  | textEntry
  /-- A list has no entries by name. -/
  | listEntry
  /-- No entry of the value can be changed. -/
  | notChangeable (kindName : Text)
  /-- A value of this kind is no slot. -/
  | notSlot (kindName : Text)
  /-- An argument is missing that is needed to make something of this
      class. -/
  | missingArgument (cls argument : Text)
  /-- An argument is given that says nothing about things of this class. -/
  | unknownArgument (cls argument : Text)
  deriving DecidableEq, Repr

namespace Mismatch

/-- The wording of a mismatch. -/
def message : Mismatch → Text
  | .noAttribute kindName member =>
    '\'' :: kindName ++ "' object has no attribute ".toList ++ Text.quoted member
  | .notSearchable kindName =>
    "expected string or bytes-like object, got ".toList ++ Text.quoted kindName
  | .notText kindName =>
    "can only concatenate str (not \"".toList ++ kindName ++ "\") to str".toList
  | .notPath kindName => "expected str, bytes or os.PathLike object, not ".toList ++ kindName
  | .notOrdered sign left right =>
    '\'' :: sign ++ "' not supported between instances of ".toList ++ Text.quoted left
      ++ " and ".toList ++ Text.quoted right
  | .notContainer kindName =>
    "argument of type ".toList ++ Text.quoted kindName ++ " is not iterable".toList
  | .textEntry => "string indices must be integers, not 'str'".toList
  | .listEntry => "list indices must be integers or slices, not str".toList
  | .notChangeable kindName =>
    '\'' :: kindName ++ "' object does not support item assignment".toList
  | .notSlot kindName => "Invalid slot value type: ".toList ++ kindName
  | .missingArgument cls argument =>
    cls ++ ".__init__() missing 1 required positional argument: ".toList ++ Text.quoted argument
  | .unknownArgument cls argument =>
    cls ++ ".__init__() got an unexpected keyword argument ".toList ++ Text.quoted argument

/-- The mismatch as callers see it who look for malformed input. Only what is
    no slot is reported to them. -/
def failure? : Mismatch → Option Failure
  | .notSlot kindName => some (.make .validation (notSlot kindName).message [] none)
  | _ => none

/-- The mismatch is the lack of an attribute. -/
def isMissingAttribute : Mismatch → Bool
  | .noAttribute .. => true
  | _ => false

end Mismatch

end MarkdownOutlets
