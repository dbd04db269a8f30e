import MarkdownOutlets.Data.Timestamp
import MarkdownOutlets.Number.Numeral
import MarkdownOutlets.Path.Basic
import MarkdownOutlets.Text.Digit

/-! # Faults of values

  A text may have the form of a value without denoting one: a number of too
  many digits or of none, a character beyond the last one, a day that no
  calendar has, a directory of a user whom nobody knows. Such a text is not
  malformed, and nothing stands in for it. A value may also be one that no
  text denotes.
-/

namespace MarkdownOutlets

/-- Why a text in the form of a value denotes none. -/
inductive ValueFault
  /-- An integer has more decimal digits than are read. -/
  | tooManyDigits (count : Nat)
  /-- A number has no digits behind the mark of its base. -/
  | noDigits (base : Nat)
  /-- There is no character of this number. -/
  | noCharacter
  /-- The number of a character takes more than 31 bits. -/
  | wideCharacter
  /-- A place of a number to the base of sixty counts more than any binary64
      number. -/
  | placeTooHigh
  /-- The numbers of a point in time make no sense. -/
  | time (fault : TimeFault)
  /-- The number of a character is that of half a pair. Texts here consist of
      characters, so that none has it. -/
  | loneSurrogate
  /-- A path starts with a home directory that is not there. -/
  | home (fault : FilePath.HomeFault)
  /-- An integer has more decimal digits than are written. -/
  | unwritable
  deriving DecidableEq, Repr

namespace ValueFault

/-- The wording of a fault. -/
def message : ValueFault → Text
  | .tooManyDigits count =>
    "Exceeds the limit (".toList ++ Text.ofNat Text.maxDigits
      ++ " digits) for integer string conversion: value has ".toList ++ Text.ofNat count
      ++ " digits; use sys.set_int_max_str_digits() to increase the limit".toList
  | .noDigits base =>
    "invalid literal for int() with base ".toList ++ Text.ofNat base ++ ": ''".toList
  | .noCharacter => "chr() arg not in range(0x110000)".toList
  | .wideCharacter => "Python int too large to convert to C int".toList
  | .placeTooHigh => "int too large to convert to float".toList
  | .time fault => fault.message
  | .loneSurrogate => "surrogates not allowed".toList
  | .home fault => fault.message
  | .unwritable =>
    "Exceeds the limit (".toList ++ Text.ofNat Text.maxDigits
      ++ " digits) for integer string conversion; ".toList
      ++ "use sys.set_int_max_str_digits() to increase the limit".toList

/-- The fault is that a number does not fit where it is needed. -/
def isOverflow : ValueFault → Bool
  | .wideCharacter | .placeTooHigh => true
  | _ => false

end ValueFault

namespace Numeral

/-- The number that some decimal digits denote, unless they are too many. -/
def boundedDecimal (digits : Text) : Except ValueFault Nat :=
  if Text.maxDigits < digits.length then .error (.tooManyDigits digits.length)
  else .ok (decimal digits)

/-- The character of a number. -/
def character (n : Nat) : Except ValueFault Char :=
  if n < 0x110000 then
    if 0xd800 ≤ n ∧ n < 0xe000 then .error .loneSurrogate else .ok (Char.ofNat n)
  else if n < 0x80000000 then .error .noCharacter
  else .error .wideCharacter

end Numeral

end MarkdownOutlets
