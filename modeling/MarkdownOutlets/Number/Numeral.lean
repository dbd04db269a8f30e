import MarkdownOutlets.Text.Basic

/-! # Numerals

  The natural numbers that digits denote, in a base of at most sixteen.
-/

namespace MarkdownOutlets

namespace Numeral

/-- The value of a digit; letters of either case stand for ten to
    fifteen. -/
def digit? (c : Char) : Option Nat :=
  if c.isDigit then some (c.toNat - '0'.toNat)
  else if 'a' ≤ c ∧ c ≤ 'f' then some (c.toNat - 'a'.toNat + 10)
  else if 'A' ≤ c ∧ c ≤ 'F' then some (c.toNat - 'A'.toNat + 10)
  else none

/-- The value of a digit of a base. -/
def digitOf? (base : Nat) (c : Char) : Option Nat :=
  (digit? c).filter (· < base)

/-- The number that some digits of a base denote, `none` if one of the
    characters is no digit of it. No digits denote zero. -/
def value? (base : Nat) (digits : Text) : Option Nat :=
  digits.foldlM (fun n c => (digitOf? base c).map (n * base + ·)) 0

/-- The number that some decimal digits denote. -/
def decimal (digits : Text) : Nat :=
  digits.foldl (fun n c => n * 10 + (c.toNat - '0'.toNat)) 0

end Numeral

end MarkdownOutlets
