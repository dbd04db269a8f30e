import MarkdownOutlets.Data.Timestamp
import MarkdownOutlets.Number.Numeral

/-! # Points in time in YAML documents

  A day is written with four digits for the year and two each for the month
  and the day. A time of day follows behind a `T` or blanks, and may end with
  a fraction of the second and the distance from universal time; in front of
  it the month and the day may do with one digit.
-/

namespace MarkdownOutlets

namespace Yaml

/-- The number at the start of a text, of a least and a greatest count of
    digits, and what follows. -/
def leadingNumber (least most : Nat) (t : Text) : Option (Nat × Text) :=
  let digits := (t.takeWhile Char.isDigit).take most
  if digits.length < least then none else some (Numeral.decimal digits, t.drop digits.length)

/-- What follows a character. -/
def behind (c : Char) : Text → Option Text
  | d :: rest => if d = c then some rest else none
  | [] => none

/-- A blank within a line. -/
def isBlankChar (c : Char) : Bool := c == ' ' || c == '\t'

/-- The day at the start of a text, and what follows. -/
def leadingDay (t : Text) : Option (Day × Text) := do
  let (year, t) ← leadingNumber 4 4 t
  let (month, t) ← leadingNumber 1 2 (← behind '-' t)
  let (day, t) ← leadingNumber 1 2 (← behind '-' t)
  return ({ year, month, day }, t)

/-- What follows the separator of a day and a time of day. -/
def behindSeparator : Text → Option Text
  | 'T' :: rest | 't' :: rest => some rest
  | c :: rest => if isBlankChar c then some (rest.dropWhile isBlankChar) else none
  | [] => none

/-- The millionths of a second in a fraction, and what follows. Digits
    beyond the sixth one do not count. -/
def leadingFraction : Text → Nat × Text
  | '.' :: rest =>
    let digits := (rest.takeWhile Char.isDigit).take 6
    (Numeral.decimal (digits ++ List.replicate (6 - digits.length) '0'),
      rest.dropWhile Char.isDigit)
  | t => (0, t)

/-- The distance from universal time that a whole text is: a `Z`, or a sign
    with hours, and minutes behind a colon. -/
def distance? : Text → Option Int
  | ['Z'] => some 0
  | sign :: t => do
    let (hours, t) ← leadingNumber 1 2 t
    let minutes ← (
      match t with
      | [] => some 0
      | _ => do
        let (minutes, rest) ← leadingNumber 2 2 (← behind ':' t)
        if rest = [] then some minutes else none : Option Nat)
    let total : Int := hours * 60 + minutes
    if sign = '+' then some total else if sign = '-' then some (-total) else none
  | [] => none

/-- The time of day that a whole text is. -/
def clock? (t : Text) : Option Clock := do
  let (hour, t) ← leadingNumber 1 2 t
  let (minute, t) ← leadingNumber 2 2 (← behind ':' t)
  let (second, t) ← leadingNumber 2 2 (← behind ':' t)
  let (micro, t) := leadingFraction t
  if t = [] then return { hour, minute, second, micro, ahead := none }
  else
    let ahead ← distance? (t.dropWhile isBlankChar)
    return { hour, minute, second, micro, ahead := some ahead }

/-- The point in time that a text has the form of. -/
def timestamp? (t : Text) : Option Timestamp := do
  let (day, rest) ← leadingDay t
  if rest = [] then
    if t.length = 10 then return { day, clock := none } else none
  else return { day, clock := some (← clock? (← behindSeparator rest)) }

end Yaml

end MarkdownOutlets
