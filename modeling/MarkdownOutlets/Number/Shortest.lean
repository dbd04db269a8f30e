import MarkdownOutlets.Number.Binary64
import MarkdownOutlets.Text.Basic

/-! # Shortest decimals

  A binary64 number is written with the fewest decimal digits that read back
  to it. Which digits these are is a matter of numbers (`shortest`); where
  the point stands and when an exponent is written is a matter of layout
  (`Notation`).
-/

namespace MarkdownOutlets

/-- The decimal `digits * 10 ^ power`. -/
structure Decimal where
  /-- The significant digits, as a number. -/
  digits : Nat
  /-- The power of ten that they count. -/
  power : Int
  deriving DecidableEq, Repr

namespace Binary64

/-! ### Digits -/

/-- The place of the first significant digit of the positive quotient
    `num / den`: the greatest power of ten that is not above it. -/
def leadingPower (num den : Nat) : Int :=
  if den ≤ num then (Nat.toDigits 10 (num / den)).length - 1
  else
    -- the first digit of `den / num`, rounded up, is one place off at most
    let guess := (Nat.toDigits 10 (den / num)).length
    if den ≤ num * Nat.pow 10 (guess - 1) then 1 - (guess : Int) else -(guess : Int)

/-- The quotient `num / den` counted in units of `10 ^ power`, rounded
    down. -/
def countDown (num den : Nat) (power : Int) : Nat :=
  match power with
  | .ofNat p => num / (den * Nat.pow 10 p)
  | .negSucc p => num * Nat.pow 10 (p + 1) / den

/-- Of `d` and `d + 1` units of `10 ^ power` the first one is nearer to the
    quotient `num / den`, or as near and even. -/
def nearerBelow (num den d : Nat) (power : Int) : Bool :=
  let (twice, middle) : Nat × Nat :=
    match power with
    | .ofNat p => (2 * num, (2 * d + 1) * (den * Nat.pow 10 p))
    | .negSucc p => (2 * num * Nat.pow 10 (p + 1), (2 * d + 1) * den)
  twice < middle || (twice = middle && d % 2 = 0)

/-- The decimal of at most `places` digits that reads back to the number
    `x`, of magnitude `num / den`: of the two decimals next to the number the
    nearer one that does. -/
def decimalAt? (x : Binary64) (num den places : Nat) : Option Decimal :=
  let power := leadingPower num den + 1 - places
  let below := countDown num den power
  let reads (d : Nat) : Bool := ofDecimal false d power = x
  let order := if nearerBelow num den below power then [below, below + 1] else [below + 1, below]
  (order.find? reads).map fun d => ⟨d, power⟩

/-- The decimal with the fewest digits that reads back to the positive
    number `significand * 2 ^ exponent`. Seventeen digits always do. -/
def shortest (significand : Nat) (exponent : Int) : Decimal :=
  let x : Binary64 := .finite false significand exponent
  let (num, den) := quotient significand exponent
  ((List.range' 1 17).findSome? (decimalAt? x num den)).getD ⟨significand, exponent⟩

end Binary64

/-! ### Layout -/

/-- The decisions of a number format that writes the shortest digits. -/
structure Notation where
  /-- Least power of ten of the first digit that is written positionally. -/
  leastPositional : Int
  /-- Least power of ten of the first digit that takes an exponent again. -/
  leastScientific : Int
  /-- Least number of digits of an exponent. -/
  exponentWidth : Nat
  /-- The text of the value that is no number. -/
  nan : Text
  /-- The text of positive infinity. -/
  infinity : Text

namespace Notation

/-- Digits without their trailing zeros, which leave at least one. -/
def significantDigits (digits : Nat) : Text :=
  match Text.dropEndWhile (· == '0') (Text.ofNat digits) with
  | [] => ['0']
  | kept => kept

/-- A run of digits whose first one counts `10 ^ leading`, written without
    an exponent and with at least one digit behind the point. -/
def positional (digits : Text) : (leading : Int) → Text
  | .ofNat n =>
    let padded := digits ++ List.replicate (n + 1 - digits.length) '0'
    let fraction := padded.drop (n + 1)
    padded.take (n + 1) ++ '.' :: (if fraction = [] then ['0'] else fraction)
  | .negSucc n => '0' :: '.' :: (List.replicate n '0' ++ digits)

/-- A run of digits whose first one counts `10 ^ leading`, written with an
    exponent. -/
def scientific (f : Notation) (digits : Text) (leading : Int) : Text :=
  let exponent := Text.ofNat leading.natAbs
  let sign := if leading < 0 then '-' else '+'
  let padding := List.replicate (f.exponentWidth - exponent.length) '0'
  let fraction := if digits.length = 1 then [] else '.' :: digits.drop 1
  digits.take 1 ++ fraction ++ ['e', sign] ++ padding ++ exponent

/-- A positive decimal as the format writes it. -/
def ofDecimal (f : Notation) (d : Decimal) : Text :=
  let digits := significantDigits d.digits
  let leading := d.power + (Text.ofNat d.digits).length - 1
  if f.leastPositional ≤ leading ∧ leading < f.leastScientific then positional digits leading
  else f.scientific digits leading

/-- A number as the format writes it. -/
def render (f : Notation) : Binary64 → Text
  | .nan => f.nan
  | .infinite negative => if negative then '-' :: f.infinity else f.infinity
  | .finite negative significand exponent =>
    let magnitude :=
      if significand = 0 then positional ['0'] 0
      else f.ofDecimal (Binary64.shortest significand exponent)
    if negative then '-' :: magnitude else magnitude

end Notation

end MarkdownOutlets
