/-! # Binary64 numbers

  The numbers of the IEEE binary64 format, without a use of the machine's
  floating point: a finite number is a sign, a significand below 2^53 and an
  exponent. A decimal numeral stands for the number nearest to it, and of two
  equally near ones for that with the even significand.
-/

namespace MarkdownOutlets

/-- A binary64 number. A finite one has the magnitude
    `significand * 2 ^ exponent`; zero keeps its sign. -/
inductive Binary64
  /-- The result of an undefined operation, which is no number. -/
  | nan
  /-- One of the two infinities. -/
  | infinite (negative : Bool)
  /-- A finite number. -/
  | finite (negative : Bool) (significand : Nat) (exponent : Int)
  deriving DecidableEq, Repr

namespace Binary64

/-- Number of binary digits of a significand. -/
def precision : Nat := 53

/-- Exponent of the least positive number. -/
def minExponent : Int := -1074

/-- Exponent of the greatest finite numbers. -/
def maxExponent : Int := 971

/-! ### Nearest number -/

/-- The quotient `num / den` rounded to the nearest natural number, a half
    to the even neighbour. -/
def roundDiv (num den : Nat) : Nat :=
  let low := num / den
  let rest := 2 * (num % den)
  if rest < den then low
  else if den < rest then low + 1
  else if low % 2 = 0 then low else low + 1

/-- Numerator and denominator of `num / den / 2 ^ exponent`. -/
def scale (num den : Nat) (exponent : Int) : Nat × Nat :=
  match exponent with
  | .ofNat e => (num, den * Nat.pow 2 e)
  | .negSucc e => (num * Nat.pow 2 (e + 1), den)

/-- The exponent under which the positive quotient `num / den` has a
    significand of full precision, or the least exponent for quotients that
    are too small for one. -/
def exponentFor (num den : Nat) : Int :=
  let estimate : Int := Nat.log2 num - Nat.log2 den - precision
  let (n, d) := scale num den estimate
  let exact := if n / d < Nat.pow 2 precision then estimate else estimate + 1
  max exact minExponent

/-- The number nearest to the quotient `num / den`, with the given sign. -/
def ofQuotient (negative : Bool) (num den : Nat) : Binary64 :=
  if num = 0 then .finite negative 0 0
  else
    let exponent := exponentFor num den
    let (n, d) := scale num den exponent
    let significand := roundDiv n d
    let (significand, exponent) :=
      if significand = Nat.pow 2 precision then (significand / 2, exponent + 1)
      else (significand, exponent)
    if maxExponent < exponent then .infinite negative
    else if significand = 0 then .finite negative 0 0
    else .finite negative significand exponent

/-- The number nearest to `digits * 10 ^ power`, with the given sign. Powers
    far outside of the format are settled without computing them. -/
def ofDecimal (negative : Bool) (digits : Nat) (power : Int) : Binary64 :=
  if digits = 0 then .finite negative 0 0
  else
    let magnitude : Int := power + (Nat.toDigits 10 digits).length
    if 310 < magnitude then .infinite negative
    else if magnitude < -330 then .finite negative 0 0
    else
      match power with
      | .ofNat p => ofQuotient negative (digits * Nat.pow 10 p) 1
      | .negSucc p => ofQuotient negative digits (Nat.pow 10 (p + 1))

/-! ### Arithmetic -/

/-- The magnitude `significand * 2 ^ exponent` as a quotient. -/
def quotient (significand : Nat) (exponent : Int) : Nat × Nat :=
  match exponent with
  | .ofNat e => (significand * Nat.pow 2 e, 1)
  | .negSucc e => (significand, Nat.pow 2 (e + 1))

/-- The number nearest to the product of two numbers. Zero times infinity
    is no number. -/
def mul : Binary64 → Binary64 → Binary64
  | .nan, _ | _, .nan => .nan
  | .infinite s, .infinite s' => .infinite (s != s')
  | .infinite s, .finite s' m _ | .finite s m _, .infinite s' =>
    if m = 0 then .nan else .infinite (s != s')
  | .finite s m e, .finite s' m' e' =>
    let (n, d) := quotient m e
    let (n', d') := quotient m' e'
    ofQuotient (s != s') (n * n') (d * d')

/-- The number nearest to the sum of two numbers. Infinities of different
    signs have no sum; a sum of zero is negative only if both numbers
    are. -/
def add : Binary64 → Binary64 → Binary64
  | .nan, _ | _, .nan => .nan
  | .infinite s, .infinite s' => if s = s' then .infinite s else .nan
  | .infinite s, .finite .. | .finite .., .infinite s => .infinite s
  | .finite s m e, .finite s' m' e' =>
    let (n, d) := quotient m e
    let (n', d') := quotient m' e'
    let signed (negative : Bool) (n : Nat) : Int := if negative then -(n : Int) else n
    let sum := signed s (n * d') + signed s' (n' * d)
    ofQuotient (if sum = 0 then s && s' else sum < 0) sum.natAbs (d * d')

/-- The number with the other sign. -/
def neg : Binary64 → Binary64
  | .nan => .nan
  | .infinite s => .infinite !s
  | .finite s m e => .finite (!s) m e

/-! ### Tests -/

/-- The number is zero, of either sign. -/
def isZero : Binary64 → Bool
  | .finite _ 0 _ => true
  | _ => false

/-- The number is less than zero. -/
def isNegative : Binary64 → Bool
  | .nan => false
  | .infinite negative => negative
  | .finite negative significand _ => negative && significand != 0

/-- The number is less than an integer. -/
def isBelow (bound : Int) : Binary64 → Bool
  | .nan => false
  | .infinite negative => negative
  | .finite negative significand exponent =>
    let (n, d) := quotient significand exponent
    (if negative then -(n : Int) else n) < bound * d

/-- The integer that the number is equal to, if there is one. -/
def toInt? : Binary64 → Option Int
  | .finite negative significand exponent =>
    let magnitude : Option Nat :=
      match exponent with
      | .ofNat e => some (significand * Nat.pow 2 e)
      | .negSucc e =>
        let unit := Nat.pow 2 (e + 1)
        if significand % unit = 0 then some (significand / unit) else none
    magnitude.map fun n => if negative then -(n : Int) else n
  | _ => none

end Binary64

end MarkdownOutlets
