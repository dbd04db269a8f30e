import MarkdownOutlets.Data.Value

/-! # Limits

  How many sources a chain may hold. A checked limit is a natural number; a
  caller that is not checked may use any number, or a truth value, which
  counts as one or zero.
-/

namespace MarkdownOutlets

/-- Greatest length of a chain. -/
inductive Limit
  /-- An integer. -/
  | whole (i : Int)
  /-- A truth value. -/
  | truth (b : Bool)
  /-- A number that need not be whole. -/
  | real (x : Binary64)
  deriving DecidableEq, Repr

namespace Limit

/-- A limit as data. -/
def toScalar : Limit → Scalar
  | .whole i => .int i
  | .truth b => .bool b
  | .real x => .float x

/-- The limit that a value is. -/
def ofValue? : Value → Option Limit
  | .scalar (.int i) => some (.whole i)
  | .scalar (.bool b) => some (.truth b)
  | .scalar (.float x) => some (.real x)
  | _ => none

/-- A binary64 number is at most a natural number. -/
def realAtMost (x : Binary64) (n : Nat) : Bool :=
  match x with
  | .nan => false
  | .infinite negative => negative
  | .finite negative significand exponent =>
    let (num, den) := Binary64.quotient significand exponent
    negative || num ≤ n * den

/-- A chain of this length takes no more sources. -/
def reached (limit : Limit) (length : Nat) : Bool :=
  match limit with
  | .whole i => i ≤ length
  | .truth b => (if b then 1 else 0) ≤ length
  | .real x => realAtMost x length

@[simp] theorem reached_whole (n length : Nat) : (whole n).reached length = decide (n ≤ length) := by
  simp [reached]

/-- How many more sources a chain of this length may take. -/
def remaining (limit : Limit) (length : Nat) : Scalar :=
  match limit with
  | .whole i => .int (i - length).toNat
  | .truth b => .int ((if b then 1 else 0) - length : Nat)
  | .real x =>
    if x = .nan || realAtMost x length then .int 0
    else .float (x.add (Binary64.ofQuotient false length 1).neg)

end Limit

end MarkdownOutlets
