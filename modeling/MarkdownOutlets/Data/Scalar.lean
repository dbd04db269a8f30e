import MarkdownOutlets.Data.Timestamp
import MarkdownOutlets.Number.Shortest
import MarkdownOutlets.Text.Digit
import MarkdownOutlets.Text.Quoted

/-! # Scalars

  The atoms of configuration data, which are also the keys of its mappings.
  Truth values and numbers are compared by their numeric value when they are
  keys: true, one and 1.0 are the same key.
-/

namespace MarkdownOutlets

/-- An atom of configuration data. -/
inductive Scalar
  /-- The absent value. -/
  | null
  /-- A truth value. -/
  | bool (b : Bool)
  /-- An integer of any size. -/
  | int (i : Int)
  /-- A binary64 number, which no integer is. -/
  | float (x : Binary64)
  /-- A text. -/
  | text (t : Text)
  /-- A point in time. -/
  | time (t : Timestamp)
  deriving DecidableEq, Repr

namespace Scalar

/-! ### Keys -/

/-- The integer that a truth value or a number stands for. -/
def integer? : Scalar → Option Int
  | .bool b => some (if b then 1 else 0)
  | .int i => some i
  | .float x => x.toInt?
  | _ => none

/-- Two scalars are the same key. -/
def sameKey (a b : Scalar) : Bool :=
  match a.integer?, b.integer? with
  | some i, some j => i = j
  | none, none => a = b && a != .float .nan
  | _, _ => false

theorem text_bne_float (t : Text) (x : Binary64) : (text t != float x) = true := by
  simp [bne_iff_ne]

/-- A text is the same key as that text only. -/
@[simp] theorem sameKey_text (a : Scalar) (t : Text) :
    a.sameKey (.text t) = decide (a = .text t) := by
  cases a with
  | float x => cases h : x.toInt? <;> simp [sameKey, integer?, h]
  | text u => simp only [sameKey, integer?, text_bne_float, Bool.and_true]
  | _ => simp [sameKey, integer?]

@[simp] theorem text_sameKey (t : Text) (a : Scalar) :
    (text t).sameKey a = decide (a = .text t) := by
  cases a with
  | float x => cases h : x.toInt? <;> simp [sameKey, integer?, h]
  | text u => simp only [sameKey, integer?, text_bne_float, Bool.and_true, eq_comm]
  | _ => simp [sameKey, integer?]

/-- The scalar counts as present: it is not null, false, zero or empty. -/
def truthy : Scalar → Bool
  | .null => false
  | .bool b => b
  | .int i => i != 0
  | .float x => !x.isZero
  | .text t => t != []
  | .time _ => true

/-! ### In messages -/

/-- How floating-point numbers are written: positionally from 0.0001 to
    below 10^16, otherwise with an exponent of at least two digits. -/
def floatNotation : Notation :=
  { leastPositional := -4
    leastScientific := 16
    exponentWidth := 2
    nan := "nan".toList
    infinity := "inf".toList }

/-- The name of the kind of a scalar. -/
def kindName : Scalar → Text
  | .null => "NoneType".toList
  | .bool _ => "bool".toList
  | .int _ => "int".toList
  | .float _ => "float".toList
  | .text _ => "str".toList
  | .time t => t.kindName

/-- A scalar as messages quote it. -/
def quoted : Scalar → Text
  | .null => "None".toList
  | .bool true => "True".toList
  | .bool false => "False".toList
  | .int i => Text.ofInt i
  | .float x => floatNotation.render x
  | .text t => Text.quoted t
  | .time t => t.quoted

/-- The scalar can be quoted in a message, as all can but for integers of
    too many digits. -/
def isWritable : Scalar → Bool
  | .int i => i.natAbs < Nat.pow 10 Text.maxDigits
  | _ => true

/-- A scalar as part of a running text: a text stands for itself, a point in
    time is written with its digits. -/
def plain : Scalar → Text
  | .text t => t
  | .time t => t.plain
  | s => s.quoted

end Scalar

end MarkdownOutlets
