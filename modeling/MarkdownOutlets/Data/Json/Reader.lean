import MarkdownOutlets.Data.Value
import MarkdownOutlets.Data.ValueFault

/-! # Reading JSON

  The JSON grammar, with two liberties: the numbers `NaN`, `Infinity` and
  `-Infinity` may be written, and of two members of the same name the later
  one gives the value. A number with a fraction or an exponent is a binary64
  number, any other one an integer. The text is read from its start to its
  end, and the first fault counts.
-/

namespace MarkdownOutlets

namespace Json

/-- Why a text is no JSON document. -/
inductive Reason
  /-- A value should start here. -/
  | expectedValue
  /-- A member name should start here. -/
  | expectedName
  /-- A colon should follow the member name. -/
  | expectedColon
  /-- A comma or the end of the list or object should follow. -/
  | expectedComma
  /-- A string does not end. -/
  | unterminatedString
  /-- A backslash is followed by no known escape. -/
  | badEscape
  /-- A control character stands in a string. -/
  | controlCharacter
  /-- More text follows the value. -/
  | extraText
  deriving DecidableEq, Repr

/-- The wording of a reason. -/
def Reason.message : Reason → Text
  | .expectedValue => "Expecting value".toList
  | .expectedName => "Expecting property name enclosed in double quotes".toList
  | .expectedColon => "Expecting ':' delimiter".toList
  | .expectedComma => "Expecting ',' delimiter".toList
  | .unterminatedString => "Unterminated string".toList
  | .badEscape => "Invalid escape".toList
  | .controlCharacter => "Invalid control character".toList
  | .extraText => "Extra data".toList

/-- Why a text denotes no value. -/
inductive Fault
  /-- It is no JSON document. -/
  | malformed (reason : Reason)
  /-- A number or a character in it is none. -/
  | value (fault : ValueFault)
  deriving DecidableEq, Repr

/-- The wording of a fault. -/
def Fault.message : Fault → Text
  | .malformed reason => reason.message
  | .value fault => fault.message

/-! ### Pieces -/

/-- What stands behind blanks and line breaks. -/
def skipBlanks (t : Text) : Text :=
  t.dropWhile fun c => c == ' ' || c == '\t' || c == '\n' || c == '\r'

/-- The value of four hexadecimal digits. -/
def hexUnit? (a b c d : Char) : Option Nat := Numeral.value? 16 [a, b, c, d]

/-- The character of an escape that is one letter. -/
def shortEscape? : Char → Option Char
  | '"' => some '"'
  | '\\' => some '\\'
  | '/' => some '/'
  | 'b' => some '\x08'
  | 'f' => some '\x0c'
  | 'n' => some '\n'
  | 'r' => some '\r'
  | 't' => some '\t'
  | _ => none

/-- The characters of a string up to its closing quote, and what follows.
    Two escaped units that form a surrogate pair are one character; half a
    pair is none. -/
def readString : Text → Except Fault (Text × Text)
  | [] => .error (.malformed .unterminatedString)
  | '"' :: rest => .ok ([], rest)
  | '\\' :: 'u' :: a :: b :: c :: d :: rest =>
    match hexUnit? a b c d with
    | none => .error (.malformed .badEscape)
    | some high =>
      let single :=
        match Numeral.character high with
        | .error fault => .error (.value fault)
        | .ok character => (readString rest).map fun r => (character :: r.1, r.2)
      match rest with
      | '\\' :: 'u' :: e :: f :: g :: h :: rest' =>
        match hexUnit? e f g h with
        | none => .error (.malformed .badEscape)
        | some low =>
          if 0xd800 ≤ high ∧ high < 0xdc00 ∧ 0xdc00 ≤ low ∧ low < 0xe000 then
            let code := 0x10000 + (high - 0xd800) * 0x400 + (low - 0xdc00)
            (readString rest').map fun r => (Char.ofNat code :: r.1, r.2)
          else single
      | _ => single
  | '\\' :: c :: rest =>
    match shortEscape? c with
    | none => .error (.malformed .badEscape)
    | some e => (readString rest).map fun r => (e :: r.1, r.2)
  | c :: rest =>
    if c = '\\' then .error (.malformed .unterminatedString)
    else if c.toNat < 0x20 then .error (.malformed .controlCharacter)
    else (readString rest).map fun r => (c :: r.1, r.2)

/-- The digits behind a decimal point, and what follows. -/
def readFraction : Text → Option (Text × Text)
  | '.' :: rest =>
    match rest.takeWhile Char.isDigit with
    | [] => none
    | digits => some (digits, rest.dropWhile Char.isDigit)
  | _ => none

/-- An exponent, and what follows. -/
def readExponent : Text → Option (Int × Text)
  | e :: rest =>
    if e = 'e' || e = 'E' then
      let (negative, rest) : Bool × Text :=
        match rest with
        | '-' :: rest => (true, rest)
        | '+' :: rest => (false, rest)
        | rest => (false, rest)
      match rest.takeWhile Char.isDigit with
      | [] => none
      | digits =>
        let n : Int := Numeral.decimal digits
        some (if negative then -n else n, rest.dropWhile Char.isDigit)
    else none
  | [] => none

/-- A number without its sign, and what follows. The first digit is zero
    only if it is the only one before the point. -/
def readMagnitude (negative : Bool) (t : Text) : Except Fault (Scalar × Text) :=
  let run := t.takeWhile Char.isDigit
  let whole := if run.head? = some '0' then ['0'] else run
  if whole = [] then .error (.malformed .expectedValue)
  else
    let rest := t.drop whole.length
    let fraction := readFraction rest
    let afterFraction := (fraction.map (·.2)).getD rest
    match fraction, readExponent afterFraction with
    | none, none =>
      match Numeral.boundedDecimal whole with
      | .ok n => .ok (.int (if negative then -(n : Int) else n), rest)
      | .error fault => .error (.value fault)
    | fraction, exponent =>
      let places := (fraction.map (·.1)).getD []
      let (power, after) := exponent.getD (0, afterFraction)
      let digits := Numeral.decimal (whole ++ places)
      .ok (.float (.ofDecimal negative digits (power - places.length)), after)

/-- A number, and what follows. -/
def readNumber : Text → Except Fault (Scalar × Text)
  | '-' :: rest =>
    match Text.dropStart? "Infinity".toList rest with
    | some after => .ok (.float (.infinite true), after)
    | none => readMagnitude true rest
  | t => readMagnitude false t

/-- The words that are values. -/
def words : List (Text × Scalar) :=
  [("null".toList, .null), ("true".toList, .bool true), ("false".toList, .bool false),
   ("NaN".toList, .float .nan), ("Infinity".toList, .float (.infinite false))]

/-- A word or a number, and what follows. -/
def readAtom (t : Text) : Except Fault (Scalar × Text) :=
  match words.findSome? fun w => (Text.dropStart? w.1 t).map (w.2, ·) with
  | some found => .ok found
  | none => readNumber t

/-! ### Documents -/

mutual

/-- A value, and what follows. Each nested call has less fuel; the length
    of the text is enough, as each one follows a character read. -/
def readValue : (fuel : Nat) → Text → Except Fault (Value × Text)
  | 0, _ => .error (.malformed .expectedValue)
  | fuel + 1, t =>
    match t with
    | '"' :: rest => (readString rest).map fun r => (.text r.1, r.2)
    | '[' :: rest =>
      match skipBlanks rest with
      | ']' :: after => .ok (.list [], after)
      | inside => (readItems fuel inside).map fun r => (.list r.1, r.2)
    | '{' :: rest =>
      match skipBlanks rest with
      | '}' :: after => .ok (.dict [], after)
      | inside => (readMembers fuel inside).map fun r => (.dict (Entries.ofList r.1), r.2)
    | _ => (readAtom t).map fun r => (.scalar r.1, r.2)

/-- The items of a list up to its end, and what follows. -/
def readItems : (fuel : Nat) → Text → Except Fault (List Value × Text)
  | 0, _ => .error (.malformed .expectedValue)
  | fuel + 1, t => do
    let (item, rest) ← readValue fuel t
    match skipBlanks rest with
    | ']' :: after => return ([item], after)
    | ',' :: rest =>
      let (items, after) ← readItems fuel (skipBlanks rest)
      return (item :: items, after)
    | _ => .error (.malformed .expectedComma)

/-- The members of an object up to its end, and what follows. -/
def readMembers : (fuel : Nat) → Text → Except Fault (List (Scalar × Value) × Text)
  | 0, _ => .error (.malformed .expectedName)
  | fuel + 1, t =>
    match t with
    | '"' :: rest => do
      let (name, rest) ← readString rest
      match skipBlanks rest with
      | ':' :: rest =>
        let (value, rest) ← readValue fuel (skipBlanks rest)
        match skipBlanks rest with
        | '}' :: after => return ([(.text name, value)], after)
        | ',' :: rest =>
          let (members, after) ← readMembers fuel (skipBlanks rest)
          return ((.text name, value) :: members, after)
        | _ => .error (.malformed .expectedComma)
      | _ => .error (.malformed .expectedColon)
    | _ => .error (.malformed .expectedName)

end

/-- The value that a whole text denotes. -/
def parse (t : Text) : Except Fault Value := do
  let (value, rest) ← readValue (t.length + 1) (skipBlanks t)
  match skipBlanks rest with
  | [] => return value
  | _ => .error (.malformed .extraText)

end Json

end MarkdownOutlets
