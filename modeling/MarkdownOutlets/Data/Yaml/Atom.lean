import MarkdownOutlets.Data.Scalar
import MarkdownOutlets.Data.Yaml.Layout
import MarkdownOutlets.Data.Yaml.Moment

/-! # Atoms of YAML documents

  Texts between quotation marks, and plain texts without them. A plain text
  that is spelled like a truth value, a number, a point in time or null
  stands for that one.
-/

namespace MarkdownOutlets

namespace Yaml

/-! ### Quoted texts -/

/-- The character of an escape that is one letter. -/
def shortEscape? : Char → Option Char
  | '0' => some '\x00'
  | 'a' => some '\x07'
  | 'b' => some '\x08'
  | 't' => some '\t'
  | '\t' => some '\t'
  | 'n' => some '\n'
  | 'v' => some '\x0b'
  | 'f' => some '\x0c'
  | 'r' => some '\r'
  | 'e' => some '\x1b'
  | ' ' => some ' '
  | '"' => some '"'
  | '\\' => some '\\'
  | '/' => some '/'
  | 'N' => some '\x85'
  | '_' => some '\xa0'
  | 'L' => some '\u2028'
  | 'P' => some '\u2029'
  | _ => none

/-- The character of an escape: of one letter, or of a letter and the digits
    of the character's number. -/
def escape (letter : Spot) (rest : List Spot) : Except Stop (Char × List Spot) :=
  let numbered (count : Nat) : Except Stop (Char × List Spot) :=
    let digits := rest.take count
    match Numeral.value? 16 (digits.map (·.char)) with
    | none => stop .badEscape rest
    | some n =>
      if digits.length < count then stop .badEscape rest
      else
        match Numeral.character n with
        | .ok c => .ok (c, rest.drop count)
        | .error fault => .error { fault := .value fault, left := rest.length }
  if letter.char = 'x' then numbered 2
  else if letter.char = 'u' then numbered 4
  else if letter.char = 'U' then numbered 8
  else
    match shortEscape? letter.char with
    | some c => .ok (c, rest)
    | none => stop .badEscape (letter :: rest)

/-- The rest of a text in double quotes, behind a gap, and what follows the
    closing quote. Each call follows a character read, so the length of the
    text is enough fuel. -/
def doubleQuotedIn : (fuel : Nat) → Gap → List Spot → Except Stop (Text × List Spot)
  | 0, _, t => stop .unterminated t
  | _ + 1, _, [] => stop .unterminated []
  | fuel + 1, gap, s :: rest =>
    if isBreak s.char then doubleQuotedIn fuel (gap.lineBreak s.char) rest
    else if s.char = ' ' || s.char = '\t' then doubleQuotedIn fuel (gap.blank s.char) rest
    else if atMarker (s :: rest) then stop .unexpected (s :: rest)
    else if s.char = '"' then .ok (gap.text, rest)
    else if s.char ≠ '\\' then
      (doubleQuotedIn fuel .empty rest).map fun r => (gap.text ++ s.char :: r.1, r.2)
    else
      match rest with
      | [] => stop .unterminated []
      | e :: rest =>
        if isBreak e.char then
          (doubleQuotedIn fuel .cancelled rest).map fun r => (gap.text ++ r.1, r.2)
        else do
          let (c, rest) ← escape e rest
          let (t, after) ← doubleQuotedIn fuel .empty rest
          return (gap.text ++ c :: t, after)

/-- The text in double quotes behind its opening quote, and what follows the
    closing one. -/
def doubleQuoted (t : List Spot) : Except Stop (Text × List Spot) :=
  doubleQuotedIn (t.length + 1) .empty t

/-- The rest of a text in single quotes, behind a gap, and what follows the
    closing quote. A quote in the text is written twice. -/
def singleQuoted (gap : Gap) : List Spot → Except Stop (Text × List Spot)
  | [] => stop .unterminated []
  | s :: rest =>
    if isBreak s.char then singleQuoted (gap.lineBreak s.char) rest
    else if s.char = ' ' || s.char = '\t' then singleQuoted (gap.blank s.char) rest
    else if atMarker (s :: rest) then stop .unexpected (s :: rest)
    else if s.char ≠ '\'' then
      (singleQuoted .empty rest).map fun r => (gap.text ++ s.char :: r.1, r.2)
    else
      match rest with
      | [] => .ok (gap.text, [])
      | q :: after =>
        if q.char = '\'' then
          (singleQuoted .empty after).map fun r => (gap.text ++ '\'' :: r.1, r.2)
        else .ok (gap.text, q :: after)

/-! ### Plain texts -/

/-- A plain text may start here. A dash, a question mark and a colon may
    only start one if a word goes on behind them. -/
def startsPlain (bracketed : Bool) : List Spot → Bool
  | [] => false
  | s :: rest =>
    if isSeparator s.char then false
    else if s.char = '-' then !atSeparator rest
    else if s.char = '?' || s.char = ':' then !bracketed && !atSeparator rest
    else !(isBracket s.char || "#&*!|>'\"%@\x60".toList.contains s.char)

/-- A colon behind a key stands here: one that no word goes on behind. -/
def atColon (bracketed : Bool) : List Spot → Bool
  | [] => false
  | s :: rest =>
    s.char = ':' &&
      match rest with
      | [] => true
      | r :: _ => isSeparator r.char || (bracketed && isBracket r.char)

/-- A plain text ends before this word, which is not its first one. -/
def endsPlain (bracketed : Bool) (least : Nat) (gap : Gap) (t : List Spot) : Bool :=
  match t with
  | [] => true
  | s :: _ =>
    s.char = '\t' || atColon bracketed t
      || (bracketed && (isBracket s.char || s.char = '?'))
      || match gap with
        | .blanks [] => false
        | .blanks _ => s.char = '#'
        | .broken .. => s.char = '#' || atMarker t || (!bracketed && s.column < least)

/-- The rest of a plain text behind a gap, and what follows it. The gap
    belongs to the text only if a word follows that stands at least at the
    given column or between brackets; `before` is what the gap starts
    with. -/
def plain (bracketed : Bool) (least : Nat) (gap : Gap) (before : List Spot) :
    List Spot → Text × List Spot
  | [] => ([], before)
  | s :: rest =>
    if isBreak s.char then plain bracketed least (gap.lineBreak s.char) before rest
    else if s.char = ' ' then plain bracketed least (gap.blank s.char) before rest
    else if endsPlain bracketed least gap (s :: rest) then ([], before)
    else
      let (t, after) := plain bracketed least .empty rest rest
      (gap.text ++ s.char :: t, after)

/-! ### What a plain text stands for -/

/-- The spellings of null. -/
def nullWords : List Text := ["", "~", "null", "Null", "NULL"].map String.toList

/-- The spellings of true. -/
def trueWords : List Text :=
  ["yes", "Yes", "YES", "true", "True", "TRUE", "on", "On", "ON"].map String.toList

/-- The spellings of false. -/
def falseWords : List Text :=
  ["no", "No", "NO", "false", "False", "FALSE", "off", "Off", "OFF"].map String.toList

/-- A number, or why the text in its form denotes none. -/
abbrev Read (α : Type) := Except ValueFault α

/-- A text without underscores, which say nothing in numbers. -/
def withoutUnderscores (t : Text) : Text := t.filter (· != '_')

/-- The natural number of some digits with underscores between them, in a
    base that has a mark of its own. -/
def natural? (base : Nat) (t : Text) : Option (Read Nat) :=
  match t, withoutUnderscores t with
  | [], _ => none
  | _, [] => some (.error (.noDigits base))
  | _, digits => (Numeral.value? base digits).map .ok

/-- The natural number of some octal digits with underscores between them,
    behind a zero. -/
def octal? (t : Text) : Option (Read Nat) :=
  if t = [] then none else (Numeral.value? 8 (withoutUnderscores t)).map .ok

/-- One of the lower places of a number to the base of sixty. -/
def sixtieth? (t : Text) : Option Nat :=
  if t.length = 1 || t.length = 2 then (Numeral.value? 10 t).filter (· < 60) else none

/-- The digits of a decimal number, which may hold underscores behind the
    first digit. -/
def decimalDigits? : Text → Option Text
  | c :: rest =>
    let digits := withoutUnderscores (c :: rest)
    if c.isDigit && digits.all Char.isDigit then some digits else none
  | [] => none

/-- The magnitude of an integer: to the base of two, eight, ten or sixteen,
    or decimal places to the base of sixty with colons between them. -/
def magnitude? : Text → Option (Read Nat)
  | ['0'] => some (.ok 0)
  | '0' :: 'b' :: digits => natural? 2 digits
  | '0' :: 'x' :: digits => natural? 16 digits
  | '0' :: digits => octal? digits
  | t =>
    match Text.split ':' t with
    | [] => none
    | first :: places => do
      let places ← places.mapM sixtieth?
      let digits ← decimalDigits? first
      return (Numeral.boundedDecimal digits).map fun n =>
        places.foldl (fun n place => n * 60 + place) n

/-- The digits and underscores at the start of a text, and what follows. -/
def digitRun (t : Text) : Text × Text :=
  (t.takeWhile fun c => c.isDigit || c == '_', t.dropWhile fun c => c.isDigit || c == '_')

/-- The exponent that a whole text is: none, or a letter, a sign and
    digits. -/
def exponent? : Text → Option Int
  | [] => some 0
  | e :: sign :: digits =>
    if (e = 'e' || e = 'E') && digits ≠ [] && digits.all Char.isDigit then
      if sign = '-' then some (-(Numeral.decimal digits : Int))
      else if sign = '+' then some (Numeral.decimal digits)
      else none
    else none
  | _ => none

/-- A magnitude with a decimal point. -/
def fraction? (t : Text) : Option Binary64 := do
  let (whole, rest) := digitRun t
  let (fraction, rest) := digitRun (← behind '.' rest)
  let exponent ← exponent? rest
  let digits := withoutUnderscores fraction
  return .ofDecimal false (Numeral.decimal (withoutUnderscores whole ++ digits))
    (exponent - digits.length)

/-- The sum of places to the base of sixty, the lowest one first, each one
    counted by the given power and added to what the lower ones make. -/
def sumOfPlaces (sum : Binary64) (power : Nat) : List Binary64 → Read Binary64
  | [] => .ok sum
  | place :: places =>
    match Binary64.ofQuotient false power 1 with
    | .infinite _ => .error .placeTooHigh
    | unit => sumOfPlaces (sum.add (place.mul unit)) (power * 60) places

/-- A magnitude of decimal places to the base of sixty with colons between
    them, the last one with a decimal point. -/
def sexagesimal? (t : Text) : Option (Read Binary64) := do
  let (higher, last) ← Text.cutLast ':' t
  let (whole, rest) ← Text.cutFirst '.' last
  let _ ← sixtieth? whole
  let (fraction, []) := digitRun rest | none
  let last ← fraction? (whole ++ '.' :: fraction)
  let first :: places := Text.split ':' higher | none
  let places ← places.mapM sixtieth?
  let first : Binary64 := .ofDecimal false (Numeral.decimal (← decimalDigits? first)) 0
  let places := first :: places.map fun place => .ofDecimal false place 0
  return sumOfPlaces (.finite false 0 0) 1 (last :: places.reverse)

/-- The spellings of infinity behind a sign. -/
def infinityWords : List Text := [".inf", ".Inf", ".INF"].map String.toList

/-- The spellings of the number that is none. -/
def nanWords : List Text := [".nan", ".NaN", ".NAN"].map String.toList

/-- The magnitude of a binary64 number. One that starts with its point has
    no sign. -/
def floatMagnitude? (signed : Bool) (t : Text) : Option (Read Binary64) :=
  if infinityWords.contains t then some (.ok (.infinite false))
  else
    match t with
    | '.' :: c :: rest =>
      if !signed && c.isDigit then (fraction? ('.' :: c :: rest)).map .ok else none
    | c :: rest =>
      if !c.isDigit then none
      else
        match fraction? (c :: rest) with
        | some x => some (.ok x)
        | none => sexagesimal? (c :: rest)
    | [] => none

/-- The number that a text behind an optional sign is. -/
def unsigned? (sign : Option Bool) (t : Text) : Option (Read Scalar) :=
  let negative := sign = some true
  match magnitude? t with
  | some read => some (read.map fun n => .int (if negative then -(n : Int) else n))
  | none =>
    (floatMagnitude? sign.isSome t).map fun read =>
      read.map fun x => .float (if negative then x.neg else x)

/-- The number that a text is. -/
def number? : Text → Option (Read Scalar)
  | '-' :: rest => unsigned? (some true) rest
  | '+' :: rest => unsigned? (some false) rest
  | t => unsigned? none t

/-- What a plain text stands for. -/
def resolve (t : Text) : Read Scalar :=
  if nullWords.contains t then .ok .null
  else if trueWords.contains t then .ok (.bool true)
  else if falseWords.contains t then .ok (.bool false)
  else if nanWords.contains t then .ok (.float .nan)
  else
    match number? t, timestamp? t with
    | some read, _ => read
    | none, some time => (time.check.map .time).mapError .time
    | none, none => .ok (.text t)

end Yaml

end MarkdownOutlets
