import MarkdownOutlets.Data.Value

/-! # Writing JSON

  Two layouts: one with every item on a line of its own, in ASCII, for
  people; and one on a single line. Values that JSON does not know are
  written as strings.
-/

namespace MarkdownOutlets

namespace Json

/-! ### Atoms -/

/-- The escape of one 16-bit unit. -/
def unitEscape (n : Nat) : Text := '\\' :: 'u' :: Text.hex 4 n

/-- A character within a string, in ASCII; a character above U+FFFF takes
    the two units of its surrogate pair. -/
def escapeChar (c : Char) : Text :=
  let n := c.toNat
  if c = '"' || c = '\\' then ['\\', c]
  else if c = '\n' then ['\\', 'n']
  else if c = '\r' then ['\\', 'r']
  else if c = '\t' then ['\\', 't']
  else if c = '\x0c' then ['\\', 'f']
  else if c = '\x08' then ['\\', 'b']
  else if 0x20 ≤ n && n < 0x7f then [c]
  else if n < 0x10000 then unitEscape n
  else unitEscape (0xd800 + (n - 0x10000) / 0x400) ++ unitEscape (0xdc00 + (n - 0x10000) % 0x400)

/-- A string. -/
def string (t : Text) : Text := '"' :: t.flatMap escapeChar ++ ['"']

/-- How numbers are written: like those of messages, but for the names of
    the values that are not finite. -/
def numberNotation : Notation :=
  { Scalar.floatNotation with nan := "NaN".toList, infinity := "Infinity".toList }

/-- A scalar without quotation marks. -/
def word : Scalar → Text
  | .null => "null".toList
  | .bool true => "true".toList
  | .bool false => "false".toList
  | .int i => Text.ofInt i
  | .float x => numberNotation.render x
  | .text t => t
  | .time t => t.plain

/-- A scalar. -/
def atom : Scalar → Text
  | .text t => string t
  | .time t => string t.plain
  | s => word s

/-- The name of a member. -/
def name (key : Scalar) : Text := string (word key)

/-! ### Layouts -/

/-- A line break and the indentation of a nesting level. -/
def newline (level : Nat) : Text := '\n' :: List.replicate (2 * level) ' '

/-- Items between brackets, each on a line of its own. -/
def block (level : Nat) (opening closing : Char) (items : List Text) : Text :=
  match items with
  | [] => [opening, closing]
  | _ =>
    opening :: newline (level + 1) ++ Text.join (',' :: newline (level + 1)) items
      ++ newline level ++ [closing]

mutual

/-- A value with every item on a line of its own, within `level` levels of
    nesting. -/
def prettyAt (level : Nat) : Value → Text
  | .scalar s => atom s
  | .list items => block level '[' ']' (prettyItems (level + 1) items)
  | .dict entries => block level '\x7b' '\x7d' (prettyEntries (level + 1) entries)
  | v => string v.quoted

/-- The items of a list. -/
def prettyItems (level : Nat) : List Value → List Text
  | [] => []
  | v :: rest => prettyAt level v :: prettyItems level rest

/-- The members of an object. -/
def prettyEntries (level : Nat) : List (Scalar × Value) → List Text
  | [] => []
  | (k, v) :: rest => (name k ++ [':', ' '] ++ prettyAt level v) :: prettyEntries level rest

end

/-- A value with every item on a line of its own. -/
def pretty (v : Value) : Text := prettyAt 0 v

mutual

/-- A value on a single line. -/
def compact : Value → Text
  | .scalar s => atom s
  | .list items => '[' :: Text.join [','] (compactItems items) ++ [']']
  | .dict entries => '\x7b' :: Text.join [','] (compactEntries entries) ++ ['\x7d']
  | v => string v.quoted

/-- The items of a list on a single line. -/
def compactItems : List Value → List Text
  | [] => []
  | v :: rest => compact v :: compactItems rest

/-- The members of an object on a single line. -/
def compactEntries : List (Scalar × Value) → List Text
  | [] => []
  | (k, v) :: rest => (name k ++ ':' :: compact v) :: compactEntries rest

end

end Json

end MarkdownOutlets
