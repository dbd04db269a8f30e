import MarkdownOutlets.Data.ValueFault

/-! # Layout of YAML documents

  The structure of a YAML document follows from where its characters stand.
  A text is therefore read as a list of characters that know their place.
  Blanks, line breaks and comments separate the tokens. A reader that stops
  says at which place.
-/

namespace MarkdownOutlets

namespace Yaml

/-! ### Faults -/

/-- Why a text is no YAML document. -/
inductive Reason
  /-- A character that documents do not hold. -/
  | unprintable
  /-- Nothing that may stand here starts like this. -/
  | unexpected
  /-- A quoted text or a collection between brackets does not end. -/
  | unterminated
  /-- A backslash is followed by no known escape. -/
  | badEscape
  /-- A key is a list or a mapping. -/
  | keyKind
  /-- What should be merged into a mapping is none. -/
  | mergedKind
  /-- A mark that says something about entries stands in the place of a
      value. -/
  | misplacedMark
  /-- A colon should follow the key. -/
  | expectedColon
  /-- A comma or the closing bracket should follow. -/
  | expectedComma
  /-- More text follows the document. -/
  | extraText
  deriving DecidableEq, Repr

/-- The wording of a reason. -/
def Reason.message : Reason → Text
  | .unprintable => "special characters are not allowed".toList
  | .unexpected => "found a character that cannot start any token".toList
  | .unterminated => "found unexpected end of stream".toList
  | .badEscape => "found unknown escape character".toList
  | .keyKind => "found unhashable key".toList
  | .mergedKind => "expected a mapping or list of mappings for merging".toList
  | .misplacedMark => "could not determine a constructor for the tag".toList
  | .expectedColon => "could not find expected ':'".toList
  | .expectedComma => "expected ',' or a closing bracket".toList
  | .extraText => "expected a single document in the stream".toList

/-- Why a text denotes no value. -/
inductive Fault
  /-- It is no YAML document. -/
  | malformed (reason : Reason)
  /-- A scalar in it denotes no value. -/
  | value (fault : ValueFault)
  deriving DecidableEq, Repr

/-- The wording of a fault. -/
def Fault.message : Fault → Text
  | .malformed reason => reason.message
  | .value fault => fault.message

/-- A fault, with the number of characters from where it was found to the
    end of the text. -/
structure Stop where
  /-- The fault. -/
  fault : Fault
  /-- How many characters were left. -/
  left : Nat
  deriving DecidableEq, Repr

/-! ### Characters -/

/-- The mark that may stand at the start of a text and takes no room. -/
def byteOrderMark : Char := '\ufeff'

/-- A character that may occur in a document. -/
def isDocumentChar (c : Char) : Bool :=
  let n := c.toNat
  n = 0x09 || n = 0x0a || n = 0x0d || n = 0x85 || (0x20 ≤ n && n ≤ 0x7e)
    || (0xa0 ≤ n && n ≤ 0xd7ff) || (0xe000 ≤ n && n ≤ 0xfffd) || 0x10000 ≤ n

/-- A character that ends a line. -/
def isBreak (c : Char) : Bool :=
  c == '\n' || c == '\r' || c == '\x85' || c == '\u2028' || c == '\u2029'

/-- A character that separates words. -/
def isSeparator (c : Char) : Bool := c == ' ' || c == '\t' || isBreak c

/-- A bracket or a comma, which end a word between brackets. -/
def isBracket (c : Char) : Bool :=
  c == ',' || c == '[' || c == ']' || c == '\x7b' || c == '\x7d'

/-! ### Spots -/

/-- A character with its place; lines and columns are counted from zero. -/
structure Spot where
  /-- The character. -/
  char : Char
  /-- Its line. -/
  line : Nat
  /-- Its column. -/
  column : Nat
  /-- How many characters stand before it. -/
  offset : Nat
  deriving DecidableEq, Repr

/-- The spots of a text that starts at a line, column and offset. -/
def spotsFrom (line column offset : Nat) : Text → List Spot
  | [] => []
  | c :: rest =>
    { char := c, line, column, offset } ::
      if isBreak c then spotsFrom (line + 1) 0 (offset + 1) rest
      else if c = byteOrderMark then spotsFrom line column (offset + 1) rest
      else spotsFrom line (column + 1) (offset + 1) rest

/-- The spots of a text. A mark at its start is no part of it. -/
def spots : Text → List Spot
  | [] => []
  | c :: rest => if c = byteOrderMark then spotsFrom 0 0 0 rest else spotsFrom 0 0 0 (c :: rest)

/-- A reader stops because of what stands here. -/
def stop {α : Type} (reason : Reason) (t : List Spot) : Except Stop α :=
  .error { fault := .malformed reason, left := t.length }

/-- What stands behind blanks, line breaks and comments. -/
def skip (comment : Bool) : List Spot → List Spot
  | [] => []
  | s :: rest =>
    if isBreak s.char then skip false rest
    else if comment || s.char = '#' then skip true rest
    else if s.char = ' ' then skip false rest
    else s :: rest

/-- The next token, behind what separates tokens. -/
def next (t : List Spot) : List Spot := skip false t

/-- A word ends here. -/
def atSeparator : List Spot → Bool
  | [] => true
  | s :: _ => isSeparator s.char

/-- The line of a document that starts or ends it: three dashes or three
    points at the first column. -/
def atMarker : List Spot → Bool
  | a :: b :: c :: rest =>
    a.column = 0 && a.char = b.char && b.char = c.char && (a.char = '-' || a.char = '.')
      && atSeparator rest
  | _ => false

/-- A dash that starts an item of a list stands here. -/
def atDash : List Spot → Bool
  | s :: rest => s.char = '-' && atSeparator rest
  | [] => false

/-! ### Gaps -/

/-- What stands between two words of a text: blanks, or line breaks with
    blanks around them. A single line break counts as a blank, further ones
    are part of the text. -/
inductive Gap
  /-- Blanks within a line. -/
  | blanks (t : Text)
  /-- Line breaks: what they amount to if there is only one, what the first
      one amounts to if there are more, and the others. -/
  | broken (single first others : Text)
  deriving DecidableEq, Repr

namespace Gap

/-- Nothing. -/
def empty : Gap := .blanks []

/-- What a line break is as part of a text. -/
def breakText (c : Char) : Text :=
  if c = '\u2028' || c = '\u2029' then [c] else ['\n']

/-- The text of a gap. -/
def text : Gap → Text
  | .blanks t => t
  | .broken single first others => if others = [] then single else first ++ others

/-- A gap with one more blank. Blanks around line breaks say nothing. -/
def blank (c : Char) : Gap → Gap
  | .blanks t => .blanks (t ++ [c])
  | gap => gap

/-- A gap with one more line break. -/
def lineBreak (c : Char) : Gap → Gap
  | .blanks _ =>
    match breakText c with
    | ['\n'] => .broken [' '] [] []
    | t => .broken t t []
  | .broken single first others => .broken single first (others ++ breakText c)

/-- The gap after a line break that was cancelled. -/
def cancelled : Gap := .broken [] [] []

end Gap

end Yaml

end MarkdownOutlets
