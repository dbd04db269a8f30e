import MarkdownOutlets.Text.Printable

/-! # Quoted text

  Texts in messages stand between quotation marks: apostrophes, unless the
  text holds an apostrophe and no double quote. The mark itself, the
  backslash, and what does not show are written as escapes.
-/

namespace MarkdownOutlets

namespace Text

/-- The mark around a text: a double quote only where that saves escapes. -/
def quoteMark (t : Text) : Char :=
  if t.contains '\'' && !t.contains '"' then '"' else '\''

/-- A character between two marks. -/
def escape (mark c : Char) : Text :=
  if c = mark || c = '\\' then ['\\', c]
  else if c = '\n' then ['\\', 'n']
  else if c = '\r' then ['\\', 'r']
  else if c = '\t' then ['\\', 't']
  else if isPrintable c then [c]
  else if c.toNat < 0x100 then '\\' :: 'x' :: hex 2 c.toNat
  else if c.toNat < 0x10000 then '\\' :: 'u' :: hex 4 c.toNat
  else '\\' :: 'U' :: hex 8 c.toNat

/-- A text between quotation marks. -/
def quoted (t : Text) : Text :=
  let mark := quoteMark t
  mark :: t.flatMap (escape mark) ++ [mark]

end Text

end MarkdownOutlets
