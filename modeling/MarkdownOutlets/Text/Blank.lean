import MarkdownOutlets.Text.Basic

/-! # Blank characters

  The characters that count as white space: those with the Unicode property
  White_Space and the four information separators U+001C to U+001F.
-/

namespace MarkdownOutlets

/-- White space: the controls from tab to carriage return, the information
    separators, and the spaces and separators of Unicode. -/
def isBlank (c : Char) : Bool :=
  let n := c.toNat
  (0x09 ≤ n && n ≤ 0x0d) || (0x1c ≤ n && n ≤ 0x20) || n == 0x85 || n == 0xa0
    || n == 0x1680 || (0x2000 ≤ n && n ≤ 0x200a) || n == 0x2028 || n == 0x2029
    || n == 0x202f || n == 0x205f || n == 0x3000

namespace Text

/-- A text of white space only, such as the empty one. -/
def isBlankText (t : Text) : Bool := t.all isBlank

end Text

end MarkdownOutlets
