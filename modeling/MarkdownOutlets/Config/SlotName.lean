import MarkdownOutlets.Text.Basic

/-! # Slot names

  The names that slots may have in a configuration and on the command line.
-/

namespace MarkdownOutlets

namespace Config

/-- The rule for slot names, as messages and the schema write it. -/
def slotNamePattern : Text := "^[A-Za-z0-9_-]+$".toList

/-- A character of a slot name: an ASCII letter or digit, a hyphen or an
    underscore. -/
def isSlotNameChar (c : Char) : Bool := c.isAlphanum || c == '-' || c == '_'

/-- A text follows the rule for slot names. The end of the pattern is also
    found before a line feed that ends the text. -/
def isSlotName (t : Text) : Bool :=
  let name := t.dropFinalNewline
  name ≠ [] && name.all isSlotNameChar

end Config

end MarkdownOutlets
