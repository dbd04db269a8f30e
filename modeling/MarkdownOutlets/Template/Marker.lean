import MarkdownOutlets.Text.Blank

/-! # Outlet markers

  A marker is an HTML comment that names an outlet:

      <!-- outlet: name -->      <!-- slot: name -->

  White space, line breaks included, may stand around the keyword, the colon
  and the name. The keyword is matched without regard to case, and a name is
  a run of letters, digits, hyphens and underscores. A hyphen may belong to
  the name or to the closing `-->`, so the name is the longest run that
  leaves a closing.
-/

namespace MarkdownOutlets

namespace Marker

/-! ### Characters -/

/-- Simple case folding, restricted to the characters that fold to an ASCII
    letter: the capital letters, the dotted capital and the dotless small i,
    the long s, and the Kelvin sign. -/
def fold (c : Char) : Char :=
  if c = 'İ' || c = 'ı' then 'i'
  else if c = 'ſ' then 's'
  else if c = '\u212a' then 'k'
  else c.toLower

/-- The characters of an outlet name: those that fold to an ASCII letter,
    the ASCII digits, the hyphen and the underscore. -/
def isNameChar (c : Char) : Bool :=
  (fold c).isAlphanum || c == '-' || c == '_'

/-- The keywords that may open a marker. -/
def keywords : List Text :=
  [['o', 'u', 't', 'l', 'e', 't'], ['s', 'l', 'o', 't']]

/-! ### Reading -/

/-- What stands behind the given word, read without regard to case. -/
def dropWord? : (word text : Text) → Option Text
  | [], text => some text
  | _ :: _, [] => none
  | w :: word, c :: cs => if fold c = w then dropWord? word cs else none

/-- What stands behind one of the keywords. -/
def dropKeyword? (t : Text) : Option Text :=
  keywords.firstM fun word => dropWord? word t

/-- The name at the start of a text, and what follows the closing `-->`.
    White space ends the name; without it, the last two characters of the
    run of name characters are the hyphens of the closing. -/
def nameAndRest? (t : Text) : Option (Text × Text) :=
  let run := t.takeWhile isNameChar
  match t.dropWhile isNameChar with
  | '>' :: rest =>
    let name := run.take (run.length - 2)
    if name ≠ [] ∧ run = name ++ ['-', '-'] then some (name, rest) else none
  | after =>
    if run = [] then none
    else (Text.dropStart? ['-', '-', '>'] (after.dropWhile isBlank)).map (run, ·)

/-- The name in the marker at the start of a text, and what follows the
    marker. -/
def read? (t : Text) : Option (Text × Text) := do
  let inside ← Text.dropStart? ['<', '!', '-', '-'] t
  let afterKeyword ← dropKeyword? (inside.dropWhile isBlank)
  let afterColon ← Text.dropStart? [':'] (afterKeyword.dropWhile isBlank)
  nameAndRest? (afterColon.dropWhile isBlank)

end Marker

/-! ### Occurrences -/

/-- A marker found in a text. -/
structure Occurrence where
  /-- The outlet that it names. -/
  name : Text
  /-- Offset of its first character. -/
  start : Nat
  /-- Offset behind its last character. -/
  stop : Nat
  /-- The marker as it stands in the text. -/
  marker : Text
  deriving DecidableEq, Repr

namespace Occurrence

/-- The markers of a text that starts at offset `pos`, where the first
    `skip` characters belong to a marker found before. -/
def scan : (skip pos : Nat) → Text → List Occurrence
  | _, _, [] => []
  | skip + 1, pos, _ :: cs => scan skip (pos + 1) cs
  | 0, pos, c :: cs =>
    match Marker.read? (c :: cs) with
    | some (name, rest) =>
      let length := (c :: cs).length - rest.length
      ⟨name, pos, pos + length, (c :: cs).take length⟩ :: scan (length - 1) (pos + 1) cs
    | none => scan 0 (pos + 1) cs

/-- The markers of a text, from left to right. -/
def ofText (t : Text) : List Occurrence := scan 0 0 t

end Occurrence

end MarkdownOutlets
