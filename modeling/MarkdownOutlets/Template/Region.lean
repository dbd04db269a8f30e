import MarkdownOutlets.Text.Blank

/-! # Protected regions

  Code blocks of a Markdown document, in which outlet markers are text like
  any other. A text is read line by line, and a line is in one of three
  states: outside of any block, inside a fenced block, or inside an indented
  block.

  - A *fence line* starts with at least three backticks or at least three
    tildes; the longest such run is its delimiter. It opens a fenced block,
    which ends with the next fence line of the same delimiter, or with the
    text.
  - Outside of fenced blocks, a line that starts with four spaces or a tab,
    and is not blank, opens an indented block. The block goes on over blank
    lines and lines so indented, and ends before any other line.
-/

namespace MarkdownOutlets

/-! ### Lines -/

/-- A line of a text: where it starts, and its characters without the line
    break. -/
structure Line where
  /-- Offset of the first character. -/
  start : Nat
  /-- The characters up to the line break. -/
  content : Text
  deriving DecidableEq, Repr

namespace Line

/-- Offset of the line break that ends the line, or of the end of the text. -/
def stop (l : Line) : Nat := l.start + l.content.length

/-- A line of white space only. -/
def isBlank (l : Line) : Bool := l.content.isBlankText

/-- A line that starts with four spaces or with a tab. -/
def isIndented (l : Line) : Bool :=
  match l.content with
  | '\t' :: _ => true
  | ' ' :: ' ' :: ' ' :: ' ' :: _ => true
  | _ => false

/-- The longest run of `mark` at the start of a text, when it has at least
    three characters. -/
def run? (mark : Char) (t : Text) : Option Text :=
  let run := t.takeWhile (· == mark)
  if 3 ≤ run.length then some run else none

/-- The delimiter of a fence line. -/
def fence? (l : Line) : Option Text :=
  (run? '\x60' l.content).or (run? '~' l.content)

/-- The given lines, the first of which starts at `start`. -/
def number (start : Nat) : List Text → List Line
  | [] => []
  | content :: rest => ⟨start, content⟩ :: number (start + content.length + 1) rest

/-- The lines of a text. -/
def ofText (t : Text) : List Line := number 0 (Text.split '\n' t)

end Line

/-! ### Regions -/

/-- The two kinds of code block. -/
inductive RegionKind
  /-- Between two fence lines. -/
  | fenced
  /-- A run of indented lines. -/
  | indented
  deriving DecidableEq, Repr

/-- A span of a text in which markers are not outlets. -/
structure Region where
  /-- Offset of the first protected character. -/
  start : Nat
  /-- Offset behind the last protected character. -/
  stop : Nat
  /-- What makes the span a code block. -/
  kind : RegionKind
  deriving DecidableEq, Repr

namespace Region

/-- The region holds every character of the span from `start` to `stop`. -/
def contains (r : Region) (start stop : Nat) : Bool :=
  r.start ≤ start && stop ≤ r.stop

/-- What the lines read so far leave open. -/
inductive Block
  /-- No block. -/
  | outside
  /-- A fenced block that started at `start` with the given delimiter. -/
  | fenced (start : Nat) (delimiter : Text)
  /-- An indented block that started at `start`. -/
  | indented (start : Nat)
  deriving DecidableEq, Repr

/-- The block that a line opens when no block is open. -/
def Block.opened (l : Line) : Block :=
  match l.fence? with
  | some delimiter => .fenced l.start delimiter
  | none => if l.isIndented && !l.isBlank then .indented l.start else .outside

/-- One line: the regions that it closes, and the block that is open behind
    it. -/
def Block.next (l : Line) : Block → List Region × Block
  | .outside => ([], .opened l)
  | .fenced start delimiter =>
    if l.fence? = some delimiter then ([⟨start, l.stop, .fenced⟩], .outside)
    else ([], .fenced start delimiter)
  | .indented start =>
    if l.isIndented || l.isBlank then ([], .indented start)
    else ([⟨start, l.start, .indented⟩], .opened l)

/-- The region that the end of the text closes. -/
def Block.finish (stop : Nat) : Block → List Region
  | .outside => []
  | .fenced start _ => [⟨start, stop, .fenced⟩]
  | .indented start => [⟨start, stop, .indented⟩]

/-- The regions of the given lines, when `block` is open before them and `stop`
    is the end of the text. -/
def scan (stop : Nat) : Block → List Line → List Region
  | block, [] => block.finish stop
  | block, l :: rest =>
    let (closed, after) := block.next l
    closed ++ scan stop after rest

/-- The protected regions of a text, in order. -/
def ofText (t : Text) : List Region := scan t.length .outside (Line.ofText t)

end Region

end MarkdownOutlets
