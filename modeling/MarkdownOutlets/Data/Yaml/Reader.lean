import MarkdownOutlets.Data.Yaml.Node

/-! # Reading YAML

  A document is a node: a text or another atom, a list or a mapping.
  Collections are written between brackets, or as lines: a mapping as keys at
  one column, a list as dashes at one column. What belongs to a key or a dash
  stands on the same line, or at greater columns on the lines below; the
  dashes of a list may stand at the column of the key that it belongs to.

  Tags, anchors, directives and block texts are not read.
-/

namespace MarkdownOutlets

namespace Yaml

/-- A node, and what follows. -/
abbrev Reading := Except Stop (Node × List Spot)

/-! ### Tokens -/

/-- A text in quotes of either kind, if one starts here. -/
def quotedText? : List Spot → Option (Except Stop (Text × List Spot))
  | [] => none
  | s :: rest =>
    if s.char = '"' then some (doubleQuoted rest)
    else if s.char = '\'' then some (singleQuoted .empty rest)
    else none

/-- An atom. The words of a plain text on further lines stand at least at
    the given column, or between brackets. -/
def readAtom (bracketed : Bool) (least : Nat) (t : List Spot) : Reading :=
  match quotedText? t, t with
  | some read, _ => read.map fun r => (.quoted r.1, r.2)
  | none, s :: rest =>
    if startsPlain bracketed t then
      let (words, after) := plain bracketed least .empty rest rest
      .ok (.plain (s.char :: words), after)
    else stop .unexpected t
  | none, [] => stop .unterminated []

/-- Greatest distance of a colon from the start of the key before it. -/
def maxKeyLength : Nat := 1024

/-- What follows a key that starts at `start`: the colon stands on the same
    line as the start of the key and not too far from it, and `rest` is
    behind the key. -/
def afterColon? (bracketed : Bool) (start rest : List Spot) : Option (List Spot) :=
  match start, next rest with
  | s :: _, c :: after =>
    let colon := if bracketed then c.char = ':' else atColon false (c :: after)
    if colon && c.line = s.line && c.offset ≤ s.offset + maxKeyLength then some after else none
  | _, _ => none

/-- The line of the next character, if there is one. -/
def line? (t : List Spot) : Option Nat := t.head?.map (·.line)

/-- A token starts here on a line of its own, behind a node that ended at
    `rest`. -/
def isFresh (rest t : List Spot) : Bool := line? rest ≠ line? t

/-! ### Nodes between brackets -/

/-- The next character, if there is one. -/
def char? (t : List Spot) : Option Char := t.head?.map (·.char)

mutual

/-- A node between brackets. Each nested call has less fuel. -/
def bracketedNode : (fuel : Nat) → List Spot → Reading
  | 0, t => stop .unexpected t
  | _ + 1, [] => stop .unterminated []
  | fuel + 1, s :: rest =>
    if atMarker (s :: rest) then stop .unexpected (s :: rest)
    else if s.char = '[' then
      (bracketedItems fuel (next rest)).map fun r => (.list r.1, r.2)
    else if s.char = '\x7b' then
      (bracketedEntries fuel (next rest)).map fun r => (.mapping r.1, r.2)
    else readAtom true 0 (s :: rest)

/-- What follows a colon between brackets: a node, or null before a comma or
    the closing bracket. -/
def bracketedValue : (fuel : Nat) → (closing : Char) → List Spot → Reading
  | 0, _, t => stop .unexpected t
  | fuel + 1, closing, t =>
    let t := next t
    if char? t = some ',' || char? t = some closing then .ok (.absent, t) else bracketedNode fuel t

/-- The items of a list up to its closing bracket. A single entry may stand
    for the mapping that holds it. -/
def bracketedItems : (fuel : Nat) → List Spot → Except Stop (List Node × List Spot)
  | 0, t => stop .unexpected t
  | fuel + 1, t => do
    if char? t = some ']' then return ([], t.tail)
    let (node, rest) ← bracketedNode fuel t
    let (item, rest) ← (do
      match afterColon? true t rest with
      | none => return (node, rest)
      | some afterColon =>
        let (value, rest) ← bracketedValue fuel ']' afterColon
        return (.mapping [(node, value)], rest) : Reading)
    let rest := next rest
    if char? rest = some ']' then return ([item], rest.tail)
    else if char? rest = some ',' then
      let (items, after) ← bracketedItems fuel (next rest.tail)
      return (item :: items, after)
    else if rest = [] then stop .unterminated []
    else stop .expectedComma rest

/-- The entries of a mapping up to its closing bracket. A key without a
    colon has the value null. -/
def bracketedEntries : (fuel : Nat) → List Spot → Except Stop (List (Node × Node) × List Spot)
  | 0, t => stop .unexpected t
  | fuel + 1, t => do
    if char? t = some '\x7d' then return ([], t.tail)
    let (key, rest) ← bracketedNode fuel t
    let (value, rest) ← (
      match afterColon? true t rest with
      | none => .ok (.absent, rest)
      | some afterColon => bracketedValue fuel '\x7d' afterColon : Reading)
    let rest := next rest
    if char? rest = some '\x7d' then return ([(key, value)], rest.tail)
    else if char? rest = some ',' then
      let (entries, after) ← bracketedEntries fuel (next rest.tail)
      return ((key, value) :: entries, after)
    else if rest = [] then stop .unterminated []
    else stop .expectedComma rest

end

/-! ### Nodes on lines -/

/-- A node behind a key or a marker on the same line, which starts no lines
    of its own. -/
def inlineNode (fuel least : Nat) (t : List Spot) : Reading :=
  match char? t with
  | some '[' | some '\x7b' => bracketedNode fuel t
  | _ => readAtom false least t

/-- The key of an entry, and what follows its colon. -/
def entryKey (fuel column : Nat) (t : List Spot) : Reading := do
  let (node, rest) ← inlineNode fuel (column + 1) t
  match afterColon? false t rest with
  | none => stop .expectedColon rest
  | some afterColon => return (node, afterColon)

mutual

/-- A node at the start of a line, or behind a dash. Words of a plain text
    on further lines stand at least at the given column. -/
def node : (fuel least : Nat) → List Spot → Reading
  | 0, _, t => stop .unexpected t
  | _ + 1, _, [] => stop .unterminated []
  | fuel + 1, least, s :: rest => do
    if atDash (s :: rest) then
      let (items, after) ← items fuel s.column rest
      return (.list items, after)
    let (node, after) ← inlineNode fuel least (s :: rest)
    match afterColon? false (s :: rest) after with
    | none => return (node, after)
    | some afterColon =>
      let (entries, after) ← entries fuel s.column node afterColon
      return (.mapping entries, after)

/-- The items of a list with dashes at a column, from behind the first
    dash. -/
def items : (fuel column : Nat) → List Spot → Except Stop (List Node × List Spot)
  | 0, _, t => stop .unexpected t
  | fuel + 1, column, t => do
    let start := next t
    let (item, rest) ← (
      match start with
      | [] => .ok (.absent, t)
      | s :: _ =>
        if atMarker start || (isFresh t start && s.column ≤ column) then .ok (.absent, t)
        else node fuel (column + 1) start : Reading)
    let more := next rest
    match more with
    | [] => return ([item], rest)
    | s :: after =>
      if s.column = column && atDash more && isFresh rest more then
        let (items, rest) ← items fuel column after
        return (item :: items, rest)
      else if column < s.column then stop .unexpected more
      else return ([item], rest)

/-- The entries of a mapping with keys at a column, from behind the colon of
    the first key. -/
def entries : (fuel column : Nat) → (key : Node) → List Spot →
    Except Stop (List (Node × Node) × List Spot)
  | 0, _, _, t => stop .unexpected t
  | fuel + 1, column, key, t => do
    let start := next t
    let (value, rest) ← (
      match start with
      | [] => .ok (.absent, t)
      | s :: after =>
        if atMarker start then .ok (.absent, t)
        else if !isFresh t start then inlineNode fuel (column + 1) start
        else if column < s.column then node fuel (column + 1) start
        else if s.column = column && atDash start then
          (items fuel column after).map fun r => (.list r.1, r.2)
        else .ok (.absent, t) : Reading)
    let more := next rest
    match more with
    | [] => return ([(key, value)], rest)
    | s :: _ =>
      if atMarker more || s.column < column then return ([(key, value)], rest)
      else if s.column = column && isFresh rest more then
        let (nextKey, afterColon) ← entryKey fuel column more
        let (entries, rest) ← entries fuel column nextKey afterColon
        return ((key, value) :: entries, rest)
      else stop .unexpected more

end

/-! ### Documents -/

/-- Nothing but marks of the end of the document follows. -/
def atEnd : (fuel : Nat) → List Spot → Bool
  | 0, _ => false
  | fuel + 1, t =>
    match next t with
    | [] => true
    | s :: rest => s.char = '.' && atMarker (s :: rest) && atEnd fuel (rest.drop 2)

/-- The root node of a document, and what follows. The mark of the start may
    be left out. An empty document is null. -/
def root (fuel : Nat) (t : List Spot) : Reading :=
  match next t with
  | [] => .ok (.absent, [])
  | s :: rest =>
    if atMarker (s :: rest) && s.char = '-' then
      let after := rest.drop 2
      match next after with
      | [] => .ok (.absent, [])
      | start =>
        if atMarker start then .ok (.absent, after)
        else if isFresh [s] start then node fuel 0 start
        else inlineNode fuel 0 start
    else if atMarker (s :: rest) then stop .unexpected (s :: rest)
    else node fuel 0 (s :: rest)

/-- The root node of a whole text. -/
def readNode (t : Text) : Except Stop Node := do
  let t := spots t
  let fuel := 4 * t.length + 4
  let (node, rest) ← root fuel t
  if atEnd fuel rest then return node else stop .extraText rest

/-- The root node of a whole text that holds nothing but characters of
    documents. -/
def read (t : Text) : Except Stop Node :=
  if t.all isDocumentChar then readNode t
  else .error { fault := .malformed .unprintable, left := t.length }

/-- The value that a whole text denotes. -/
def parse (t : Text) : Except Fault Value :=
  match read t with
  | .error s => .error s.fault
  | .ok node => node.toValue

end Yaml

end MarkdownOutlets
