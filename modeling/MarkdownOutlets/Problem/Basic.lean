import MarkdownOutlets.Tracker.Limit

/-! # Problems

  What can go wrong while a document is composed. A problem is recorded, and
  something else stands in its place in the composed text; only a strict
  policy makes it end the composition.
-/

namespace MarkdownOutlets

/-! ### Kinds -/

/-- The kinds of problem. -/
inductive ProblemKind
  /-- An outlet for which no slot value is given. -/
  | missingSlot
  /-- A source that is absent or cannot be read. -/
  | source
  /-- A source that is needed for its own text. -/
  | cycle
  /-- Sources nested deeper than allowed. -/
  | depth
  /-- A function that failed or produced no text. -/
  | callback
  deriving DecidableEq, Repr

namespace ProblemKind

/-- All kinds, in the order in which they are listed. -/
def all : List ProblemKind := [.missingSlot, .source, .cycle, .depth, .callback]

/-- The word for a kind in records and logs. -/
def word : ProblemKind → Text
  | .missingSlot => "missing-slot".toList
  | .source => "source-error".toList
  | .cycle => "cycle".toList
  | .depth => "max-depth".toList
  | .callback => "callback-error".toList

/-- The kind of a word. -/
def ofWord? (w : Text) : Option ProblemKind := all.find? fun k => k.word = w

/-- A word has a kind if it is the word for it. -/
theorem ofWord?_eq_some {w : Text} {k : ProblemKind} : ofWord? w = some k ↔ k.word = w := by
  constructor
  · intro found
    unfold ofWord? at found
    simpa using List.find?_some found
  · rintro rfl
    cases k <;> rfl

end ProblemKind

/-! ### Causes -/

/-- Why the text of a source could not be obtained. -/
inductive SourceFault
  /-- There is no source at the path. -/
  | missing (path : Text)
  /-- The source may not be read. -/
  | forbidden (path : Text)
  /-- Reading the source failed for the given reason. -/
  | unreadable (path reason : Text)
  /-- A fault that the provider of sources reported in its own words, with
      the path if it named one. -/
  | reported (message : Text) (path : Option Text)
  deriving DecidableEq, Repr

namespace SourceFault

/-- The wording of a fault. -/
def message : SourceFault → Text
  | .missing path => "File not found: ".toList ++ path
  | .forbidden path => "Permission denied reading file: ".toList ++ path
  | .unreadable path reason => "Failed to read file ".toList ++ path ++ ": ".toList ++ reason
  | .reported message _ => message

/-- The path that the fault is about. -/
def path? : SourceFault → Option Text
  | .missing path => some path
  | .forbidden path => some path
  | .unreadable path _ => some path
  | .reported _ path => path

end SourceFault

/-- Why a function produced no text. -/
inductive CallbackFault
  /-- It failed for the given reason. -/
  | failed (reason : Text)
  /-- It produced a value of another kind. -/
  | notText (kindName : Text)
  deriving DecidableEq, Repr

/-- The wording of a fault. -/
def CallbackFault.message : CallbackFault → Text
  | .failed reason => "Function execution failed: ".toList ++ reason
  | .notText kindName => "Function execution failed: expected str, got ".toList ++ kindName

/-! ### Problems -/

/-- A problem with its cause. -/
inductive Problem
  /-- No value is given for an outlet of the document read from the path, if
      any. -/
  | missingSlot (name : Text) (document : Option Text)
  /-- The text of a source could not be obtained. -/
  | source (fault : SourceFault)
  /-- The path is needed for its own text; `loop` is the chain of sources
      from its first use on. -/
  | cycle (loop : List Text) (path : Text)
  /-- The path would nest deeper than `limit` within the chain of sources. -/
  | depth (chain : List Text) (limit : Limit) (path : Text)
  /-- A function for an outlet of the document read from the path, if any,
      produced no text. -/
  | callback (fault : CallbackFault) (document : Option Text)
  deriving DecidableEq, Repr

namespace Problem

/-- The kind of a problem. -/
def kind : Problem → ProblemKind
  | .missingSlot .. => .missingSlot
  | .source _ => .source
  | .cycle .. => .cycle
  | .depth .. => .depth
  | .callback .. => .callback

/-- Paths in the order in which they lead to each other. -/
def arrows (paths : List Text) : Text := Text.join " -> ".toList paths

/-- The wording of a problem. -/
def message : Problem → Text
  | .missingSlot name _ => "Missing slot: ".toList ++ name
  | .source fault => fault.message
  | .cycle loop path => "Circular dependency detected: ".toList ++ arrows (loop ++ [path])
  | .depth chain limit path =>
    "Maximum composition depth of ".toList ++ limit.toScalar.quoted
      ++ " exceeded. Current stack: ".toList ++ arrows (chain ++ [path])
  | .callback fault _ => fault.message

/-- The path of the source that the problem is about. -/
def path? : Problem → Option Text
  | .missingSlot _ document => document
  | .source fault => fault.path?
  | .cycle _ path => some path
  | .depth _ _ path => some path
  | .callback _ document => document

/-- What the problem says beside its wording. -/
def details : Problem → Entries
  | .missingSlot name _ => [(.text "slot".toList, .text name)]
  | .cycle loop path => [(.text "cycle".toList, .list ((loop ++ [path]).map .text))]
  | .depth chain limit _ =>
    [(.text "stack".toList, .list (chain.map .text)), (.text "max_depth".toList, .scalar limit.toScalar)]
  | _ => []

end Problem

/-! ### Records -/

/-- What is kept of a problem in the result of a composition. -/
structure Record where
  /-- The kind of the problem. -/
  kind : ProblemKind
  /-- Its wording. -/
  message : Text
  /-- The path of the source that it is about. -/
  path : Option Text
  deriving DecidableEq, Repr

/-- The record of a problem. -/
def Problem.record (p : Problem) : Record :=
  { kind := p.kind, message := p.message, path := p.path? }

/-- A record as data. -/
def Record.toValue (r : Record) : Value :=
  .object
    ([("kind", .text r.kind.word), ("message", .text r.message)]
      ++ (r.path.map fun path => ("source_path", .text path)).toList)

/-- What stands in a text in place of content that a problem kept away. -/
def errorMarker (message : Text) : Text :=
  "<!-- ERROR: ".toList ++ message ++ " -->".toList

end MarkdownOutlets
