import MarkdownOutlets.Data.Value

/-! # Composition options

  How sources are found, how deep they may be nested, and which problems end
  a composition. Each choice has a word, by which callers select it.
-/

namespace MarkdownOutlets

/-! ### Choices -/

/-- What the paths in a document are relative to. -/
inductive ResolveFrom
  /-- The base path, or the working directory. -/
  | cwd
  /-- The directory of the enclosing source. -/
  | file
  deriving DecidableEq, Repr

/-- What happens to an outlet without a slot value. -/
inductive OnMissingSlot
  /-- The composition ends. -/
  | error
  /-- The marker is removed. -/
  | ignore
  /-- The marker stays. -/
  | keep
  deriving DecidableEq, Repr

/-- What happens when a source cannot be read. -/
inductive OnFileError
  /-- The composition ends. -/
  | throw
  /-- The source counts as empty. -/
  | warnEmpty
  deriving DecidableEq, Repr

/-- The words for `ResolveFrom`. -/
def ResolveFrom.words : List (Text × ResolveFrom) :=
  [("cwd".toList, .cwd), ("file".toList, .file)]

/-- The words for `OnMissingSlot`. -/
def OnMissingSlot.words : List (Text × OnMissingSlot) :=
  [("error".toList, .error), ("ignore".toList, .ignore), ("keep".toList, .keep)]

/-- The words for `OnFileError`. -/
def OnFileError.words : List (Text × OnFileError) :=
  [("throw".toList, .throw), ("warn-empty".toList, .warnEmpty)]

/-- The word for a choice. -/
def ResolveFrom.word : ResolveFrom → Text
  | .cwd => "cwd".toList
  | .file => "file".toList

/-- The word for a choice. -/
def OnMissingSlot.word : OnMissingSlot → Text
  | .error => "error".toList
  | .ignore => "ignore".toList
  | .keep => "keep".toList

/-- The word for a choice. -/
def OnFileError.word : OnFileError → Text
  | .throw => "throw".toList
  | .warnEmpty => "warn-empty".toList

/-! ### Options -/

/-- Where the texts of sources are kept. -/
inductive CacheChoice
  /-- In the cache that the caller shares between compositions. -/
  | shared
  /-- In a mapping with the given entries at the start, which ends with the
      composition. -/
  | own (entries : Entries)
  deriving Repr

/-- Options of a composition. -/
structure Options where
  /-- The directory that paths are relative to, unless they are relative to
      the enclosing source. -/
  basePath : Option Text := none
  /-- What paths are relative to. -/
  resolveFrom : ResolveFrom := .cwd
  /-- How many sources may be nested. -/
  maxDepth : Nat := 10
  /-- What happens to an outlet without a slot value. -/
  onMissingSlot : OnMissingSlot := .keep
  /-- What happens when a source cannot be read. -/
  onFileError : OnFileError := .warnEmpty
  /-- Where texts of sources are kept, if anywhere. -/
  cache : Option CacheChoice := none
  /-- Whether the slots of a document are resolved side by side. -/
  parallel : Bool := false
  deriving Repr

end MarkdownOutlets
