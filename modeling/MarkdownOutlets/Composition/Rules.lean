import MarkdownOutlets.Document.Options
import MarkdownOutlets.Problem.Mismatch

/-! # Rules of a composition

  The options of a composition say what a caller wants. The rules say what
  that means at the points where a process has to decide. Options that
  nobody checked have rules as well, by which values of the wrong kind are
  met.
-/

namespace MarkdownOutlets

/-- How a process uses the cache. -/
inductive CacheUse
  /-- Not at all. -/
  | none
  /-- It looks up every source, and lets the cache hold what it reads. -/
  | mapping
  /-- It cannot: to look up a path may fail, and to let the cache hold a text
      does. -/
  | unusable (look : Text → Option Mismatch) (store : Mismatch)

/-- What a process does at the points where it has a choice. -/
structure Rules where
  /-- How many sources may be nested. -/
  limit : Limit
  /-- What happens to an outlet without a slot value. -/
  onMissingSlot : OnMissingSlot
  /-- A source that cannot be read ends the composition. -/
  endsWithoutSource : Bool
  /-- A function that fails leaves an error marker. -/
  marksFailedCall : Bool
  /-- How the cache is used. -/
  cache : CacheUse
  /-- Whether the slots of a document are resolved side by side. -/
  parallel : Bool

/-- The rules of checked options. -/
def Rules.ofOptions (o : Options) : Rules where
  limit := .whole o.maxDepth
  onMissingSlot := o.onMissingSlot
  endsWithoutSource := o.onFileError = .throw
  marksFailedCall := o.onFileError = .throw
  cache := if o.cache.isSome then .mapping else .none
  parallel := o.parallel

end MarkdownOutlets
