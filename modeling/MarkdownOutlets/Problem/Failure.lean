import MarkdownOutlets.Problem.Basic

/-! # Failures

  What callers see of an operation that did not end as it should: a class, a
  message and a context. Each cause of failure has one as its view.
-/

namespace MarkdownOutlets

/-- The classes of failure. -/
inductive FailureClass
  /-- A failure of no particular class. -/
  | general
  /-- Malformed input. -/
  | validation
  /-- A configuration that cannot be loaded. -/
  | config
  /-- A configuration that its schema refuses. -/
  | schema
  /-- A problem that ended a composition. -/
  | composition (kind : ProblemKind)
  deriving DecidableEq, Repr

namespace FailureClass

/-- All classes. -/
def all : List FailureClass :=
  [.general, .validation, .config, .schema] ++ ProblemKind.all.map .composition

/-- The word for a class in error reports. -/
def code : FailureClass → Text
  | .general => "MdSlotsError".toList
  | .validation => "ValidationError".toList
  | .config => "ConfigError".toList
  | .schema => "SchemaValidationError".toList
  | .composition .missingSlot => "MissingSlotError".toList
  | .composition .source => "SourceError".toList
  | .composition .cycle => "CycleError".toList
  | .composition .depth => "DepthExceededError".toList
  | .composition .callback => "CallbackError".toList

/-- The class of a word. -/
def ofCode? (code : Text) : Option FailureClass := all.find? fun c => c.code = code

/-- The kind of problem that a class stands for. -/
def kind? : FailureClass → Option ProblemKind
  | .composition kind => some kind
  | _ => none

end FailureClass

/-- A failure as callers see it. -/
structure Failure where
  /-- Its class. -/
  cls : FailureClass
  /-- Its wording. -/
  message : Text
  /-- Details by name. -/
  context : Entries
  /-- For a problem of composition, the path of the source concerned. -/
  path : Option Text
  deriving Repr

namespace Failure

/-- A failure with its details. The path of a problem of composition is one
    of its details, unless they already name one. -/
def make (cls : FailureClass) (message : Text) (context : Entries) (path : Option Text) : Failure :=
  match cls.kind?, path with
  | some _, some p =>
    let key : Scalar := .text "source_path".toList
    let context :=
      match context.get? key with
      | some _ => context
      | none => context ++ [(key, .text p)]
    { cls, message, context, path }
  | some _, none => { cls, message, context, path := none }
  | none, _ => { cls, message, context, path := none }

theorem cls_make (cls : FailureClass) (message : Text) (context : Entries) (path : Option Text) :
    (make cls message context path).cls = cls := by
  unfold make
  split <;> rfl

/-- A failure as an error report. -/
def toValue (f : Failure) : Value :=
  .object
    ([("message", .text f.message), ("code", .text f.cls.code), ("context", .dict f.context)]
      ++ (f.cls.kind?.map fun kind => ("kind", Value.text kind.word)).toList)

/-- What is kept of a failure in the result of a composition. -/
def record? (f : Failure) : Option Record :=
  f.cls.kind?.map fun kind => { kind, message := f.message, path := f.path }

end Failure

/-- The failure that ends a composition because of a problem. -/
def Problem.failure (p : Problem) : Failure :=
  .make (.composition p.kind) p.message p.details p.path?

/-- What is kept of the failure is the record of the problem. -/
theorem Problem.record?_failure (p : Problem) : p.failure.record? = some p.record := by
  unfold Problem.failure Failure.make Problem.record
  cases p.path? <;> rfl

end MarkdownOutlets
