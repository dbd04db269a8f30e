import MarkdownOutlets.Composition.Session
import MarkdownOutlets.Document.Reading
import MarkdownOutlets.Document.OptionsReading

/-! # Composing

  The entry points: a document and options as the caller gives them are
  checked, and only then is the document composed. One of them lets the caller
  wait for the composition; the other one does not, and cannot be called where
  a loop of waiting tasks runs.
-/

namespace MarkdownOutlets

/-- Why a composition has no result. -/
inductive Refusal
  /-- The document or the options are malformed. Nothing was asked. -/
  | invalid (reason : Invalid)
  /-- The composition ended before its text was complete. -/
  | fault (f : Fault)
  deriving DecidableEq, Repr

/-- A fault as callers see it who look for failures; a mismatch, unless it is
    reported as one. -/
def Fault.failure : Fault → Except Mismatch Failure
  | .problem p => .ok p.failure
  | .mismatch m =>
    match m.failure? with
    | some f => .ok f
    | none => .error m

/-- A refusal as callers see it who look for failures. -/
def Refusal.failure : Refusal → Except Mismatch Failure
  | .invalid reason => .ok reason.failure
  | .fault f => f.failure

/-- Why a call has no result that does not let the caller wait. -/
inductive CallFault
  /-- The composition has none. -/
  | refusal (r : Refusal)
  /-- It was made where a loop runs. -/
  | insideLoop
  deriving DecidableEq, Repr

/-- The wording of a fault. -/
def CallFault.message : CallFault → Text
  | .refusal r =>
    match r.failure with
    | .ok f => f.message
    | .error m => m.message
  | .insideLoop =>
    "compose() called inside a running event loop; use 'await compose_async()'".toList

/-- What remains when a composition is over. -/
structure Aftermath where
  /-- The cache that the caller shares between compositions. -/
  shared : Cache
  /-- The requests of the composition. -/
  journal : List Request
  deriving Repr

/-- The cache with which a composition starts. -/
def CacheChoice.initial (choice : Option CacheChoice) (shared : Cache) : Cache :=
  match choice with
  | none => []
  | some .shared => shared
  | some (.own entries) => entries

/-- What a finished session leaves behind. Only a composition that uses the
    shared cache changes it. -/
def CacheChoice.aftermath (choice : Option CacheChoice) (shared : Cache) (s : Session) :
    Aftermath :=
  match choice with
  | some .shared => { shared := s.cache, journal := s.journal }
  | _ => { shared, journal := s.journal }

namespace Host

variable {m : Type → Type} [Monad m]

/-- Runs the process of a document with the cache of its choice. -/
def composeWith (h : Host m) (p : Process) (choice : Option CacheChoice) (shared : Cache) :
    m (Except Fault Composition × Aftermath) := do
  let (outcome, s) ← (h.run p).run (.start (CacheChoice.initial choice shared))
  return (Composition.ofRun outcome s, CacheChoice.aftermath choice shared s)

/-- Composes a document that needs no check. -/
def composeDocument (h : Host m) (d : Document) (o : Options) (shared : Cache) :
    m (Except Fault Composition × Aftermath) :=
  h.composeWith (Engine.document h.resolve o d) o.cache shared

/-- The document and the options of a request, checked in this order. -/
def checkInput (node options : Value) : Except Invalid (Document × Options) := do
  let document ← Document.check node
  let options ← Options.check options
  return (document, options)

/-- Composes a document as the caller gives it. -/
def composeValues (h : Host m) (node options : Value) (shared : Cache) :
    m (Except Refusal Composition × Aftermath) :=
  match checkInput node options with
  | .error reason => return (.error (.invalid reason), { shared, journal := [] })
  | .ok (document, options) => do
    let (result, aftermath) ← h.composeDocument document options shared
    return (result.mapError .fault, aftermath)

/-- Composes a document as a caller gives it who does not wait. Where a loop
    runs, nothing follows the checks. -/
def composeCall (h : Host m) (inLoop : Bool) (node options : Value) (shared : Cache) :
    m (Except CallFault Composition × Aftermath) :=
  match checkInput node options, inLoop with
  | .ok _, true => return (.error .insideLoop, { shared, journal := [] })
  | _, _ => do
    let (result, aftermath) ← h.composeValues node options shared
    return (result.mapError .refusal, aftermath)

end Host

end MarkdownOutlets
