import MarkdownOutlets.Composition.Engine
import MarkdownOutlets.Source.Cache

/-! # Sessions

  A process is run against a host, which provides the sources and the
  functions of the caller, and a cache. The host answers in a monad of its
  own: it may have a state, so that an answer may depend on what was asked
  before, or be a program over files.

  A run keeps a journal of all requests. The problems noted in it are the
  errors of the composition.
-/

namespace MarkdownOutlets

/-! ### Hosts -/

/-- The sources and functions that a composition may use. A fault is given by
    its wording. One that cannot be put into words is no answer: it ends the
    run of a host whose monad has such ends. -/
structure Host (m : Type → Type) where
  /-- The path of the source that a path means. -/
  resolve : Resolver
  /-- Is there a source at the path? -/
  probe : Text → m (Except ProviderFault Bool)
  /-- The text of the source at the path. -/
  read : Text → m (Except ProviderFault Text)
  /-- The result of a function, or the wording of why it failed. -/
  call : Callback → m (Except Text Content)

/-- The notes among some requests. -/
def notesOf (journal : List Request) : List Note :=
  journal.filterMap fun
    | .note n => some n
    | _ => none

/-- The problems noted among some requests. -/
def problemsOf (journal : List Request) : List Problem :=
  (notesOf journal).filterMap fun
    | .problem p => some p
    | _ => none

theorem problemsOf_append (first second : List Request) :
    problemsOf (first ++ second) = problemsOf first ++ problemsOf second := by
  simp [problemsOf, notesOf]

/-- The state of a run. -/
structure Session where
  /-- The cache. -/
  cache : Cache
  /-- The requests so far, the first one first. -/
  journal : List Request
  deriving Repr

namespace Session

/-- A session in which nothing was asked yet. -/
def start (cache : Cache) : Session := { cache, journal := [] }

/-- The session after one more request. -/
def log (s : Session) (request : Request) : Session :=
  { s with journal := s.journal ++ [request] }

/-- The problems noted so far. -/
def problems (s : Session) : List Problem := problemsOf s.journal

end Session

namespace Host

variable {m : Type → Type} [Monad m]

/-- The answer to a request. -/
def answer (h : Host m) (request : Request) : StateT Session m request.Answer :=
  fun s =>
    let s := s.log request
    match request with
    | .probe path => do return (← h.probe path, s)
    | .read path => do return (← h.read path, s)
    | .call c => do return (← h.call c, s)
    | .lookUp path => return (s.cache.held? path, s)
    | .remember path text => return ((), { s with cache := s.cache.remember path text })
    | .note _ => return ((), s)

/-- Runs a process from a session. -/
def run (h : Host m) (p : Process) : StateT Session m Outcome := p.run h.answer

/-- Composes a document. -/
def compose (h : Host m) (d : Document) (o : Options) : StateT Session m Outcome :=
  h.run (Engine.document h.resolve o d)

end Host

/-! ### Results -/

/-- A composed text and the problems met on the way. -/
structure Composition where
  /-- The text. -/
  text : Text
  /-- The problems, in the order in which they were met. -/
  errors : List Record
  deriving DecidableEq, Repr

namespace Composition

/-- The problems of one kind. -/
def errorsOf (c : Composition) (kind : ProblemKind) : List Record :=
  c.errors.filter fun r => r.kind = kind

theorem count_errorsOf (c : Composition) (r : Record) (kind : ProblemKind) :
    (c.errorsOf kind).count r = if r.kind = kind then c.errors.count r else 0 := by
  unfold errorsOf
  split
  · exact List.count_filter (decide_eq_true ‹_›)
  · refine List.count_eq_zero_of_not_mem fun mem => ?_
    exact absurd (of_decide_eq_true (List.mem_filter.mp mem).2) ‹_›

/-- Every problem is one of exactly one kind. -/
theorem errorsOf_perm (c : Composition) : (ProblemKind.all.flatMap c.errorsOf).Perm c.errors := by
  refine List.perm_iff_count.mpr fun r => ?_
  simp only [ProblemKind.all, List.flatMap_cons, List.flatMap_nil, List.count_append, count_errorsOf]
  cases r.kind <;> simp

/-- A composition as data. -/
def toFields (c : Composition) : List (String × Value) :=
  [("text", .text c.text), ("errors", .list (c.errors.map Record.toValue))]

/-- The composition that a run ended with. The outermost document always
    has a text. -/
def ofRun (outcome : Outcome) (s : Session) : Except Fault Composition :=
  outcome.map fun content =>
    { text := (content.bind Content.text?).getD [], errors := s.problems.map Problem.record }

end Composition

end MarkdownOutlets
