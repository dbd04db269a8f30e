import MarkdownOutlets.Problem.Mismatch

/-! # Processes

  A composition is a process: a tree of requests to its surroundings, with a
  continuation for every answer. The requests are to probe and read sources,
  to call functions, to look into the cache and write to it, and to note
  what happened. A process may also have branches that run side by side.

  A process fixes what is asked and what follows from the answers. Who
  answers, and how the requests of branches are interleaved, is left to
  those who run it: `Process.run` finishes each branch before it starts the
  next one.
-/

namespace MarkdownOutlets

/-! ### Requests -/

/-- Why a provider gave no answer about a source. -/
inductive ProviderFault
  /-- A fault of the source. -/
  | source (fault : SourceFault)
  /-- Any other failure, in its own words. -/
  | other (reason : Text)
  deriving DecidableEq, Repr

/-- The fault of a source that a failure of its provider amounts to. -/
def ProviderFault.toSourceFault (path : Text) : ProviderFault → SourceFault
  | .source fault => fault
  | .other reason => .unreadable path reason

/-- What comes out of a source, a slot or a function. Only a cache, a
    function and a document that nobody checked can give anything but a
    text. -/
inductive Content
  /-- A text. -/
  | text (t : Text)
  /-- A value of another kind. -/
  | other (kindName : Text)
  deriving DecidableEq, Repr

namespace Content

/-- The text that some content is. -/
def text? : Content → Option Text
  | .text t => some t
  | .other _ => none

/-- The name of the kind of content that is no text. -/
def otherKind? : Content → Option Text
  | .text _ => none
  | .other kindName => some kindName

/-- A value as content. -/
def ofValue (v : Value) : Content :=
  match v.text? with
  | some t => .text t
  | none => .other v.kindName

end Content

/-- What a process notes about its course. -/
inductive Note
  /-- A problem was met. -/
  | problem (p : Problem)
  /-- A source joined the chain, which now has the given length. -/
  | entered (path : Text) (depth : Nat)
  /-- A source left the chain, which now has the given length. -/
  | left (path : Text) (depth : Nat)
  /-- The text of a source was found in the cache. -/
  | recalled (path : Text)
  /-- The outlets of a name are being resolved from here on. -/
  | opened (name : Text)
  /-- The outlets of a name were resolved, or that failed. -/
  | closed (name : Text)
  deriving DecidableEq, Repr

/-- What a process asks of its surroundings. -/
inductive Request
  /-- Is there a source at the path? -/
  | probe (path : Text)
  /-- The text of the source at the path. -/
  | read (path : Text)
  /-- The result of a function. -/
  | call (c : Callback)
  /-- What the cache holds for a path. -/
  | lookUp (path : Text)
  /-- Let the cache hold a text for a path. -/
  | remember (path text : Text)
  /-- Take a note. -/
  | note (n : Note)
  deriving DecidableEq, Repr

/-- The answers to a request. -/
def Request.Answer : Request → Type
  | .probe _ => Except ProviderFault Bool
  | .read _ => Except ProviderFault Text
  | .call _ => Except Text Content
  | .lookUp _ => Option Value
  | .remember .. => Unit
  | .note _ => Unit

/-! ### Processes -/

/-- What ends a composition before its text is complete. -/
inductive Fault
  /-- A problem under a strict policy. -/
  | problem (p : Problem)
  /-- A value of the wrong kind. -/
  | mismatch (m : Mismatch)
  deriving DecidableEq, Repr

/-- What becomes of an outlet or a document: its content, or `none` for an
    outlet whose marker stays. -/
abbrev Outcome := Except Fault (Option Content)

/-- A tree of requests. -/
inductive Process
  /-- The end. -/
  | done (outcome : Outcome)
  /-- A request, and what follows each answer. -/
  | ask (request : Request) (next : request.Answer → Process)
  /-- Branches that run side by side, and what follows their outcomes, in
      the order of the branches. All branches run to their end. -/
  | all (branches : List Process) (next : List Outcome → Process)

namespace Process

/-- The process that ends with some content. -/
def content (c : Content) : Process := .done (.ok (some c))

/-- The process that ends with a text. -/
def text (t : Text) : Process := content (.text t)

/-- The process that ends with a fault. -/
def fail (f : Fault) : Process := .done (.error f)

/-- The process that takes a note and goes on. -/
def note (n : Note) (next : Process) : Process := .ask (.note n) fun _ => next

/-- A process that goes on after the end of another one. -/
def bind : Process → (Outcome → Process) → Process
  | .done outcome, k => k outcome
  | .ask request next, k => .ask request fun answer => (next answer).bind k
  | .all branches next, k => .all branches fun outcomes => (next outcomes).bind k

/-- Runs processes one after the other, up to the first fault, and goes on
    with what became of them. -/
def inTurn : List Process → (List (Option Content) → Process) → Process
  | [], k => k []
  | p :: ps, k => p.bind fun
    | .error f => fail f
    | .ok x => inTurn ps fun xs => k (x :: xs)

/-- The first fault among some outcomes, or what became of all of them. -/
def settle : List Outcome → Except Fault (List (Option Content))
  | [] => .ok []
  | .error f :: _ => .error f
  | .ok x :: rest => (settle rest).map (x :: ·)

/-- Runs processes side by side, all to their end, and goes on with what
    became of them unless there was a fault. -/
def sideBySide (ps : List Process) (k : List (Option Content) → Process) : Process :=
  .all ps fun outcomes =>
    match settle outcomes with
    | .error f => fail f
    | .ok xs => k xs

/-- Runs processes side by side or one after the other, and goes on with what
    became of them unless there was a fault. -/
def gather (parallel : Bool) (ps : List Process) (k : List (Option Content) → Process) : Process :=
  if parallel then sideBySide ps k else inTurn ps k

/-! ### Running -/

section run

variable {m : Type → Type} [Monad m]

mutual

/-- Runs a process with the given answers, each branch to its end before the
    next one. -/
def run (answer : (request : Request) → m request.Answer) : Process → m Outcome
  | .done outcome => pure outcome
  | .ask request next => do
    let a ← answer request
    run answer (next a)
  | .all branches next => do
    let outcomes ← runAll answer branches
    run answer (next outcomes)

/-- Runs branches one after the other. -/
def runAll (answer : (request : Request) → m request.Answer) : List Process → m (List Outcome)
  | [] => pure []
  | p :: ps => do
    let outcome ← run answer p
    let outcomes ← runAll answer ps
    pure (outcome :: outcomes)

end

/-- Running a process that goes on after another one. -/
theorem run_bind [LawfulMonad m] (answer : (request : Request) → m request.Answer)
    (p : Process) (k : Outcome → Process) :
    run answer (p.bind k) = run answer p >>= fun outcome => run answer (k outcome) := by
  induction p using Process.rec (motive_2 := fun _ => True) with
  | done outcome => simp [bind, run]
  | ask request next ih => simp [bind, run, ih]
  | all branches next _ ih => simp [bind, run, ih]
  | nil => trivial
  | cons => trivial

end run

end Process

end MarkdownOutlets
