import MarkdownOutlets.Composition.Process
import MarkdownOutlets.Composition.Rules
import MarkdownOutlets.Document.Basic
import MarkdownOutlets.Template.Basic
import MarkdownOutlets.Tracker.Basic

/-! # The process of a document

  To compose a document is to

  1. obtain its text, which for a source means to let the source join the
     chain and to read it through the cache;
  2. find the outlets of the text;
  3. resolve the slot of each outlet name once, one after the other or side
     by side;
  4. put the results in the place of the outlets;
  5. let the source leave the chain, however the steps before ended.

  A problem on the way is noted, and something stands in for the content:
  the marker itself, nothing, or an error marker.
-/

namespace MarkdownOutlets

/-- How a provider turns a path of a document into the path of a source,
    given a base and what the base is. -/
abbrev Resolver := (path : Text) → (base : Option Text) → ResolveFrom → Text

/-- Where in the tree of documents a process stands. -/
structure Position where
  /-- The chain of the sources around it. -/
  tracker : Tracker
  /-- The path of the innermost source around it, if any. -/
  document : Option Text
  deriving DecidableEq, Repr

/-- The position of the outermost document. -/
def Position.root (limit : Limit) : Position := { tracker := .empty limit, document := none }

namespace Engine

section steps

variable (rules : Rules)

/-! ### Sources -/

/-- Notes that a source has no text. It counts as empty, or ends the
    composition. -/
def sourceFailed (fault : SourceFault) : Process :=
  .note (.problem (.source fault)) <|
    if rules.endsWithoutSource then .fail (.problem (.source fault)) else .done (.ok none)

/-- Lets the cache hold the text of a source. -/
def keep (path text : Text) : Process :=
  match rules.cache with
  | .none => .text text
  | .mapping => .ask (.remember path text) fun _ => .text text
  | .unusable _ store => .fail (.mismatch store)

/-- Reads a source that the cache does not hold. -/
def fetch (path : Text) : Process :=
  .ask (.probe path) fun
    | .error fault => sourceFailed rules (fault.toSourceFault path)
    | .ok false => sourceFailed rules (.missing path)
    | .ok true =>
      .ask (.read path) fun
        | .error fault => sourceFailed rules (fault.toSourceFault path)
        | .ok text => keep rules path text

/-- What comes out of a source, or `none` when it has no text. A cache that
    holds null for the path says that it has none. -/
def load (path : Text) : Process :=
  match rules.cache with
  | .none => fetch rules path
  | .mapping =>
    .ask (.lookUp path) fun
      | some v => .note (.recalled path) (if v.isNull then .done (.ok none) else .content (.ofValue v))
      | none => fetch rules path
  | .unusable look _ =>
    match look path with
    | some m => .fail (.mismatch m)
    | none => fetch rules path

/-- Obtains the content of a source and uses it, with the source in the chain
    meanwhile. A source that may not join the chain leaves an error marker;
    within a slot that ends the composition if slots must not be missing. -/
def withSource (source : Text) (here : Position) (inSlot : Bool)
    (use : Content → Position → Process) : Process :=
  match here.tracker.push source with
  | .error problem =>
    .note (.problem problem) <|
      if inSlot && rules.onMissingSlot = .error then .fail (.problem problem)
      else .text (errorMarker problem.message)
  | .ok tracker =>
    .note (.entered source tracker.depth) <|
      ((load rules source).bind fun
        | .error fault => .fail fault
        | .ok none => .text []
        | .ok (some content) => use content { tracker, document := some source }).bind
          fun outcome => .note (.left source here.tracker.depth) (.done outcome)

/-! ### Slots -/

/-- Resolves an outlet without a slot value. -/
def missing (name : Text) (here : Position) : Process :=
  let problem := Problem.missingSlot name here.document
  .note (.problem problem) <|
    match rules.onMissingSlot with
    | .error => .fail (.problem problem)
    | .ignore => .text []
    | .keep => .done (.ok none)

/-- Notes that a function produced no text. That never ends the
    composition. -/
def callFailed (fault : CallbackFault) (here : Position) : Process :=
  .note (.problem (.callback fault here.document)) <|
    if rules.marksFailedCall then .text (errorMarker fault.message) else .text []

/-- Calls a function for its text. -/
def invoke (c : Callback) (here : Position) : Process :=
  .ask (.call c) fun
    | .ok (.text t) => .text t
    | .ok (.other kindName) => callFailed rules (.notText kindName) here
    | .error reason => callFailed rules (.failed reason) here

/-- The process of a slot value, at a position. -/
abbrev SlotProcess := Position → Process

/-- Puts contents in the place of the outlets of their names. Content that is
    no text does not fit; that of the last outlet is tried first. -/
def splice (template : Template) (given : Text → Option Content) : Process :=
  match template.outlets.reverse.findSome? fun o => (given o.name).bind Content.otherKind? with
  | some kindName => .fail (.mismatch (.notText kindName))
  | none => .text (template.fill fun name => (given name).bind Content.text?)

/-- To put contents in the place of outlets ends the process. -/
theorem splice_done (template : Template) (given : Text → Option Content) :
    ∃ outcome, splice template given = .done outcome := by
  unfold splice
  split
  · exact ⟨_, rfl⟩
  · exact ⟨_, rfl⟩

/-- Resolves the outlets of a name: by their slot value, or as missing ones. -/
def resolveOutlet (slotOf : Text → Option SlotProcess) (here : Position) (name : Text) : Process :=
  let process :=
    match slotOf name with
    | some process => process here
    | none => missing rules name here
  .note (.opened name) <| process.bind fun outcome => .note (.closed name) (.done outcome)

/-- What became of the outlets of a name, if that was more than to let their
    markers stay. -/
def resultOf (names : List Text) (results : List (Option Content)) (name : Text) :
    Option Content :=
  ((names.zip results).lookup name).join

/-- Resolves the outlets of a text and puts the results in their place. -/
def fillText (slotOf : Text → Option SlotProcess) (text : Text) (here : Position) : Process :=
  let template := Template.ofText text
  let processes := template.names.map (resolveOutlet rules slotOf here)
  let finish (results : List (Option Content)) : Process :=
    splice template (resultOf template.names results)
  if template.outlets = [] then .text text else .gather rules.parallel processes finish

/-- Resolves the outlets of the content of a document. -/
def fill (slotOf : Text → Option SlotProcess) : (content : Content) → SlotProcess
  | .text t, here => fillText rules slotOf t here
  | .other kindName, _ => .fail (.mismatch (.notSearchable kindName))

end steps

/-! ### Documents -/

variable (resolve : Resolver) (o : Options)

/-- The path of the source that a document means by `path`. -/
def sourcePath (path : Text) (document : Option Text) : Text :=
  match o.resolveFrom, document with
  | .file, some (c :: rest) => resolve path (some (c :: rest)) .file
  | _, _ => resolve path o.basePath .cwd

/-- Composes a document from its body and the processes of its slots. -/
def compose (body : Body) (slots : List (Scalar × SlotProcess)) (here : Position)
    (inSlot : Bool) : Process :=
  let rules := Rules.ofOptions o
  let slotOf (name : Text) : Option SlotProcess := slots.lookup (.text name)
  match body with
  | .text t => fill rules slotOf (.text t) here
  | .source path =>
    withSource rules (sourcePath resolve o path here.document) here inSlot (fill rules slotOf)

mutual

/-- The process that resolves a slot value. -/
def slot : Slot → SlotProcess
  | .literal t => fun _ => .text t
  | .source path => fun here =>
    withSource (.ofOptions o) (sourcePath resolve o path here.document) here true
      fun content _ => .content content
  | .callback c => fun here => invoke (.ofOptions o) c here
  | .document body values => fun here => compose resolve o body (slots values) here true

/-- The processes that resolve slot values. -/
def slots : List (Scalar × Slot) → List (Scalar × SlotProcess)
  | [] => []
  | (name, value) :: rest => (name, slot value) :: slots rest

end

/-- The process of a name is that of its slot value. -/
theorem lookup_slots (values : List (Scalar × Slot)) (name : Scalar) :
    (slots resolve o values).lookup name = (values.lookup name).map (slot resolve o) := by
  induction values with
  | nil => simp [slots]
  | cons entry rest ih =>
    obtain ⟨key, value⟩ := entry
    by_cases h : name == key <;> simp [slots, List.lookup_cons, h, ih]

/-- The process that composes a document. -/
def document (d : Document) : Process :=
  compose resolve o d.body (slots resolve o d.slots) (.root (.whole o.maxDepth)) false

end Engine

end MarkdownOutlets
