import MarkdownOutlets.Composition.Compose

/-! # Composing without checks

  A caller may leave out the check of a document and of options. They are
  then used as they stand, field by field, and a value of the wrong kind is
  met only where it is used: some count as absent, some leave a problem
  behind, and some end the composition with a mismatch.

  The steps are those of the process of a checked document.
-/

namespace MarkdownOutlets

namespace Unchecked

/-- How a provider turns a path into the path of a source, given a base and
    what the base is, when nobody checked the kinds of path and base. -/
abbrev Resolver := (path base : Value) → ResolveFrom → Except Mismatch Text

/-! ### Options -/

/-- Options that nobody checked, as far as they can be used. -/
structure Settings where
  /-- What to do where there is a choice. -/
  rules : Rules
  /-- What paths are relative to. -/
  resolveFrom : ResolveFrom
  /-- The base path. -/
  base : Value
  /-- What keeps the depth limit from being compared, if anything does. -/
  unordered : Option Mismatch
  /-- Where texts of sources are kept, if anywhere. -/
  cache : Option CacheChoice

/-- The kinds of the two values in a comparison of a length with a value
    that is no number, and the sign of the comparison as messages write
    it. -/
def unorderedWith (v : Value) : Mismatch :=
  let whole := "int".toList
  match v with
  | .frozen => .notOrdered "<=".toList "dict".toList whole
  | v => .notOrdered ">=".toList whole v.kindName

/-- A text stands somewhere in another text. -/
def isWithin (part : Text) : Text → Bool
  | [] => part.isEmpty
  | c :: rest => part.isPrefixOf (c :: rest) || isWithin part rest

/-- How a value is used as a cache. -/
def cacheUse : Value → CacheUse
  | .scalar .null => .none
  | .dict _ | .sharedCache _ => .mapping
  | .frozen => .unusable (fun _ => none) (.notChangeable Value.frozen.kindName)
  | .scalar (.text t) =>
    .unusable (fun path => if isWithin path t then some .textEntry else none)
      (.notChangeable (Value.text t).kindName)
  | .list items =>
    .unusable (fun path => if items.any (·.text? = some path) then some .listEntry else none)
      .listEntry
  | v =>
    let m := Mismatch.notContainer v.kindName
    .unusable (fun _ => some m) m

/-- A value is a word. -/
def isWord (v : Value) (word : Text) : Bool := v.text? = some word

/-- The settings of an options record. A choice that has no such word is the
    standard one, except that failed functions leave a marker behind unless
    the standard choice is made. -/
def Settings.ofRecord (given : Entries) : Settings :=
  let standard : Options := {}
  let field (name : String) (v : Value) : Value := (given.field? name).getD v
  let maxDepth := field "max_depth" (.int standard.maxDepth)
  let onMissingSlot := field "on_missing_slot" (.text standard.onMissingSlot.word)
  let onFileError := field "on_file_error" (.text standard.onFileError.word)
  let cache := field "cache" .null
  { rules :=
      { limit := (Limit.ofValue? maxDepth).getD (.whole standard.maxDepth)
        onMissingSlot :=
          if isWord onMissingSlot OnMissingSlot.error.word then .error
          else if isWord onMissingSlot OnMissingSlot.ignore.word then .ignore
          else .keep
        endsWithoutSource := isWord onFileError OnFileError.throw.word
        marksFailedCall := !isWord onFileError OnFileError.warnEmpty.word
        cache := cacheUse cache
        parallel := (field "parallel" (.bool standard.parallel)).truthy }
    resolveFrom :=
      if isWord (field "resolve_from" .null) ResolveFrom.file.word then .file else .cwd
    base := field "base_path" .null
    unordered :=
      if (Limit.ofValue? maxDepth).isSome then none else some (unorderedWith maxDepth)
    cache := (Options.cache? cache).join }

/-- The settings that a value gives; one that counts as absent gives the
    standard ones. -/
def Settings.ofValue (v : Value) : Except Mismatch Settings :=
  match v with
  | .options given => .ok (.ofRecord given)
  | v =>
    if v.truthy then .error (.noAttribute v.kindName "max_depth".toList)
    else .ok (.ofRecord [])

/-! ### Documents -/

variable (resolve : Resolver) (s : Settings)

/-- The path of the source that a document means by a value. The depth limit
    is needed next. -/
def sourcePath (path : Value) (document : Option Text) : Except Mismatch Text := do
  let source ←
    match s.resolveFrom, document with
    | .file, some (c :: rest) => resolve path (.text (c :: rest)) .file
    | _, _ => resolve path s.base .cwd
  match s.unordered with
  | some m => .error m
  | none => return source

/-- Obtains the content of a source and uses it. -/
def withSource (path : Value) (here : Position) (inSlot : Bool)
    (use : Content → Position → Process) : Process :=
  match sourcePath resolve s path here.document with
  | .error m => .fail (.mismatch m)
  | .ok source => Engine.withSource s.rules source here inSlot use

/-- Composes a document from its text or its source. Without a source, a text
    that counts as absent is empty. -/
def compose (text source : Value) (slotOf : Text → Option Engine.SlotProcess) (here : Position)
    (inSlot : Bool) : Process :=
  let fill := Engine.fill s.rules slotOf
  if !source.isNull then withSource resolve s source here inSlot fill
  else fill (if text.truthy then .ofValue text else .text []) here

mutual

/-- The process that resolves a slot value; none if there is no value. -/
def slot : Value → Option Engine.SlotProcess
  | .scalar .null => none
  | .literal text =>
    some fun _ => if text.isNull then .done (.ok none) else .content (.ofValue text)
  | .source path =>
    some fun here =>
      if path.isNull then .text []
      else withSource resolve s path here true fun content _ => .content content
  | .callback func =>
    match func with
    | .callable c => some (Engine.invoke s.rules c)
    | v =>
      let reason := '\'' :: v.kindName ++ "' object is not callable".toList
      some (Engine.callFailed s.rules (.failed reason))
  | .document text source slots =>
    let slotOf := slotsOf slots
    some fun here => compose resolve s text source slotOf here true
  | v => some fun _ => .fail (.mismatch (.notSlot v.kindName))

/-- The processes that resolve slot values by name. A value that is no
    mapping has none, and cannot be asked for them. -/
def slotsOf : Value → (name : Text) → Option Engine.SlotProcess
  | .dict entries | .sharedCache entries =>
    let processes := slotEntries entries
    fun name => (processes.lookup (.text name)).join
  | .frozen => fun _ => none
  | v => fun _ => some fun _ => .fail (.mismatch (.noAttribute v.kindName "get".toList))

/-- The processes that resolve the values of entries. -/
def slotEntries : List (Scalar × Value) → List (Scalar × Option Engine.SlotProcess)
  | [] => []
  | (name, v) :: rest => (name, slot v) :: slotEntries rest

end

/-- The process that composes a document. -/
def document (v : Value) : Process :=
  match v with
  | .document text source slots =>
    compose resolve s text source (slotsOf resolve s slots) (.root s.rules.limit) false
  | v => .fail (.mismatch (.noAttribute v.kindName "source".toList))

end Unchecked

namespace Host

variable {m : Type → Type} [Monad m]

/-- Composes a document without any check. -/
def composeUnchecked (h : Host m) (resolve : Unchecked.Resolver) (node options : Value)
    (shared : Cache) : m (Except Fault Composition × Aftermath) :=
  match Unchecked.Settings.ofValue options with
  | .error m => return (.error (.mismatch m), { shared, journal := [] })
  | .ok settings =>
    h.composeWith (Unchecked.document resolve settings node) settings.cache shared

end Host

end MarkdownOutlets
