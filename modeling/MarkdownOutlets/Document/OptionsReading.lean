import MarkdownOutlets.Document.Invalid

/-! # Reading options

  A caller gives options as a record or as a mapping. A mapping may spell an
  option in two ways (`maxDepth` or `max_depth`); of repeated options the
  last one counts. The values are then checked in a fixed order.
-/

namespace MarkdownOutlets

namespace Options

/-- The options under their names, each with its other spelling. -/
def names : List (Text × Option Text) :=
  [("base_path".toList, some "basePath".toList),
   ("resolve_from".toList, some "resolveFrom".toList),
   ("max_depth".toList, some "maxDepth".toList),
   ("on_missing_slot".toList, some "onMissingSlot".toList),
   ("on_file_error".toList, some "onFileError".toList),
   ("cache".toList, none),
   ("parallel".toList, none)]

/-- The name of the option that a key spells. -/
def canonicalName? : Scalar → Option Text
  | .text key => (names.find? fun n => n.1 = key ∨ n.2 = some key).map (·.1)
  | _ => none

/-- The entries of a mapping under the names of the options. -/
def canonical : Entries → Except Invalid Entries
  | entries => go entries []
where
  /-- The remaining entries on top of those read so far. -/
  go : Entries → Entries → Except Invalid Entries
    | [], given => .ok given
    | (key, value) :: rest, given =>
      match canonicalName? key with
      | some name => go rest (given.put (.text name) value)
      | none => .error (.unknownOption key)

/-- The choice that a value selects by its word. -/
def choice? {α : Type} (words : List (Text × α)) (v : Value) : Option α :=
  v.text?.bind fun word => words.lookup word

/-- A check that fails with the given reason. -/
def orElse {α : Type} (reason : Invalid) : Option α → Except Invalid α
  | some a => .ok a
  | none => .error reason

/-- The natural number that a value is. -/
def natural? : Value → Option Nat
  | .scalar (.int (.ofNat n)) => some n
  | _ => none

/-- The truth value that a value is. -/
def bool? : Value → Option Bool
  | .scalar (.bool b) => some b
  | _ => none

/-- The cache that a value selects. -/
def cache? : Value → Option (Option CacheChoice)
  | .scalar .null => some none
  | .dict entries => some (some (.own entries))
  | .sharedCache _ => some (some .shared)
  | _ => none

/-- The base path that a value gives. -/
def basePath? : Value → Option (Option Text)
  | .scalar .null => some none
  | .scalar (.text t) => some (some t)
  | _ => none

/-- Checks a field if it is given, and keeps the standard value otherwise. -/
def field {α : Type} (given : Entries) (name : String) (standard : α) (reason : Invalid)
    (read : Value → Option α) : Except Invalid α :=
  match given.field? name with
  | some v => orElse reason (read v)
  | none => .ok standard

/-- The options of a record. -/
def ofRecord (given : Entries) : Except Invalid Options := do
  let standard : Options := {}
  let maxDepth ← field given "max_depth" standard.maxDepth .maxDepth natural?
  let onMissingSlot ← field given "on_missing_slot" standard.onMissingSlot .onMissingSlot
    (choice? OnMissingSlot.words)
  let onFileError ← field given "on_file_error" standard.onFileError .onFileError
    (choice? OnFileError.words)
  let resolveFrom ← field given "resolve_from" standard.resolveFrom .resolveFrom
    (choice? ResolveFrom.words)
  let parallel ← field given "parallel" standard.parallel .parallel bool?
  let cache ← field given "cache" standard.cache .cache cache?
  let basePath ← field given "base_path" standard.basePath .basePath basePath?
  return { basePath, resolveFrom, maxDepth, onMissingSlot, onFileError, cache, parallel }

/-- The options that a value gives; null gives the standard ones. -/
def check (v : Value) : Except Invalid Options :=
  if v.isNull then .ok {}
  else
    match v.entries?, v with
    | some entries, _ => do ofRecord (← canonical entries)
    | none, .options given => ofRecord given
    | none, other => .error (.notOptions other.kindName)

/-- Options as data. -/
def toValue (o : Options) : Value :=
  .object
    [("base_path", (o.basePath.map Value.text).getD .null),
     ("resolve_from", .text o.resolveFrom.word),
     ("max_depth", .int o.maxDepth),
     ("on_missing_slot", .text o.onMissingSlot.word),
     ("on_file_error", .text o.onFileError.word),
     ("cache", match o.cache with
       | none => .null
       | some .shared => .sharedCache []
       | some (.own entries) => .dict entries),
     ("parallel", .bool o.parallel)]

end Options

end MarkdownOutlets
