import MarkdownOutlets.Data.Scalar

/-! # Values

  What callers hand in before anything is known about it: configuration data
  (scalars, lists and mappings), callables, and the records of documents,
  slots and options with fields of any kind.
-/

namespace MarkdownOutlets

/-- A function of the caller that produces a text, known by its number. -/
structure Callback where
  /-- The caller's number for the function. -/
  id : Nat
  deriving DecidableEq, Repr

/-- A value of the caller, not yet checked. -/
inductive Value
  /-- An atom. -/
  | scalar (s : Scalar)
  /-- A sequence. -/
  | list (items : List Value)
  /-- A mapping, as its entries in order of insertion. -/
  | dict (entries : List (Scalar × Value))
  /-- An empty mapping that cannot be written to. -/
  | frozen
  /-- The mapping that the caller shares between compositions as a cache,
      with its entries at this time. -/
  | sharedCache (entries : List (Scalar × Value))
  /-- A function of the caller. -/
  | callable (c : Callback)
  /-- A literal slot. -/
  | literal (text : Value)
  /-- A slot that refers to a source. -/
  | source (path : Value)
  /-- A slot that is filled by a function. -/
  | callback (func : Value)
  /-- A document with its text or its source, and its slots. -/
  | document (text source slots : Value)
  /-- Composition options, as the fields that were given. -/
  | options (given : List (Scalar × Value))
  deriving Repr

/-! ### Entries -/

/-- The entries of a mapping, in order of insertion; no key occurs twice. -/
abbrev Entries := List (Scalar × Value)

namespace Entries

/-- The value of a key. -/
def get? : Entries → (key : Scalar) → Option Value
  | [], _ => none
  | (k, v) :: rest, key => if k.sameKey key then some v else get? rest key

/-- The entries after a value was given to a key: a key that is present
    keeps its place and its spelling. -/
def put : Entries → (key : Scalar) → (value : Value) → Entries
  | [], key, value => [(key, value)]
  | (k, v) :: rest, key, value =>
    if k.sameKey key then (k, value) :: rest else (k, v) :: put rest key value

/-- The entries that result from giving values to keys in this order. -/
def ofList (items : List (Scalar × Value)) : Entries :=
  items.foldl (fun entries item => put entries item.1 item.2) []

/-- The value of a text key. -/
def field? (entries : Entries) (key : String) : Option Value :=
  entries.get? (.text key.toList)

/-- What is put under a text is found under that text, and nothing else
    changes. -/
theorem get?_put_text (entries : Entries) (t : Text) (v : Value) (key : Scalar) :
    (entries.put (.text t) v).get? key = if key = .text t then some v else entries.get? key := by
  induction entries with
  | nil => simp [put, get?]
  | cons entry rest ih =>
    obtain ⟨k, w⟩ := entry
    by_cases hk : k = .text t
    · subst hk
      by_cases h : key = .text t <;> simp [put, get?, h]
    · by_cases h : key = .text t
      · subst h
        simpa [put, get?, hk] using ih
      · simp only [put, get?, Scalar.sameKey_text, hk, decide_false, Bool.false_eq_true, if_false,
          ih, h]

end Entries

namespace Value

/-! ### Shorthands -/

/-- The absent value. -/
def null : Value := .scalar .null

/-- A truth value. -/
def bool (b : Bool) : Value := .scalar (.bool b)

/-- An integer. -/
def int (i : Int) : Value := .scalar (.int i)

/-- A text. -/
def text (t : Text) : Value := .scalar (.text t)

/-- A mapping with text keys. -/
def object (fields : List (String × Value)) : Value :=
  .dict (fields.map fun f => (.text f.1.toList, f.2))

instance : Inhabited Value := ⟨null⟩

/-! ### Kinds -/

/-- The value is the absent one. -/
def isNull : Value → Bool
  | .scalar .null => true
  | _ => false

/-- The text that the value is. -/
def text? : Value → Option Text
  | .scalar (.text t) => some t
  | _ => none

theorem eq_text_of_text? {v : Value} {t : Text} (h : v.text? = some t) : v = .text t := by
  unfold text? at h
  split at h
  · rw [Option.some.inj h]
    rfl
  · cases h

/-- The entries of the value, if it is a mapping of any kind. -/
def entries? : Value → Option Entries
  | .dict entries => some entries
  | .frozen => some []
  | .sharedCache entries => some entries
  | _ => none

/-- The value counts as present: it is not null, false, zero or empty. -/
def truthy : Value → Bool
  | .scalar s => s.truthy
  | .list items => !items.isEmpty
  | .dict entries => !entries.isEmpty
  | .frozen => false
  | .sharedCache entries => !entries.isEmpty
  | _ => true

/-- The name of the kind of a value. -/
def kindName : Value → Text
  | .scalar s => s.kindName
  | .list _ => "list".toList
  | .dict _ => "dict".toList
  | .frozen => "mappingproxy".toList
  | .sharedCache _ => "dict".toList
  | .callable _ => "function".toList
  | .literal _ => "LiteralText".toList
  | .source _ => "SourceRef".toList
  | .callback _ => "Callback".toList
  | .document .. => "DocumentNode".toList
  | .options _ => "ComposeOptions".toList

/-! ### In messages -/

/-- Texts with a comma and a space between each two. -/
def commaSeparated (items : List Text) : Text := Text.join [',', ' '] items

/-- The fields of composition options, with what messages quote for those
    that were not given. -/
def optionTexts : List (Text × Text) :=
  [("base_path", "None"), ("resolve_from", "'cwd'"), ("max_depth", "10"),
   ("on_missing_slot", "'keep'"), ("on_file_error", "'warn-empty'"), ("cache", "None"),
   ("parallel", "False")].map fun field => (field.1.toList, field.2.toList)

mutual

/-- A value as messages quote it. -/
def quoted : Value → Text
  | .scalar s => s.quoted
  | .list items => '[' :: commaSeparated (quotedItems items) ++ [']']
  | .dict entries => '\x7b' :: commaSeparated (quotedEntries entries) ++ ['\x7d']
  | .frozen => "mappingproxy(\x7b\x7d)".toList
  | .sharedCache entries => '\x7b' :: commaSeparated (quotedEntries entries) ++ ['\x7d']
  | .callable _ => "<function>".toList
  | .literal t => "LiteralText(text=".toList ++ quoted t ++ [')']
  | .source p => "SourceRef(path=".toList ++ quoted p ++ [')']
  | .callback f => "Callback(func=".toList ++ quoted f ++ [')']
  | .document t s slots =>
    "DocumentNode(text=".toList ++ quoted t ++ ", source=".toList ++ quoted s
      ++ ", slots=".toList ++ quoted slots ++ [')']
  | .options given =>
    let texts := quotedFields given
    let field := fun (f : Text × Text) => f.1 ++ '=' :: (texts.lookup f.1).getD f.2
    "ComposeOptions(".toList ++ commaSeparated (optionTexts.map field) ++ [')']

/-- The items of a list as messages quote them. -/
def quotedItems : List Value → List Text
  | [] => []
  | v :: rest => quoted v :: quotedItems rest

/-- The entries of a mapping as messages quote them. -/
def quotedEntries : List (Scalar × Value) → List Text
  | [] => []
  | (k, v) :: rest => (k.quoted ++ [':', ' '] ++ quoted v) :: quotedEntries rest

/-- The given fields of a record, each with its name. -/
def quotedFields : List (Scalar × Value) → List (Text × Text)
  | [] => []
  | (k, v) :: rest => (k.plain, quoted v) :: quotedFields rest

end

mutual

/-- The value can be quoted in a message: all scalars in it can. -/
def isWritable : Value → Bool
  | .scalar s => s.isWritable
  | .list items => areWritable items
  | .dict entries | .sharedCache entries | .options entries => areWritableEntries entries
  | .frozen | .callable _ => true
  | .literal v | .source v | .callback v => isWritable v
  | .document t s slots => isWritable t && isWritable s && isWritable slots

/-- The items of a list can be quoted. -/
def areWritable : List Value → Bool
  | [] => true
  | v :: rest => isWritable v && areWritable rest

/-- The keys and values of a mapping can be quoted. -/
def areWritableEntries : List (Scalar × Value) → Bool
  | [] => true
  | (k, v) :: rest => k.isWritable && isWritable v && areWritableEntries rest

end

theorem areWritableEntries_iff {entries : List (Scalar × Value)} :
    areWritableEntries entries = true ↔
      ∀ entry ∈ entries, entry.1.isWritable = true ∧ entry.2.isWritable = true := by
  induction entries with
  | nil => simp [areWritableEntries]
  | cons entry rest ih => simp [areWritableEntries, ih, and_assoc]

end Value

end MarkdownOutlets
