import MarkdownOutlets.Config.SlotName
import MarkdownOutlets.Data.Value
import MarkdownOutlets.Problem.Failure

/-! # The schema of configurations

  A configuration is data, and its schema says which data. The schema is
  itself data, which callers may ask for; the rules below check it. A check
  does not stop at the first fault: it lists all of them, sorted by where
  they are.
-/

namespace MarkdownOutlets

namespace Config

/-! ### Faults -/

/-- The kinds of data that the schema tells apart. -/
inductive Kind
  /-- A mapping. -/
  | object
  /-- A text. -/
  | text
  /-- A number without a fraction. -/
  | integer
  /-- A truth value. -/
  | boolean
  deriving DecidableEq, Repr

/-- The word for a kind. -/
def Kind.word : Kind → Text
  | .object => "object".toList
  | .text => "string".toList
  | .integer => "integer".toList
  | .boolean => "boolean".toList

/-- The ways in which a value breaks the schema. -/
inductive Violation
  /-- The value is of another kind. -/
  | kind (v : Value) (k : Kind)
  /-- The value is none of some words. -/
  | choice (v : Value) (words : List Text)
  /-- The value is of none of the forms that it may have. -/
  | form (v : Value)
  /-- The number is too small. -/
  | minimum (v : Value) (least : Int)
  /-- The text is empty. -/
  | empty (v : Value)
  /-- A name of a slot does not follow the rule for names. -/
  | name (key : Scalar)
  /-- Some names are unknown. -/
  | unexpected (names : List Scalar)
  deriving Repr

/-- The wording of a violation. -/
def Violation.message : Violation → Text
  | .kind v k => v.quoted ++ " is not of type ".toList ++ Text.quoted k.word
  | .choice v words =>
    v.quoted ++ " is not one of ".toList ++ (Value.list (words.map .text)).quoted
  | .form v => v.quoted ++ " is not valid under any of the given schemas".toList
  | .minimum v least => v.quoted ++ " is less than the minimum of ".toList ++ Text.ofInt least
  | .empty v => v.quoted ++ " should be non-empty".toList
  | .name key => key.quoted ++ " does not match ".toList ++ Text.quoted slotNamePattern
  | .unexpected names =>
    "Additional properties are not allowed (".toList
      ++ Value.commaSeparated (names.map Scalar.quoted)
      ++ (if names.length = 1 then " was".toList else " were".toList)
      ++ " unexpected)".toList

/-- The violation can be put into words: what it quotes can be quoted. -/
def Violation.isWritable : Violation → Bool
  | .kind v _ | .choice v _ | .form v | .minimum v _ | .empty v => v.isWritable
  | .name key => key.isWritable
  | .unexpected names => names.all Scalar.isWritable

/-- A violation and where it is. -/
structure SchemaFault where
  /-- The keys that lead to the value. -/
  path : List Scalar
  /-- What is wrong with it. -/
  violation : Violation
  deriving Repr

namespace SchemaFault

/-- The wording of a fault: the path, unless it is empty, and the violation. -/
def message (f : SchemaFault) : Text :=
  if f.path = [] then f.violation.message
  else Text.join ['.'] (f.path.map Scalar.plain) ++ ": ".toList ++ f.violation.message

/-- The text by which faults are sorted. -/
def place (f : SchemaFault) : Text := (Value.list (f.path.map .scalar)).quoted

/-- The fault can be put into words, with its path. -/
def isWritable (f : SchemaFault) : Bool :=
  f.path.all Scalar.isWritable && f.violation.isWritable

/-- The order of faults. -/
def le (a b : SchemaFault) : Bool := Text.le a.place b.place

end SchemaFault

/-! ### Rules -/

/-- What is required of a value at a path: a function to the faults in
    it. -/
abbrev Rule := (path : List Scalar) → Value → List SchemaFault

namespace Rule

/-- The entries of a value that counts as a mapping here. -/
def members? : Value → Option Entries
  | .dict entries | .sharedCache entries => some entries
  | _ => none

/-- The value is of a kind. A number with a fraction of zero counts as an
    integer, a truth value does not. -/
def isOfKind : Kind → Value → Bool
  | .object, v => (members? v).isSome
  | .text, .scalar (.text _) => true
  | .integer, .scalar (.int _) => true
  | .integer, .scalar (.float x) => x.toInt?.isSome
  | .boolean, .scalar (.bool _) => true
  | _, _ => false

/-- A fault, unless a condition holds. -/
def require (holds : Bool) (path : List Scalar) (violation : Violation) : List SchemaFault :=
  if holds then [] else [{ path, violation }]

/-- All of some rules, in this order. -/
def all (rules : List Rule) : Rule := fun path v => rules.flatMap fun rule => rule path v

/-- The value is of a kind. -/
def kind (k : Kind) : Rule := fun path v => require (isOfKind k v) path (.kind v k)

/-- The value is one of some words. -/
def choice (words : List Text) : Rule := fun path v =>
  require (v.text?.any words.contains) path (.choice v words)

/-- A text is not empty. -/
def nonEmpty : Rule := fun path v => require (v.text? != some []) path (.empty v)

/-- A number is less than an integer bound of zero. -/
def isNegative : Value → Bool
  | .scalar (.int i) => i < 0
  | .scalar (.float x) => x.isNegative
  | _ => false

/-- A number is not negative. -/
def nonNegative : Rule := fun path v => require (!isNegative v) path (.minimum v 0)

/-- A mapping has no keys but the given ones. -/
def closed (names : List Text) : Rule := fun path v =>
  let others := ((members? v).getD []).filterMap fun (key, _) =>
    if names.any fun name => key = .text name then none else some key
  let sorted := others.mergeSort fun a b => Text.le a.plain b.plain
  require sorted.isEmpty path (.unexpected sorted)

/-- What a mapping has under a name follows a rule. -/
def member (name : String) (rule : Rule) : Rule := fun path v =>
  match (members? v).bind (Entries.field? · name) with
  | some x => rule (path ++ [.text name.toList]) x
  | none => []

/-- The path of the value of a key. A null key leads nowhere, and its value
    is said to be where the mapping is. -/
def pathTo (path : List Scalar) (key : Scalar) : List Scalar :=
  if key = .null then path else path ++ [key]

/-- Every value of a mapping passes a test. -/
def everyValue (holds : Value → Bool) : Rule := fun path v =>
  ((members? v).getD []).flatMap fun (key, x) => require (holds x) (pathTo path key) (.form x)

/-- A key is fit to name a slot. Keys that are no texts are left to the
    reading of slots. -/
def isNameKey : Scalar → Bool
  | .text t => isSlotName t
  | _ => true

/-- Every key of a mapping is fit to name a slot. -/
def slotNames : Rule := fun path v =>
  ((members? v).getD []).flatMap fun (key, _) => require (isNameKey key) path (.name key)

end Rule

/-! ### Slots -/

/-- A text. -/
def isText (v : Value) : Bool := v.text?.isSome

/-- A text that is not empty. -/
def isNonEmptyText (v : Value) : Bool := v.text?.any (· ≠ [])

mutual

/-- A value has the form of a slot: a text, or a mapping that may give a
    text, a file and slots. -/
def isSlot : Value → Bool
  | .scalar (.text _) => true
  | .dict entries | .sharedCache entries => areSlotMembers entries
  | _ => false

/-- The entries of a mapping have the form of a slot. -/
def areSlotMembers : List (Scalar × Value) → Bool
  | [] => true
  | (key, v) :: rest =>
    (if key = .text "content".toList then isText v
      else if key = .text "file".toList then isNonEmptyText v
      else key = .text "slots".toList && areSlots v)
      && areSlotMembers rest

/-- A value has the form of slots by name. -/
def areSlots : Value → Bool
  | .dict entries | .sharedCache entries => areSlotEntries entries
  | _ => false

/-- The entries of a mapping have the form of slots by name. -/
def areSlotEntries : List (Scalar × Value) → Bool
  | [] => true
  | (key, v) :: rest => Rule.isNameKey key && isSlot v && areSlotEntries rest

end

/-! ### Forms -/

/-- A rule, and the data by which the schema describes it. -/
structure Form where
  /-- The rule. -/
  rule : Rule
  /-- Its description. -/
  schema : Value

namespace Form

/-- Values of a kind. -/
def kind (k : Kind) : Form where
  rule := .kind k
  schema := .object [("type", .text k.word)]

/-- Texts that are not empty. -/
def nonEmptyText : Form where
  rule := .all [.kind .text, .nonEmpty]
  schema := .object [("type", .text Kind.text.word), ("minLength", .int 1)]

/-- Integers that are not negative. -/
def natural : Form where
  rule := .all [.kind .integer, .nonNegative]
  schema := .object [("type", .text Kind.integer.word), ("minimum", .int 0)]

/-- One of some words. -/
def choice (words : List Text) : Form where
  rule := .choice words
  schema := .object [("enum", .list (words.map .text))]

/-- Mappings with the given members and no others. -/
def closed (members : List (String × Form)) : Form where
  rule := .all
    ([.kind .object, .closed (members.map (·.1.toList))]
      ++ members.map fun m => .member m.1 m.2.rule)
  schema := .object
    [("type", .text Kind.object.word), ("additionalProperties", .bool false),
     ("properties", .object (members.map fun m => (m.1, m.2.schema)))]

/-- A form that is described in another part of the schema. -/
def described (name : String) (f : Form) : Form where
  rule := f.rule
  schema := .object [("$ref", .text ("#/$defs/".toList ++ name.toList))]

/-- Slots by name. -/
def slots : Form where
  rule := .all [.kind .object, .slotNames, .everyValue isSlot]
  schema := .object
    [("type", .text Kind.object.word),
     ("propertyNames", .object [("pattern", .text slotNamePattern)]),
     ("additionalProperties", .object [("$ref", .text "#/$defs/slot".toList)])]

/-- Slots. -/
def slot : Form where
  rule := fun path v => Rule.require (isSlot v) path (.form v)
  schema := .object
    [("oneOf", .list
      [(kind .text).schema,
       (closed [("content", kind .text), ("file", nonEmptyText),
         ("slots", slots.described "slots")]).schema])]

/-- Options. -/
def options : Form :=
  closed
    [("basePath", kind .text),
     ("resolveFrom", choice (["cwd", "file"].map String.toList)),
     ("maxDepth", natural),
     ("onMissingSlot", choice (["error", "ignore", "keep"].map String.toList)),
     ("onFileError", choice (["throw", "warn-empty"].map String.toList)),
     ("parallel", kind .boolean)]

/-- Configurations. -/
def config : Form :=
  closed
    [("template", nonEmptyText), ("slots", slots.described "slots"),
     ("options", options.described "options")]

end Form

/-! ### Configurations -/

/-- The faults in a configuration, sorted by place; those of one place stay
    in the order of the rules. -/
def schemaFaults (v : Value) : List SchemaFault :=
  (Form.config.rule [] v).mergeSort SchemaFault.le

/-- The values that are given as slots of a configuration. -/
def slotValues (v : Value) : List Value :=
  let slots := (Rule.members? v).bind (Entries.field? · "slots")
  ((slots.bind Rule.members?).getD []).map (·.2)

/-- The check comes to an end: all that it quotes can be quoted. Beside what
    the faults quote these are all slots, which the check of a slot quotes
    before it looks for the other form. -/
def isCheckable (v : Value) : Bool :=
  (schemaFaults v).all SchemaFault.isWritable && (slotValues v).all Value.isWritable

/-- The schema of configurations. -/
def schema : Value :=
  let head : List (String × Value) :=
    [("$schema", .text "https://json-schema.org/draft/2020-12/schema".toList),
     ("$id", .text "mdslots/config.schema.yaml".toList),
     ("title", .text "mdslots composition config".toList)]
  let parts : List (String × Form) :=
    [("slots", .slots), ("slot", .slot), ("options", .options)]
  let definitions : Value := .object (parts.map fun part => (part.1, part.2.schema))
  match Form.config.schema with
  | .dict keywords =>
    .dict (head.map (fun h => (.text h.1.toList, h.2)) ++ keywords
      ++ [(.text "$defs".toList, definitions)])
  | other => other

end Config

end MarkdownOutlets
