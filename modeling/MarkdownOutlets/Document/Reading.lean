import MarkdownOutlets.Document.Basic
import MarkdownOutlets.Document.Invalid

/-! # Reading documents

  A caller gives a document as a record or as a mapping, and checking it has
  two steps. First a mapping is turned into a record, together with all
  slots that are written as mappings; a text there is a literal slot, a
  function a callback slot. Then the record is checked, field by field and
  slot by slot.

  In a mapping, `content` and `text` are names for the text, `file` and
  `source` for the path of the source. Within a record nothing is turned
  into anything else.
-/

namespace MarkdownOutlets

namespace Document

/-! ### Mappings -/

/-- The names of the text of a document in a mapping. -/
def textNames : List Text := ["content".toList, "text".toList]

/-- The names of the source of a document in a mapping. -/
def sourceNames : List Text := ["file".toList, "source".toList]

/-- The value that a mapping gives under one of some names, null if under
    none. -/
def pick (entries : Entries) (names : List Text) (place : Text) : Except Invalid Value :=
  match names.filter fun name => (entries.get? (.text name)).isSome with
  | [] => .ok .null
  | [name] => .ok ((entries.get? (.text name)).getD .null)
  | present => .error (.bothNames place present)

/-- The place of the slots of a document. -/
def slotsPlace (place : Text) : Text := place ++ ".slots".toList

/-- The place of a slot among slots. -/
def slotPlace (place : Text) (name : Scalar) : Text := place ++ '.' :: name.plain

/-- The record of a mapping, given the slots that it holds. -/
def recordOf (entries : Entries) (slots : Except Invalid Entries) (place : Text) :
    Except Invalid Value := do
  let text ← pick entries textNames place
  let source ← pick entries sourceNames place
  if !text.isNull && !source.isNull then .error (.contentAndFile place)
  else if text.isNull && source.isNull then .error (.neitherContentNorFile place)
  else return .document text source (.dict (← slots))

/-- The slot record of a mapping. Without slots of its own, it is a literal
    or a source slot; with slots, even none, it is a document. -/
def slotRecordOf (entries : Entries) (slots : Except Invalid Entries) (place : Text) :
    Except Invalid Value :=
  match entries.field? "slots" with
  | some _ => recordOf entries slots place
  | none => do
    let text ← pick entries textNames place
    let source ← pick entries sourceNames place
    if !text.isNull && source.isNull then return .literal text
    else if !source.isNull && text.isNull then return .source source
    else recordOf entries slots place

mutual

/-- A slot value as a record. -/
def slotRecord : Value → (place : Text) → Except Invalid Value
  | .literal text, _ => .ok (.literal text)
  | .source path, _ => .ok (.source path)
  | .callback func, _ => .ok (.callback func)
  | .document text source slots, _ => .ok (.document text source slots)
  | .scalar (.text t), _ => .ok (.literal (.text t))
  | .dict entries, place => slotRecordOf entries (slotsEntry entries (slotsPlace place)) place
  | .frozen, place => slotRecordOf [] (.ok []) place
  | .sharedCache entries, place =>
    slotRecordOf entries (slotsEntry entries (slotsPlace place)) place
  | .callable c, _ => .ok (.callback (.callable c))
  | .scalar s, place => .error (.notSlotValue place s.kindName)
  | .list items, place => .error (.notSlotValue place (Value.list items).kindName)
  | .options given, place => .error (.notSlotValue place (Value.options given).kindName)

/-- The slots given by a mapping, as records. -/
def slotRecords : List (Scalar × Value) → (place : Text) → Except Invalid Entries
  | [], _ => .ok []
  | (name, value) :: rest, place =>
    match name with
    | .text _ => do
      let slot ← slotRecord value (slotPlace place name)
      return (name, slot) :: (← slotRecords rest place)
    | _ => .error (.slotNameNotText place name)

/-- The slots given by a value, as records. A value that counts as absent
    gives none. -/
def slotsGiven : Value → (place : Text) → Except Invalid Entries
  | .dict entries, place | .sharedCache entries, place => slotRecords entries place
  | v, place =>
    if v.truthy then .error (.slotsGivenNotMapping place v.kindName) else .ok []

/-- The slots in a mapping that gives a document, as records. -/
def slotsEntry : List (Scalar × Value) → (place : Text) → Except Invalid Entries
  | [], _ => .ok []
  | (name, value) :: rest, place =>
    if name = .text "slots".toList then slotsGiven value place else slotsEntry rest place

end

/-- The document record of a mapping. -/
def ofMapping (entries : Entries) (place : Text) : Except Invalid Value :=
  recordOf entries (slotsEntry entries (slotsPlace place)) place

/-! ### Records -/

/-- The body in the fields of a document record. -/
def checkBody (text source : Value) (place : Text) : Except Invalid Body :=
  if !text.isNull && !source.isNull then .error (.textAndSource place)
  else if text.isNull && source.isNull then .error (.neitherTextNorSource place)
  else if !text.isNull then
    match text.text? with
    | some t => .ok (.text t)
    | none => .error (.textNotText place)
  else
    match source.text? with
    | some (c :: path) => .ok (.source (c :: path))
    | _ => .error (.sourceNotPath place)

mutual

/-- The slot of a slot record. -/
def checkSlot : Value → (place : Text) → Except Invalid Slot
  | .literal text, place =>
    match text.text? with
    | some t => .ok (.literal t)
    | none => .error (.literalNotText place)
  | .source path, place =>
    match path.text? with
    | some (c :: rest) => .ok (.source (c :: rest))
    | _ => .error (.slotSourceNotPath place)
  | .callback func, place =>
    match func with
    | .callable c => .ok (.callback c)
    | _ => .error (.callbackNotCallable place)
  | .document text source slots, place => do
    let body ← checkBody text source place
    return .document body (← checkSlotField slots place)
  | v, place => .error (.notSlot place v.kindName)

/-- The slots in the field of a document record. -/
def checkSlotField : Value → (place : Text) → Except Invalid Slots
  | .dict entries, place | .sharedCache entries, place => checkSlots entries (slotsPlace place)
  | .frozen, _ => .ok []
  | _, place => .error (.slotsNotMapping place)

/-- The slots of slot records by name. -/
def checkSlots : List (Scalar × Value) → (place : Text) → Except Invalid Slots
  | [], _ => .ok []
  | (name, value) :: rest, place => do
    let slot ← checkSlot value (slotPlace place name)
    return (name, slot) :: (← checkSlots rest place)

end

/-- The document that a value is, at some place of the input. -/
def checkAt (place : Text) (v : Value) : Except Invalid Document := do
  let record : Value ←
    if v.isNull then .error .documentRequired
    else
      match v.entries? with
      | some entries => ofMapping entries place
      | none => .ok v
  match record with
  | .document text source slots =>
    let body ← checkBody text source place
    return { body, slots := ← checkSlotField slots place }
  | other => .error (.notDocument place other.kindName)

/-- The place of the outermost document. -/
def rootPlace : Text := "node".toList

/-- The document that a value is. -/
def check (v : Value) : Except Invalid Document := checkAt rootPlace v

end Document

end MarkdownOutlets
