import MarkdownOutlets.Problem.Failure
import MarkdownOutlets.Document.Options

/-! # Malformed input

  Why documents, options and requests are refused before anything is
  composed. A `place` says where in the input the fault is, as the names
  that lead there.
-/

namespace MarkdownOutlets

/-- The ways in which input is malformed. -/
inductive Invalid
  /-- No document is given. -/
  | documentRequired
  /-- A value of this kind is no document. -/
  | notDocument (place kindName : Text)
  /-- A document record has a text and a source. -/
  | textAndSource (place : Text)
  /-- A document record has neither text nor source. -/
  | neitherTextNorSource (place : Text)
  /-- The text of a document is no text. -/
  | textNotText (place : Text)
  /-- The source of a document is no text, or empty. -/
  | sourceNotPath (place : Text)
  /-- The slots of a document record are no mapping. -/
  | slotsNotMapping (place : Text)
  /-- The text of a literal slot is no text. -/
  | literalNotText (place : Text)
  /-- The path of a source slot is no text, or empty. -/
  | slotSourceNotPath (place : Text)
  /-- The function of a callback slot is none. -/
  | callbackNotCallable (place : Text)
  /-- A value of this kind is no slot of a document record. -/
  | notSlot (place kindName : Text)
  /-- A value of this kind cannot be read as a slot. -/
  | notSlotValue (place kindName : Text)
  /-- Two names for the same field are used. -/
  | bothNames (place : Text) (names : List Text)
  /-- A mapping gives a text and a source. -/
  | contentAndFile (place : Text)
  /-- A mapping gives neither text nor source. -/
  | neitherContentNorFile (place : Text)
  /-- The slots given are a value of this kind and no mapping. -/
  | slotsGivenNotMapping (place kindName : Text)
  /-- A slot name is no text. -/
  | slotNameNotText (place : Text) (name : Scalar)
  /-- There is no option of this name. -/
  | unknownOption (name : Scalar)
  /-- A value of this kind holds no options. -/
  | notOptions (kindName : Text)
  /-- The depth limit is no natural number. -/
  | maxDepth
  /-- There is no such choice for outlets without a slot value. -/
  | onMissingSlot
  /-- There is no such choice for unreadable sources. -/
  | onFileError
  /-- There is no such choice for relative paths. -/
  | resolveFrom
  /-- The choice of side-by-side resolution is no truth value. -/
  | parallel
  /-- The cache cannot be written to. -/
  | cache
  /-- The base path is no text. -/
  | basePath
  /-- A slot argument has no equals sign. -/
  | slotFormat (raw : Text)
  /-- A slot argument has nothing before the equals sign. -/
  | emptySlotName (raw : Text)
  /-- A slot argument names a slot that no outlet can have. -/
  | slotName (name : Text)
  /-- Neither the arguments nor the configuration name a template. -/
  | templateRequired
  deriving DecidableEq, Repr

namespace Invalid

/-- Choices in words, for a message. -/
def choices {α : Type} (words : List (Text × α)) : Text :=
  Value.commaSeparated (words.map (·.1))

/-- The wording of a refusal. -/
def message : Invalid → Text
  | .documentRequired => "DocumentNode is required".toList
  | .notDocument place kindName =>
    place ++ " must be a DocumentNode or mapping, got ".toList ++ kindName
  | .textAndSource place => place ++ " cannot have both text and source".toList
  | .neitherTextNorSource place => place ++ " must have either text or source".toList
  | .textNotText place => place ++ " text must be a string".toList
  | .sourceNotPath place => place ++ " source must be a non-empty string".toList
  | .slotsNotMapping place => place ++ " slots must be a mapping".toList
  | .literalNotText place => place ++ " literal text must be a string".toList
  | .slotSourceNotPath place => place ++ " source path must be a non-empty string".toList
  | .callbackNotCallable place => place ++ " callback must be callable".toList
  | .notSlot place kindName | .notSlotValue place kindName =>
    "Invalid slot source type at ".toList ++ place ++ ": ".toList ++ kindName
  | .bothNames place names =>
    place ++ ": use only one of ".toList ++ (Value.list (names.map .text)).quoted
  | .contentAndFile place => place ++ ": cannot have both content and file".toList
  | .neitherContentNorFile place => place ++ ": must have either content or file".toList
  | .slotsGivenNotMapping place kindName =>
    place ++ " must be a mapping, got ".toList ++ kindName
  | .slotNameNotText place name =>
    place ++ ": slot names must be strings, got ".toList ++ name.quoted
  | .unknownOption name => "Unknown compose option: ".toList ++ name.plain
  | .notOptions kindName =>
    "options must be ComposeOptions or a mapping, got ".toList ++ kindName
  | .maxDepth => "maxDepth must be a non-negative integer".toList
  | .onMissingSlot => "onMissingSlot must be one of: ".toList ++ choices OnMissingSlot.words
  | .onFileError => "onFileError must be one of: ".toList ++ choices OnFileError.words
  | .resolveFrom => "resolveFrom must be one of: ".toList ++ choices ResolveFrom.words
  | .parallel => "parallel must be a boolean".toList
  | .cache => "cache must be a mutable mapping".toList
  | .basePath => "basePath must be a string".toList
  | .slotFormat raw =>
    "Invalid slot format: ".toList ++ raw
      ++ ". Expected format: name=value or name=@file.md".toList
  | .emptySlotName raw => "Empty slot name in: ".toList ++ raw
  | .slotName name =>
    "Invalid slot name: ".toList ++ name
      ++ ". Slot names may contain letters, digits, '-' and '_'".toList
  | .templateRequired =>
    ("Template file is required. Use: mdslots compose <template> "
      ++ "or set 'template' in the config file").toList

/-- The refusal can be put into words: no scalar that it quotes has too many
    digits. -/
def isWritable : Invalid → Bool
  | .slotNameNotText _ name | .unknownOption name => name.isWritable
  | _ => true

/-- What a refusal says beside its wording. -/
def details : Invalid → Entries
  | .notSlotValue place _ => [(.text "where".toList, .text place)]
  | _ => []

/-- The refusal as callers see it. -/
def failure (i : Invalid) : Failure := .make .validation i.message i.details none

end Invalid

end MarkdownOutlets
