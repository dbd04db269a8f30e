import MarkdownOutlets.Config.Bundle
import MarkdownOutlets.Document.Reading
import MarkdownOutlets.Files.Reading

/-! # Configurations

  A configuration file names a template, its slots and options. Its paths
  are relative to its own directory and are made absolute when it is loaded.
-/

namespace MarkdownOutlets

namespace Config

/-! ### Faults -/

/-- Why a configuration file is refused. -/
inductive ConfigFault
  /-- There is no file. -/
  | notFound (p : FilePath)
  /-- The text of the file is not of its format, for a reason in words. -/
  | malformed (format : DataFormat) (p : FilePath) (reason : Text)
  /-- The file system refuses to read it. -/
  | unreadable (p : FilePath) (fault : OsFault)
  /-- The data is no mapping. -/
  | notMapping (p : FilePath)
  /-- The data breaks the schema. -/
  | schema (faults : List SchemaFault)
  /-- A slot cannot be read. -/
  | slots (p : FilePath) (reason : Invalid)
  deriving Repr

/-- The word for a format in messages. -/
def formatWord : DataFormat → Text
  | .json => "JSON".toList
  | .yaml => "YAML".toList

/-- A refusal as callers see it. -/
def ConfigFault.failure : ConfigFault → Failure
  | .notFound p =>
    .make .config ("Configuration file not found: ".toList ++ p.toText)
      [(.text "path".toList, .text p.toText)] none
  | .malformed format p reason =>
    .make .config
      ("Invalid ".toList ++ formatWord format ++ " in configuration file: ".toList ++ p.toText
        ++ '\n' :: reason) [] none
  | .unreadable p fault =>
    .make .config
      ("Failed to load configuration ".toList ++ p.toText ++ ": ".toList ++ fault.message) [] none
  | .notMapping p =>
    .make .config ("Configuration must be a mapping: ".toList ++ p.toText) [] none
  | .schema faults => schemaFailure schemaName faults
  | .slots p reason =>
    .make .config
      ("Invalid slots in ".toList ++ p.toText ++ ": ".toList ++ reason.message) [] none

/-- Why a configuration file gives no configuration. -/
inductive LoadFault
  /-- Its bytes are no text. -/
  | encoding (fault : Utf8.Fault)
  /-- A part of its text, or a path, has the form of a value and denotes
      none, or a value in it cannot be put into words. -/
  | value (fault : ValueFault)
  /-- It is refused. -/
  | config (fault : ConfigFault)
  deriving Repr

/-- What a fault of a data file means for a configuration. -/
def LoadFault.ofDataFault (p : FilePath) : DataFault → LoadFault
  | .missing _ => .config (.notFound p)
  | .unreachable fault | .os fault => .config (.unreadable p fault)
  | .encoding fault => .encoding fault
  | .value fault => .value fault
  | .malformed format reason => .config (.malformed format p reason)

/-! ### Loading -/

/-- A configuration, with absolute paths. -/
structure Configuration where
  /-- The path of the template. -/
  template : Option Text
  /-- The slots of the template. -/
  slots : Slots
  /-- The options, as they are written. -/
  options : Entries
  /-- The path of the file. -/
  path : FilePath
  deriving Repr

/-- The format of a configuration file. -/
def formatOf (p : FilePath) : DataFormat :=
  if p.hasExtension "json".toList then .json else .yaml

/-- The slots that a value gives. -/
def slotsOf (v : Value) : Except Invalid Slots := do
  let place := "slots".toList
  Document.checkSlots (← Document.slotsGiven v place) place

/-- Why a path leads nowhere, if it starts with a home directory that is not
    there. -/
def homeFault? (places : FilePath.Places) (path : Text) : Option FilePath.HomeFault :=
  places.homeFault? (.ofText path)

/-- The configuration in the data of a file. -/
def Configuration.ofData (places : FilePath.Places) (p : FilePath) (data : Value) :
    Except LoadFault Configuration :=
  match Rule.members? data with
  | none => .error (.config (.notMapping p))
  | some entries =>
    match isCheckable data, schemaFaults data with
    | false, _ => .error (.value .unwritable)
    | true, fault :: faults => .error (.config (.schema (fault :: faults)))
    | true, [] =>
      match slotsOf ((entries.field? "slots").getD .null) with
      | .error reason =>
        .error (if reason.isWritable then .config (.slots p reason) else .value .unwritable)
      | .ok slots =>
        let absolute := places.within p.parent
        let template := (entries.field? "template").bind Value.text?
        match (Slots.findPath? (homeFault? places) slots).or (template.bind (homeFault? places)) with
        | some fault => .error (.value (.home fault))
        | none =>
          .ok
            { template := template.map absolute
              slots := Slots.mapPaths absolute slots
              options := ((entries.field? "options").bind Value.entries?).getD []
              path := p }

/-- The path of a configuration file that a text means. -/
def configPath (places : FilePath.Places) (path : Text) : FilePath :=
  places.absolute (places.expand (.ofText path))

/-- Loads the configuration file that a text means. An empty YAML file is an
    empty configuration. -/
def load [DataReaders] (places : FilePath.Places) (path : Text) :
    FileProgram (Except LoadFault Configuration) := do
  match homeFault? places path with
  | some fault => return .error (.value (.home fault))
  | none =>
    let p := configPath places path
    match ← FileProgram.readDataOr (formatOf p) p (.dict []) true with
    | .error fault => return .error (.ofDataFault p fault)
    | .ok data => return Configuration.ofData places p data

end Config

end MarkdownOutlets
