import MarkdownOutlets.Cli.Abort
import MarkdownOutlets.Cli.Invocation
import MarkdownOutlets.Cli.Report
import MarkdownOutlets.Composition.Compose
import MarkdownOutlets.Config.Plan
import MarkdownOutlets.Data.Readers
import MarkdownOutlets.Files.Writing
import MarkdownOutlets.Source.Files

/-! # Commands

  The commands are file programs that end with a report. The command to
  compose a document writes at most one file, and only when the document is
  complete; until then nothing but reading happens.
-/

namespace MarkdownOutlets

namespace Cli

/-- The version of the program. -/
def version : Text := "1.0.0".toList

/-- The logging of a command. Reports in data are not mixed with records. -/
def logging (json verbose : Bool) : Logging.Setup :=
  if json then Logging.Setup.suppress {}
  else
    let least := if verbose then "DEBUG" else "ERROR"
    Logging.Setup.configure {} (Logging.levelOf least.toList) Logging.Setup.errorStream

/-! ### Composing -/

/-- Why there is no document. -/
inductive Obstacle
  /-- The arguments are malformed. -/
  | invalid (reason : Invalid)
  /-- The configuration is refused. -/
  | config (fault : Config.ConfigFault)
  /-- A problem ended the composition. -/
  | problem (p : Problem)
  deriving Repr

namespace Obstacle

/-- What is reported about an obstacle. -/
def text (json : Bool) : Obstacle → Text
  | .invalid reason =>
    errorText json "validation_error".toList reason.message (some reason.failure)
  | .config f =>
    let failure := f.failure
    errorText json "config_error".toList
      ("Configuration loading failed: ".toList ++ failure.message) (some failure)
  | .problem p =>
    errorText json p.kind.word ("Composition failed: ".toList ++ p.message) (some p.failure)

end Obstacle

/-- An attempt to compose a document. -/
structure Attempt where
  /-- What is logged about it. -/
  records : List Logging.LogRecord
  /-- The document, or why there is none. -/
  result : Except Obstacle Composition

namespace ComposeArguments

/-- An option as data. One whose value is left out has a value that no
    option accepts. -/
def optionValue {α : Type} (toValue : α → Value) : Given α → Value
  | .nothing => .null
  | .vacant => .list []
  | .value a => toValue a

/-- The options among the arguments. -/
def options (a : ComposeArguments) : Entries :=
  [("onMissingSlot", optionValue (fun choice => .text choice.word) a.onMissingSlot),
   ("onFileError", optionValue (fun choice => .text choice.word) a.onFileError),
   ("resolveFrom", optionValue (fun choice => .text choice.word) a.resolveFrom),
   ("maxDepth", optionValue .int a.maxDepth),
   ("parallel", if a.sequential then .bool false else .null)].map fun option =>
    (.text option.1.toList, option.2)

/-- What comes of a slot argument that is left out: it cannot be cut into a
    name and a value. -/
def vacantSlot : Mismatch := .noAttribute "list".toList "partition".toList

/-- The slots among the arguments, up to the first that is left out. -/
def writtenSlots (a : ComposeArguments) : List Text :=
  (a.slots.takeWhile Option.isSome).filterMap id

/-- What the arguments say beside a configuration. -/
def layer (a : ComposeArguments) (slots : Config.SlotArguments) (cwd : FilePath) :
    Config.Arguments :=
  { template := a.template, slots, options := a.options, cwd }

/-- The configuration that the arguments name, if they name one. -/
def loadConfig [DataReaders] (places : FilePath.Places) (a : ComposeArguments) :
    FileProgram (Except Config.LoadFault (Option Config.Configuration)) :=
  match a.config with
  | some (c :: path) => do return (← Config.load places (c :: path)).map some
  | _ => return .ok none

end ComposeArguments

/-- Composes the document of a plan from files. -/
def composePlan (places : FilePath.Places) (plan : Config.Plan) :
    FileProgram (Except Abort Attempt) := do
  let host := FileSource.host { places } fun _ => return .error []
  let (result, after) ← host.composeDocument plan.document plan.options []
  let records := composingRecord plan.template plan.slots.length
    :: (notesOf after.journal).filterMap (noteRecord? plan.options.maxDepth)
  match result with
  | .ok composition => return .ok { records, result := .ok composition }
  | .error (.problem p) => return .ok { records, result := .error (.problem p) }
  | .error (.mismatch m) => return .error (.mismatch m)

/-- Composes the document that the arguments ask for, with the configuration
    that they name. -/
def composeWith (places : FilePath.Places) (a : ComposeArguments) (slots : Config.SlotArguments)
    (config : Option Config.Configuration) : FileProgram (Except Abort Attempt) := do
  let loaded := config.toList.map fun c => loadedRecord c.path.toText c.slots.length
  match Config.Plan.request places config (a.layer slots places.cwd) with
  | .error (.home fault) => return .error (.value (.home fault))
  | .error (.invalid reason) => return .ok { records := loaded, result := .error (.invalid reason) }
  | .ok plan =>
    let attempt ← composePlan places plan
    return attempt.map fun attempt => { attempt with records := loaded ++ attempt.records }

/-- Composes the document that the arguments ask for. -/
def attempt [DataReaders] (places : FilePath.Places) (a : ComposeArguments) :
    FileProgram (Except Abort Attempt) := do
  match Config.SlotArguments.parse a.writtenSlots with
  | .error reason => return .ok { records := [], result := .error (.invalid reason) }
  | .ok slots =>
    if a.writtenSlots.length < a.slots.length then return .error (.mismatch ComposeArguments.vacantSlot)
    else
      match ← a.loadConfig places with
      | .error (.encoding fault) => return .error (.encoding fault)
      | .error (.value fault) => return .error (.value fault)
      | .error (.config fault) => return .ok { records := [], result := .error (.config fault) }
      | .ok config => composeWith places a slots config

/-- The text that names the file that a document is written to. An empty one
    names none. -/
def ComposeArguments.outputName (a : ComposeArguments) : Option Text := a.output.filter (· ≠ [])

/-- The path of the file that a document is written to, if there is one. -/
def outputPath (places : FilePath.Places) (a : ComposeArguments) : Option FilePath :=
  a.outputName.map fun path => places.absolute (places.expand (.ofText path))

/-- Writes a document to its file, if there is one. -/
def writeOutput (output : Option FilePath) (text : Text) :
    FileProgram (Except FileProgram.WriteFault Unit) :=
  match output with
  | some p => FileProgram.writeText p text
  | none => return .ok ()

/-- The report of a document. -/
def successReport (a : ComposeArguments) (output : Option FilePath) (c : Composition) : Report :=
  if a.json then
    { code := 0
      out := dataLines
        ([("status", .text "success".toList)] ++ c.toFields
          ++ [("output", (output.map fun p => Value.text p.toText).getD .null)]) }
  else
    let problems := problemsText a.verbose c.errors
    match output with
    | none => { code := 0, out := documentText c.text, err := problems }
    | some p =>
      let written :=
        if a.verbose then line ("Output written to: ".toList ++ p.toText) else []
      { code := 0, err := problems ++ written }

/-- The report about a document that was not written to its file. A path that
    no file can have is not reported. -/
def writeFailureReport (a : ComposeArguments) (logged : Text) :
    FileProgram.WriteFault → Except Abort Report :=
  let reported (reason : Text) : Report :=
    let message := "Failed to write output file: ".toList ++ reason
    { code := 1, err := logged ++ errorText a.json "output_error".toList message none }
  fun
  | .os fault => if fault.reason = .badName then .error (.os fault) else .ok (reported fault.message)
  | .writer reason => .ok (reported reason)

/-- The report of an attempt. A document is written before it is
    reported. -/
def report (places : FilePath.Places) (a : ComposeArguments) (attempt : Attempt) :
    FileProgram (Except Abort Report) := do
  let logged := (logging a.json a.verbose).errorText attempt.records
  match attempt.result with
  | .error obstacle => return .ok { code := 1, err := logged ++ obstacle.text a.json }
  | .ok composition =>
    match a.outputName.bind (Config.homeFault? places) with
    | some fault => return .error (.value (.home fault))
    | none =>
      let output := outputPath places a
      match ← writeOutput output composition.text with
      | .error fault => return writeFailureReport a logged fault
      | .ok () =>
        let report := successReport a output composition
        return .ok { report with err := logged ++ report.err }

/-- The command to compose a document. -/
def compose [DataReaders] (places : FilePath.Places) (a : ComposeArguments) :
    FileProgram (Except Abort Report) := do
  match ← attempt places a with
  | .error abort => return .error abort
  | .ok attempt => report places a attempt

/-! ### Listing outlets -/

/-- The report about the outlets of a template. The template on standard
    input has no label. -/
def outletsReport (json : Bool) (label : Option Text) (content : Text) : Report :=
  let template := Template.ofText content
  if json then
    { code := 0
      out := dataLines
        [("template", (label.map Value.text).getD .null),
         ("outlets", .list (template.names.map .text)),
         ("occurrences", .int template.outlets.length)] }
  else
    let header := "Outlets found".toList
      ++ ((label.map fun path => " in ".toList ++ path).getD []) ++ [':']
    let names :=
      if template.names = [] then line "No outlets found".toList
      else template.names.flatMap fun name => line ("- ".toList ++ name)
    { code := 0, out := line header ++ names }

/-- The command to list the outlets of a template. -/
def outlets (places : FilePath.Places) (a : OutletsArguments) :
    FileProgram (Except Abort Report) := do
  if a.template = ['-'] then
    let content ← FileProgram.request .standardInput
    return .ok (outletsReport a.json none content)
  else
    match Config.homeFault? places a.template with
    | some fault => return .error (.value (.home fault))
    | none =>
      let p := places.expand (.ofText a.template)
      let failed (code message : Text) : Report :=
        { code := 1, err := errorText a.json code message none }
      match ← FileProgram.findFile p with
      | .error fault => return .error (.os fault)
      | .ok false =>
        return .ok (failed "not_found".toList ("Template file not found: ".toList ++ p.toText))
      | .ok true =>
        match ← FileProgram.readText p with
        | .ok content => return .ok (outletsReport a.json (some p.toText) content)
        | .error fault =>
          return .ok (failed "read_error".toList
            ("Failed to read template ".toList ++ p.toText ++ ": ".toList ++ fault.message))

/-! ### The program -/

/-- The summary of the usage. -/
def usage : Text :=
  ("usage: mdslots [-h] [--version] <command> ...\n\n"
    ++ "mdslots - compose Markdown documents by filling outlet markers\n\n"
    ++ "commands:\n"
    ++ "  compose   Compose a Markdown template by filling its outlets\n"
    ++ "  outlets   List the outlets a template exposes\n").toList

/-- Does what a command line asks for, as it is read by a reader that drops two
    dashes in the place of a value or by one that does not. -/
def run [DataReaders] (places : FilePath.Places) (arguments : List Text)
    (dropsDashes : Bool := true) : FileProgram (Except Abort Report) :=
  match Invocation.ofArguments dropsDashes arguments with
  | .help => return .ok { code := 0, out := usage }
  | .version => return .ok { code := 0, out := line ("mdslots ".toList ++ version) }
  | .misuse => return .ok { code := 2, err := usage }
  | .compose a => compose places a
  | .outlets a => outlets places a

end Cli

end MarkdownOutlets
