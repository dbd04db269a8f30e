import MarkdownOutlets.Cli.Grammar
import MarkdownOutlets.Document.Options

/-! # Invocations

  What a command line asks the program to do: to compose a document, to list
  the outlets of a template, or to say something about itself. A command
  line that asks for nothing of this kind is a misuse.
-/

namespace MarkdownOutlets

namespace Cli

/-! ### Requests -/

/-- The options of the program and its commands. -/
inductive Key
  /-- Print a summary of the usage. -/
  | help
  /-- Print the version. -/
  | version
  /-- Fill a slot. -/
  | slot
  /-- Use a configuration file. -/
  | config
  /-- Write the document to a file. -/
  | output
  /-- What happens to an outlet without a slot value. -/
  | onMissingSlot
  /-- What happens when a file cannot be read. -/
  | onFileError
  /-- What relative paths are relative to. -/
  | resolveFrom
  /-- How many files may be nested. -/
  | maxDepth
  /-- Resolve slots one after the other. -/
  | sequential
  /-- Print data instead of text. -/
  | json
  /-- Print what happens. -/
  | verbose
  deriving DecidableEq, Repr

/-- What an option of a composition is given. -/
inductive Given (α : Type)
  /-- The option does not occur. -/
  | nothing
  /-- The option occurs, and its value is left out. -/
  | vacant
  /-- The option occurs with a value. -/
  | value (a : α)
  deriving DecidableEq, Repr

/-- What the command to compose a document is given. -/
structure ComposeArguments where
  /-- The path of the template. -/
  template : Option Text := none
  /-- The slots, as they are written, `none` for one that is left out. -/
  slots : List (Option Text) := []
  /-- The path of the configuration file. -/
  config : Option Text := none
  /-- The path of the file that the document is written to. -/
  output : Option Text := none
  /-- What happens to an outlet without a slot value. -/
  onMissingSlot : Given OnMissingSlot := .nothing
  /-- What happens when a file cannot be read. -/
  onFileError : Given OnFileError := .nothing
  /-- What relative paths are relative to. -/
  resolveFrom : Given ResolveFrom := .nothing
  /-- How many files may be nested. -/
  maxDepth : Given Int := .nothing
  /-- Slots are resolved one after the other. -/
  sequential : Bool := false
  /-- Data is printed instead of text. -/
  json : Bool := false
  /-- It is printed what happens. -/
  verbose : Bool := false
  deriving DecidableEq, Repr

/-- What the command to list outlets is given. -/
structure OutletsArguments where
  /-- The path of the template. -/
  template : Text := []
  /-- Data is printed instead of text. -/
  json : Bool := false
  deriving DecidableEq, Repr

/-- What a command line asks for. -/
inductive Invocation
  /-- A summary of the usage. -/
  | help
  /-- The version. -/
  | version
  /-- A document. -/
  | compose (a : ComposeArguments)
  /-- The outlets of a template. -/
  | outlets (a : OutletsArguments)
  /-- Nothing that the program does. -/
  | misuse
  deriving DecidableEq, Repr

/-! ### Grammars -/

section grammars

variable (dropsDashes : Bool)

/-- An option without value. -/
def flag (key : Key) (names : List String) : OptionRule Key :=
  { key, names := names.map String.toList, takesValue := false }

/-- An option with a value. -/
def setting (key : Key) (names : List String) : OptionRule Key :=
  { key, names := names.map String.toList, takesValue := true }

/-- What stands in front of a command. -/
def programGrammar : Grammar Key where
  options := [flag .help ["-h", "--help"], flag .version ["--version"]]
  operands := .command
  dropsDashes

/-- What the command to compose a document takes. -/
def composeGrammar : Grammar Key where
  options :=
    [flag .help ["-h", "--help"], setting .slot ["--slot", "-s"],
     setting .config ["--config", "-c"], setting .output ["--output", "-o"],
     setting .onMissingSlot ["--on-missing-slot"], setting .onFileError ["--on-file-error"],
     setting .resolveFrom ["--resolve-from"], setting .maxDepth ["--max-depth"],
     flag .sequential ["--sequential"], flag .json ["--json"],
     flag .verbose ["--verbose", "-v"]]
  operands := .atMostOne
  dropsDashes

/-- What the command to list outlets takes. -/
def outletsGrammar : Grammar Key where
  options := [flag .help ["-h", "--help"], flag .json ["--json"]]
  operands := .one
  dropsDashes

end grammars

/-! ### Reading -/

/-- Takes the parts of a command line one after the other, up to the first
    that settles what is asked for. -/
def takeParts {α : Type} (take : α → Part Key → Except Invocation α) (start : α)
    (r : Reading Key) : Except Invocation α := do
  let a ← r.parts.foldlM take start
  if r.complete then return a else .error .misuse

/-- A value that is read, or a misuse. -/
def orMisuse {α : Type} : Option α → Except Invocation α
  | some a => .ok a
  | none => .error .misuse

/-- Takes a part of the command to compose a document. -/
def takeCompose (a : ComposeArguments) : Part Key → Except Invocation ComposeArguments
  | .flag .help => .error .help
  | .flag .sequential => .ok { a with sequential := true }
  | .flag .json => .ok { a with json := true }
  | .flag .verbose => .ok { a with verbose := true }
  | .setting .slot raw => .ok { a with slots := a.slots ++ [some raw] }
  | .vacant .slot => .ok { a with slots := a.slots ++ [none] }
  | .setting .config path => .ok { a with config := some path }
  | .vacant .config => .ok { a with config := none }
  | .setting .output path => .ok { a with output := some path }
  | .vacant .output => .ok { a with output := none }
  | .setting .onMissingSlot word => do
    return { a with onMissingSlot := .value (← orMisuse (OnMissingSlot.words.lookup word)) }
  | .vacant .onMissingSlot => .ok { a with onMissingSlot := .vacant }
  | .setting .onFileError word => do
    return { a with onFileError := .value (← orMisuse (OnFileError.words.lookup word)) }
  | .vacant .onFileError => .ok { a with onFileError := .vacant }
  | .setting .resolveFrom word => do
    return { a with resolveFrom := .value (← orMisuse (ResolveFrom.words.lookup word)) }
  | .vacant .resolveFrom => .ok { a with resolveFrom := .vacant }
  | .setting .maxDepth digits => do
    return { a with maxDepth := .value (← orMisuse (Text.toInt? digits)) }
  | .vacant .maxDepth => .ok { a with maxDepth := .vacant }
  | .operand path => .ok { a with template := some path }
  | _ => .error .misuse

/-- Takes a part of the command to list outlets. -/
def takeOutlets (a : OutletsArguments) : Part Key → Except Invocation OutletsArguments
  | .flag .help => .error .help
  | .flag .json => .ok { a with json := true }
  | .operand path => .ok { a with template := path }
  | _ => .error .misuse

section reading

variable (dropsDashes : Bool)

/-- What a command asks for, and the arguments that it does not know. -/
def takeCommand (name : Text) (arguments : List Text) :
    Except Invocation (Invocation × List Text) := do
  if name = "compose".toList then
    let r := (composeGrammar dropsDashes).read arguments
    return (.compose (← takeParts takeCompose {} r), r.extras)
  else if name = "outlets".toList then
    let r := (outletsGrammar dropsDashes).read arguments
    return (.outlets (← takeParts takeOutlets {} r), r.extras)
  else .error .misuse

/-- Takes a part of the whole command line. Without a command it asks for
    the summary. -/
def takeProgram (_ : Invocation × List Text) : Part Key →
    Except Invocation (Invocation × List Text)
  | .flag .help => .error .help
  | .flag .version => .error .version
  | .command name arguments => takeCommand dropsDashes name arguments
  | _ => .error .misuse

namespace Invocation

/-- What a command line asks for. Arguments that no command knows are a
    misuse, unless something is asked for before that. -/
def ofArguments (arguments : List Text) : Invocation :=
  let r := (programGrammar dropsDashes).read arguments
  match takeParts (takeProgram dropsDashes) (.help, []) r with
  | .error settled => settled
  | .ok (asked, extras) => if r.extras = [] && extras = [] then asked else .misuse

end Invocation

end reading

end Cli

end MarkdownOutlets
