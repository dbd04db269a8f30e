import MarkdownOutlets.Cli.Logging
import MarkdownOutlets.Composition.Session
import MarkdownOutlets.Data.Json.Printer
import MarkdownOutlets.Problem.Failure

/-! # Reports

  What a command leaves behind: an exit code, and text on the standard
  output and on the error stream. Documents and lists go to the standard
  output, everything else to the error stream.
-/

namespace MarkdownOutlets

namespace Cli

/-- The result of a command. -/
structure Report where
  /-- The exit code. -/
  code : Nat
  /-- The text on the standard output. -/
  out : Text := []
  /-- The text on the error stream. -/
  err : Text := []
  deriving DecidableEq, Repr

/-! ### Texts -/

/-- A text as a line. -/
def line (t : Text) : Text := t ++ ['\n']

/-- Data as lines. -/
def dataLines (fields : List (String × Value)) : Text := line (Json.pretty (.object fields))

/-- A document, with a line feed at its end if it has none. -/
def documentText (t : Text) : Text := if t.getLast? = some '\n' then t else line t

/-- The report of a failed command. In data, a failure of the program comes
    with its details. -/
def errorText (json : Bool) (code message : Text) (failure : Option Failure) : Text :=
  if json then
    dataLines
      ([("error", .text code), ("message", .text message)]
        ++ (failure.map fun f => ("details", f.toValue)).toList)
  else line ("Error: ".toList ++ message)

/-- The lines about a problem of a composition. -/
def problemText (verbose : Bool) (r : Record) : Text :=
  if verbose then
    line ("  [".toList ++ r.kind.word ++ "] ".toList ++ r.message)
      ++ match r.path with
        | some (c :: path) => line ("    Path: ".toList ++ c :: path)
        | _ => []
  else line ("  ".toList ++ r.message)

/-- The lines about the problems of a composition, if there are any. -/
def problemsText (verbose : Bool) (errors : List Record) : Text :=
  if errors = [] then []
  else
    line "Composition completed with errors:".toList ++ errors.flatMap (problemText verbose)
      ++ line []

/-! ### Log records -/

/-- A log record. -/
def logRecord (logger : String) (level : Logging.Level) (message : Text) : Logging.LogRecord :=
  { logger := logger.toList, level, message }

/-- The level of messages about the course of a command. -/
def debug : Logging.Level := 10

/-- The depth of a chain of files among the greatest one. -/
def depthText (depth limit : Nat) : Text :=
  " (depth ".toList ++ Text.ofNat depth ++ '/' :: Text.ofNat limit ++ [')']

/-- What is logged about a note of a composition, if anything is. -/
def noteRecord? (limit : Nat) : Note → Option Logging.LogRecord
  | .problem p =>
    some (logRecord "mdslots.core.composition.engine" Logging.warning
      (p.kind.word ++ ": ".toList ++ p.message))
  | .entered path depth =>
    some (logRecord "mdslots.core.composition.tracker" debug
      ("push ".toList ++ path ++ depthText depth limit))
  | .left path depth =>
    some (logRecord "mdslots.core.composition.tracker" debug
      ("pop ".toList ++ path ++ depthText depth limit))
  | .recalled path =>
    some (logRecord "mdslots.core.composition.engine" debug ("cache hit ".toList ++ path))
  | .opened _ | .closed _ => none

/-- What is logged when a configuration was loaded. -/
def loadedRecord (path : Text) (slots : Nat) : Logging.LogRecord :=
  logRecord "mdslots.core.config.loader" debug
    ("loaded config ".toList ++ path ++ " (".toList ++ Text.ofNat slots ++ " slots)".toList)

/-- What is logged before a document is composed. -/
def composingRecord (template : Text) (slots : Nat) : Logging.LogRecord :=
  logRecord "mdslots.cli.commands.compose" debug
    ("composing ".toList ++ template ++ " with ".toList ++ Text.ofNat slots
      ++ " slot(s)".toList)

end Cli

end MarkdownOutlets
