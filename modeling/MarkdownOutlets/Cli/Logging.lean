import MarkdownOutlets.Text.Basic

/-! # Logging

  Log records go to handlers. The program has one handler of its own, which
  writes to a stream, and may have a silent one, whose only purpose is that
  there is a handler: records that meet none are written to the error stream
  if they are warnings or worse.
-/

namespace MarkdownOutlets

namespace Logging

/-! ### Levels -/

/-- How severe a record is. -/
abbrev Level := Nat

/-- The levels by name. Of two names for a level the first one is written. -/
def levels : List (Text × Level) :=
  [("NOTSET", 0), ("DEBUG", 10), ("INFO", 20), ("WARNING", 30), ("WARN", 30), ("ERROR", 40),
   ("CRITICAL", 50), ("FATAL", 50)].map fun level => (level.1.toList, level.2)

/-- The level of ordinary messages. -/
def info : Level := 20

/-- The level of warnings. -/
def warning : Level := 30

/-- The capital of a letter in the name of a level. The long s and the i
    without a dot have S and I. -/
def capital (c : Char) : Char :=
  if c = '\u017f' then 'S' else if c = '\u0131' then 'I' else c.toUpper

/-- The level of a name in letters of any case. An unknown name stands for
    ordinary messages. -/
def levelOf (name : Text) : Level := (levels.lookup (name.map capital)).getD info

/-- The name of a level. -/
def levelName (level : Level) : Text :=
  ((levels.find? fun l => l.2 = level).map (·.1)).getD ("Level ".toList ++ Text.ofNat level)

/-! ### Records and handlers -/

/-- What is logged. -/
structure LogRecord where
  /-- The name of the logger. -/
  logger : Text
  /-- The level. -/
  level : Level
  /-- The message. -/
  message : Text
  deriving DecidableEq, Repr

/-- What becomes of the records of the program. -/
inductive Handler
  /-- Records of at least a level are written to a stream. -/
  | stream (name : Text) (least : Level)
  /-- Nothing. -/
  | silent
  deriving DecidableEq, Repr

/-- The logging of the program. -/
structure Setup where
  /-- The handlers, the oldest one first. -/
  handlers : List Handler := []
  /-- The least level that is logged; zero leaves that to what holds
      outside of the program. -/
  level : Level := 0
  /-- Records are also passed on to what is outside of the program. -/
  propagate : Bool := true
  /-- The silent handler was put in place. -/
  silenced : Bool := false
  deriving DecidableEq, Repr

namespace Setup

/-- The name of the error stream. -/
def errorStream : Text := "stderr".toList

/-- Lets records of at least a level be written to a stream. A handler that
    writes already is replaced. -/
def configure (s : Setup) (level : Level) (stream : Text) : Setup :=
  { s with
    handlers := s.handlers.filter (· = .silent) ++ [.stream stream level]
    level
    propagate := false }

/-- Keeps records off the error stream if nothing else is said. -/
def suppress (s : Setup) : Setup :=
  if s.handlers ≠ [] || s.silenced then s
  else { s with handlers := [.silent], propagate := false, silenced := true }

/-- The name that all loggers of the program start with. -/
def programLogger : Text := "mdslots".toList

/-- The logger belongs to the program. -/
def isOwn (logger : Text) : Bool :=
  logger = programLogger || (programLogger ++ ['.']).isPrefixOf logger

/-- The least level of a logger. -/
def threshold (s : Setup) (logger : Text) : Level :=
  if isOwn logger && s.level ≠ 0 then s.level else warning

/-- How a record is written. -/
def line (r : LogRecord) : Text :=
  levelName r.level ++ ' ' :: r.logger ++ ": ".toList ++ r.message ++ ['\n']

/-- What is written when a record is logged, each time to a stream. -/
def output (s : Setup) (r : LogRecord) : List (Text × Text) :=
  if r.level < s.threshold r.logger then []
  else if isOwn r.logger && s.handlers ≠ [] then
    s.handlers.filterMap fun
      | .stream name least => if least ≤ r.level then some (name, line r) else none
      | .silent => none
  else if r.level < warning then []
  else [(errorStream, r.message ++ ['\n'])]

/-- What records write to the error stream. -/
def errorText (s : Setup) (records : List LogRecord) : Text :=
  (records.flatMap s.output).flatMap fun (stream, text) =>
    if stream = errorStream then text else []

end Setup

end Logging

end MarkdownOutlets
