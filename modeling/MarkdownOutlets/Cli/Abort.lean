import MarkdownOutlets.Data.ValueFault
import MarkdownOutlets.Files.Program
import MarkdownOutlets.Problem.Mismatch

/-! # Aborts

  Almost every command ends with a report. A few things that no report speaks
  of end it without one.
-/

namespace MarkdownOutlets

namespace Cli

/-- Why a command ends without a report. -/
inductive Abort
  /-- The bytes of the configuration are no text. -/
  | encoding (fault : Utf8.Fault)
  /-- A part of the configuration, or a path, has the form of a value and
      denotes none, or a value in the configuration cannot be put into
      words. -/
  | value (fault : ValueFault)
  /-- The file system refuses to look a path up, or the path is none. -/
  | os (fault : OsFault)
  /-- A value is of a kind for which something is not defined. -/
  | mismatch (m : Mismatch)
  deriving DecidableEq, Repr

namespace Abort

/-- The word for the class of an abort. -/
def className : Abort → Text
  | .encoding _ => "UnicodeDecodeError".toList
  | .value (.home .unknownUser) => "RuntimeError".toList
  | .value fault => if fault.isOverflow then "OverflowError".toList else "ValueError".toList
  | .os fault => fault.reason.className
  | .mismatch m => if m.isMissingAttribute then "AttributeError".toList else "TypeError".toList

/-- The wording of an abort. -/
def message : Abort → Text
  | .encoding fault => fault.message
  | .value fault => fault.message
  | .os fault => fault.message
  | .mismatch m => m.message

/-- What is said about an abort. -/
def line (a : Abort) : Text := a.className ++ ": ".toList ++ a.message

end Abort

end Cli

end MarkdownOutlets
