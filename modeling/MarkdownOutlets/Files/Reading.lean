import MarkdownOutlets.Data.Format
import MarkdownOutlets.Files.Program

/-! # Reading files

  A file is read as a text, whose lines then all end in a line feed, or as
  data in one of two formats. For data, a file that is not there and a file
  that holds something else may be replaced by a standard value; bytes that
  are no text, and texts in the form of a value that denote none, may not.
-/

namespace MarkdownOutlets

/-! ### Texts -/

/-- Why a file has no text. -/
inductive TextFault
  /-- The file system refuses to read it. -/
  | os (fault : OsFault)
  /-- Its bytes are no text. -/
  | encoding (fault : Utf8.Fault)
  deriving DecidableEq, Repr

/-- The wording of a fault. -/
def TextFault.message : TextFault → Text
  | .os fault => fault.message
  | .encoding fault => fault.message

/-- The text in the content of a file. -/
def textOfBytes (bytes : Bytes) : Except Utf8.Fault Text :=
  (Utf8.decode bytes).map Text.unifyNewlines

namespace FileProgram

/-- The path leads to a file. -/
def isFile (p : FilePath) : FileProgram Bool := do
  match ← request (.entry p) with
  | .ok .file => return true
  | _ => return false

/-- The path leads to a file; a refusal that leaves that open. -/
def findFile (p : FilePath) : FileProgram (Except OsFault Bool) := do
  match ← request (.entry p) with
  | .ok kind => return .ok (kind = .file)
  | .error fault => if fault.reason.isAbsence then return .ok false else return .error fault

/-- The text of a file. -/
def readText (p : FilePath) : FileProgram (Except TextFault Text) := do
  match ← request (.read p) with
  | .error fault => return .error (.os fault)
  | .ok bytes =>
    match textOfBytes bytes with
    | .error fault => return .error (.encoding fault)
    | .ok text => return .ok text

end FileProgram

/-! ### Data -/

/-- Why a file has no data. -/
inductive DataFault
  /-- There is no file. -/
  | missing (p : FilePath)
  /-- The file system refuses to look the path up. -/
  | unreachable (fault : OsFault)
  /-- The file system refuses to read the file. -/
  | os (fault : OsFault)
  /-- Its bytes are no text. -/
  | encoding (fault : Utf8.Fault)
  /-- Its text is not of the format, for a reason in words. -/
  | malformed (format : DataFormat) (reason : Text)
  /-- A part of its text has the form of a value and denotes none. -/
  | value (fault : ValueFault)
  deriving DecidableEq, Repr

namespace DataFault

/-- The wording of a fault. -/
def message : DataFault → Text
  | .missing p => "File not found: ".toList ++ p.toText
  | .unreachable fault | .os fault => fault.message
  | .encoding fault => fault.message
  | .malformed _ reason => reason
  | .value fault => fault.message

/-- A standard value may stand in for the data. -/
def isExcusable : DataFault → Bool
  | .missing _ | .os _ | .malformed .. => true
  | .unreachable _ | .encoding _ | .value _ => false

/-- A fault that a reader of a format finds. -/
def ofRead (format : DataFormat) : ReadFault → DataFault
  | .malformed reason => .malformed format reason
  | .value fault => .value fault

end DataFault

namespace DataFormat

variable [DataReaders]

/-- The data that a text denotes. -/
def parse (format : DataFormat) (t : Text) : Except DataFault Value :=
  (DataReaders.parse format t).mapError (.ofRead format)

/-- Why bytes denote no data that are no text. -/
def encodingFault (format : DataFormat) (bytes : Bytes) (fault : Utf8.Fault) : DataFault :=
  match format with
  | .json => .encoding fault
  | .yaml =>
    match DataReaders.streamFault bytes fault with
    | .ok fault => .encoding fault
    | .error reason => .ofRead .yaml reason

/-- The data in the content of a file. -/
def ofBytes (format : DataFormat) (bytes : Bytes) : Except DataFault Value :=
  match textOfBytes bytes with
  | .ok t => format.parse t
  | .error fault => .error (format.encodingFault bytes fault)

end DataFormat

namespace FileProgram

/-- The data of a file. -/
def readData [DataReaders] (format : DataFormat) (p : FilePath) : FileProgram (Except DataFault Value) := do
  match ← request (.entry p) with
  | .error fault =>
    return .error (if fault.reason.isAbsence then .missing p else .unreachable fault)
  | .ok _ =>
    match ← request (.read p) with
    | .error fault => return .error (.os fault)
    | .ok bytes => return format.ofBytes bytes

/-- A value, or the standard one for null in a YAML file, where an empty
    file is null. -/
def orStandard (format : DataFormat) (standard v : Value) : Value :=
  if format = .yaml && v.isNull then standard else v

/-- The data of a file, with a standard value for an empty YAML file and,
    unless `strict`, for every excusable fault. -/
def readDataOr [DataReaders] (format : DataFormat) (p : FilePath) (standard : Value)
    (strict : Bool) : FileProgram (Except DataFault Value) := do
  match ← readData format p with
  | .ok v => return .ok (orStandard format standard v)
  | .error fault =>
    if fault.isExcusable && !strict then return .ok standard else return .error fault

end FileProgram

end MarkdownOutlets
