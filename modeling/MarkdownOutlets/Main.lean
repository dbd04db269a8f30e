import MarkdownOutlets.Cli.Command

/-! # The program

  Runs a command line on the files of the machine. Every decision is in the
  file program of the command; here the requests of that program are put to
  the machine, and the refusals of the machine become faults.
-/

namespace MarkdownOutlets

namespace Machine

/-! ### Refusals -/

/-- The number of a refusal, whose sign some system calls turn around. -/
def errorNumber (code : UInt32) : Nat :=
  if code < 0x80000000 then code.toNat else (0 - code).toNat

/-- The number and the words of a refusal. One without a number counts as
    a failure of the device. -/
def errorWords : IO.Error → Nat × String
  | .alreadyExists _ code words | .invalidArgument _ code words
  | .permissionDenied _ code words | .resourceExhausted _ code words
  | .inappropriateType _ code words | .noSuchThing _ code words
  | .noFileOrDirectory _ code words | .interrupted _ code words
  | .otherError code words | .resourceBusy code words | .resourceVanished code words
  | .unsupportedOperation code words | .hardwareFault code words
  | .unsatisfiedConstraints code words | .illegalOperation code words
  | .protocolError code words | .timeExpired code words => (errorNumber code, words)
  | .userError words => (5, words)
  | .unexpectedEof => (5, "unexpected end of file")

/-- Why the machine refuses a request. -/
def reasonOf (e : IO.Error) : OsReason :=
  match errorWords e with
  | (2, _) => .notFound
  | (17, _) => .alreadyExists
  | (20, _) => .notDirectory
  | (21, _) => .isDirectory
  | (36, _) => .nameTooLong
  | (number, words) => .other number words.toList

/-- Does something with the name of a path. -/
def attempt {α : Type} (p : FilePath) (action : String → IO α) : IO (Except OsFault α) := do
  if p.names.any (·.contains '\x00') then return .error { reason := .badName, path := p }
  match ← (action (String.ofList p.toText)).toBaseIO with
  | .ok a => return .ok a
  | .error e => return .error { reason := reasonOf e, path := p }

/-! ### Requests -/

/-- What a name leads to. -/
def entry (name : String) : IO EntryKind := do
  match (← ((← IO.currentDir) / name).metadata).type with
  | .dir => return .directory
  | _ => return .file

/-- Makes an empty file of a new name in a directory. While the name is
    taken there are so many more attempts with other names. -/
def createTemporary (directory : FilePath) : Nat → IO FilePath
  | 0 => throw (.alreadyExists none 17 "File exists")
  | attempts + 1 => do
    let name := "tmp".toList ++ Text.ofNat (← IO.rand 0 (1000000000000))
    let p := { directory with names := directory.names ++ [name] }
    match ← (IO.FS.Handle.mk (String.ofList p.toText) .writeNew).toBaseIO with
    | .ok _ => return p
    | .error e =>
      if reasonOf e = .alreadyExists then createTemporary directory attempts else throw e

/-- Writes bytes to the end of a file. -/
def append (name : String) (bytes : Bytes) : IO Unit := do
  let file ← IO.FS.Handle.mk name .append
  file.write (ByteArray.mk bytes.toArray)
  file.flush

/-- The text on standard input, whose lines all end in a line feed. -/
def standardInput : IO Text := do
  let bytes ← (← IO.getStdin).readBinToEnd
  match Utf8.decode bytes.data.toList with
  | .ok text => return text.unifyNewlines
  | .error fault => throw (IO.userError (String.ofList fault.message))

/-- The answer of the machine to a request. -/
def answer : (r : FileRequest) → IO r.Answer
  | .entry p => attempt p entry
  | .read p => attempt p fun name => return (← IO.FS.readBinFile name).data.toList
  | .makeDirectory p => attempt p fun name => IO.FS.createDir name
  | .createTemporary directory => attempt directory fun _ => createTemporary directory 100
  | .append p bytes => attempt p fun name => append name bytes
  | .replace p target => do
    let moved ← attempt p fun name => IO.FS.rename name (String.ofList target.toText)
    return moved.mapError fun fault => { fault with target := some target }
  | .remove p => attempt p fun name => IO.FS.removeFile name
  | .standardInput => standardInput

/-- The directories that paths may be relative to. -/
def places : IO FilePath.Places := do
  let cwd := (← IO.currentDir).toString
  let home := (← IO.getEnv "HOME").getD "/"
  return { cwd := .ofText cwd.toList, home := .ofText home.toList }

end Machine

end MarkdownOutlets

open MarkdownOutlets in
/-- Does what the command line asks for and ends with the code of its report,
    or with code 1 if there is no report. -/
def main (arguments : List String) : IO UInt32 := do
  let program := Cli.run (← Machine.places) (arguments.map String.toList) false
  match ← program.run Machine.answer with
  | .error abort =>
    (← IO.getStderr).putStrLn (String.ofList abort.line)
    return 1
  | .ok report =>
    (← IO.getStdout).putStr (String.ofList report.out)
    (← IO.getStderr).putStr (String.ofList report.err)
    return report.code.toUInt32
