import MarkdownOutlets.Files.Program

/-! # Writing files

  A file is written as a whole or not at all: the content goes to a new file
  in the same directory, which then takes the place of the file. Missing
  directories on the way are made first.
-/

namespace MarkdownOutlets

namespace FileProgram

/-- The path is a directory. -/
def isDirectory (p : FilePath) : FileProgram Bool := do
  match ← request (.entry p) with
  | .ok .directory => return true
  | _ => return false

/-- Ends well if a directory that could not be made is there. -/
def ifDirectory (p : FilePath) (fault : OsFault) : FileProgram (Except OsFault Unit) := do
  if ← isDirectory p then return .ok () else return .error fault

/-- Makes the directory of the given names, the last one first, and those on
    the way to it that are missing. -/
def makeDirectoriesAt (root : Root) : List Text → FileProgram (Except OsFault Unit)
  | [] => do
    let p : FilePath := { root, names := [] }
    match ← request (.makeDirectory p) with
    | .ok () => return .ok ()
    | .error fault =>
      if fault.reason = .notFound then return .error fault else ifDirectory p fault
  | name :: above => do
    let p : FilePath := { root, names := (name :: above).reverse }
    match ← request (.makeDirectory p) with
    | .ok () => return .ok ()
    | .error fault =>
      if fault.reason = .notFound then
        match ← makeDirectoriesAt root above with
        | .error fault => return .error fault
        | .ok () =>
          match ← request (.makeDirectory p) with
          | .ok () => return .ok ()
          | .error fault =>
            if fault.reason = .notFound then return .error fault else ifDirectory p fault
      else ifDirectory p fault

/-- Makes the directory that holds a path, if it is missing. -/
def makeParent (p : FilePath) : FileProgram (Except OsFault Unit) :=
  makeDirectoriesAt p.root p.parent.names.reverse

/-- Why a file was not written. -/
inductive WriteFault
  /-- The file system refused a request. -/
  | os (fault : OsFault)
  /-- The writer failed for a reason of its own. -/
  | writer (reason : Text)
  deriving DecidableEq, Repr

/-- Writes chunks to the end of a file, up to the first refusal. -/
def appendAll (p : FilePath) : List Bytes → FileProgram (Except OsFault Unit)
  | [] => return .ok ()
  | chunk :: rest => do
    match ← request (.append p chunk) with
    | .ok () => appendAll p rest
    | .error fault => return .error fault

/-- Removes the new file and reports why it was not put in place. -/
def giveUp (temporary : FilePath) (fault : WriteFault) : FileProgram (Except WriteFault Unit) := do
  let _ ← request (.remove temporary)
  return .error fault

/-- Writes a file with what a writer produces: some chunks, after which it
    ends or fails for a reason. -/
def writeAtomically (p : FilePath) (chunks : List Bytes) (failure : Option Text) :
    FileProgram (Except WriteFault Unit) := do
  match ← makeParent p with
  | .error fault => return .error (.os fault)
  | .ok () =>
    match ← request (.createTemporary p.parent) with
    | .error fault => return .error (.os fault)
    | .ok temporary =>
      match ← appendAll temporary chunks, failure with
      | .error fault, _ => giveUp temporary (.os fault)
      | .ok (), some reason => giveUp temporary (.writer reason)
      | .ok (), none =>
        match ← request (.replace temporary p) with
        | .ok () => return .ok ()
        | .error fault => giveUp temporary (.os fault)

/-- Writes a file with a text as its content. -/
def writeText (p : FilePath) (content : Text) : FileProgram (Except WriteFault Unit) :=
  writeAtomically p [Utf8.encode content] none

end FileProgram

end MarkdownOutlets
