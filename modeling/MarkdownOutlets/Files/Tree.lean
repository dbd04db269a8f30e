import MarkdownOutlets.Files.Program

/-! # File trees

  The files and directories of a machine as data. An entry is known by the
  names that lead to it from the root directory, which always exists.
-/

namespace MarkdownOutlets

/-- What a place in a tree holds. -/
inductive FileEntry
  /-- A file with its content. -/
  | file (content : Bytes)
  /-- A directory. -/
  | directory
  deriving DecidableEq, Repr

/-- Files and directories. -/
structure FileTree where
  /-- The names that lead to the working directory. -/
  cwd : List Text
  /-- What is at the places other than the root. -/
  entries : List (List Text × FileEntry)
  deriving DecidableEq, Repr

namespace FileTree

/-! ### Looking -/

/-- The entry at a place. -/
def get? (t : FileTree) (place : List Text) : Option FileEntry :=
  if place = [] then some .directory else t.entries.lookup place

/-- Greatest number of bytes of a name. -/
def maxNameLength : Nat := 255

/-- The place that names lead to from another place. Every name is looked up
    in a directory; the last one need not be there. -/
def walk (t : FileTree) (place : List Text) : List Text → Except OsReason (List Text)
  | [] => .ok place
  | name :: rest =>
    match t.get? place with
    | none => .error .notFound
    | some (.file _) => .error .notDirectory
    | some .directory =>
      if maxNameLength < (Utf8.encode name).length then .error .nameTooLong
      else if name = FilePath.up then t.walk place.dropLast rest
      else t.walk (place ++ [name]) rest

/-- Greatest number of bytes of a path. -/
def maxPathLength : Nat := 4095

/-- The place that a path leads to. A path that is too long is not even
    looked up. -/
def locate (t : FileTree) (p : FilePath) : Except OsFault (List Text) :=
  if p.names.any (·.contains '\x00') then .error { reason := .badName, path := p }
  else if maxPathLength < (Utf8.encode p.toText).length then
    .error { reason := .nameTooLong, path := p }
  else
    match t.walk (if p.isAbsolute then [] else t.cwd) p.names with
    | .ok place => .ok place
    | .error reason => .error { reason, path := p }

/-- The place that a path leads to, and what is there. -/
def find (t : FileTree) (p : FilePath) : Except OsFault (List Text × FileEntry) := do
  let place ← t.locate p
  match t.get? place with
  | some entry => return (place, entry)
  | none => .error { reason := .notFound, path := p }

/-- The content of the file that a path leads to. -/
def content (t : FileTree) (p : FilePath) : Except OsFault Bytes := do
  match ← t.find p with
  | (_, .file bytes) => return bytes
  | (_, .directory) => .error { reason := .isDirectory, path := p }

/-! ### Changing -/

/-- The entries with an entry at a place, which keeps its position. -/
def putEntry (place : List Text) (entry : FileEntry) :
    List (List Text × FileEntry) → List (List Text × FileEntry)
  | [] => [(place, entry)]
  | (p, e) :: rest =>
    if p = place then (p, entry) :: rest else (p, e) :: putEntry place entry rest

/-- The tree with an entry at a place. -/
def put (t : FileTree) (place : List Text) (entry : FileEntry) : FileTree :=
  { t with entries := putEntry place entry t.entries }

/-- The tree without the entry at a place. -/
def erase (t : FileTree) (place : List Text) : FileTree :=
  { t with entries := t.entries.filter fun e => e.1 ≠ place }

/-- A name that nothing in a directory has. -/
def freshName (t : FileTree) (directory : List Text) : Text :=
  let names := (List.range (t.entries.length + 1)).map fun n => "tmp".toList ++ Text.ofNat n
  (names.find? fun name => (t.get? (directory ++ [name])).isNone).getD "tmp".toList

/-- Makes the directory that a path leads to. -/
def makeDirectory (t : FileTree) (p : FilePath) : Except OsFault FileTree := do
  let place ← t.locate p
  match t.get? place with
  | some _ => .error { reason := .alreadyExists, path := p }
  | none => return t.put place .directory

/-- Makes an empty file of a new name in a directory. The path of the file must
    be one that can be looked up. -/
def createTemporary (t : FileTree) (directory : FilePath) :
    Except OsFault (FilePath × FileTree) := do
  match ← t.find directory with
  | (_, .file _) => .error { reason := .notDirectory, path := directory }
  | (place, .directory) =>
    let name := t.freshName place
    let p := { directory with names := directory.names ++ [name] }
    let _ ← t.locate p
    return (p, t.put (place ++ [name]) (.file []))

/-- Writes bytes to the end of a file. -/
def append (t : FileTree) (p : FilePath) (bytes : Bytes) : Except OsFault FileTree := do
  match ← t.find p with
  | (_, .directory) => .error { reason := .isDirectory, path := p }
  | (place, .file old) => return t.put place (.file (old ++ bytes))

/-- Moves a file to a path, in place of a file there. -/
def replace (t : FileTree) (p target : FilePath) : Except OsFault FileTree :=
  let concerned (f : OsFault) : OsFault := { f with path := p, target := some target }
  match t.find p, t.locate target with
  | .error f, _ => .error (concerned f)
  | _, .error f => .error (concerned f)
  | .ok (_, .directory), _ => .error (concerned { reason := .isDirectory, path := p })
  | .ok (source, .file bytes), .ok place =>
    match t.get? place with
    | some .directory => .error (concerned { reason := .isDirectory, path := p })
    | _ => .ok ((t.erase source).put place (.file bytes))

/-- Removes a file. -/
def remove (t : FileTree) (p : FilePath) : Except OsFault FileTree := do
  match ← t.find p with
  | (_, .directory) => .error { reason := .isDirectory, path := p }
  | (place, .file _) => return t.erase place

/-! ### Running programs -/

/-- The tree after a change, and whether it was made. -/
def commit (t : FileTree) : Except OsFault FileTree → Except OsFault Unit × FileTree
  | .ok t' => (.ok (), t')
  | .error f => (.error f, t)

/-- The answer to a request when `input` is the text on standard input. -/
def answer (input : Text) (r : FileRequest) : StateM FileTree r.Answer :=
  fun t =>
    match r with
    | .entry p =>
      ((t.find p).map fun found =>
        match found.2 with
        | .file _ => .file
        | .directory => .directory, t)
    | .read p => (t.content p, t)
    | .makeDirectory p => t.commit (t.makeDirectory p)
    | .createTemporary directory =>
      match t.createTemporary directory with
      | .ok (p, t') => (.ok p, t')
      | .error f => (.error f, t)
    | .append p bytes => t.commit (t.append p bytes)
    | .replace p target => t.commit (t.replace p target)
    | .remove p => t.commit (t.remove p)
    | .standardInput => (input, t)

/-- Runs a program on the tree. -/
def run {α : Type} (t : FileTree) (input : Text) (p : FileProgram α) : α × FileTree :=
  FileProgram.run (answer input) p t

end FileTree

end MarkdownOutlets
