import MarkdownOutlets.Composition.Session
import MarkdownOutlets.Files.Reading

/-! # Sources in files

  Documents in the file system. A relative path is relative to the directory
  of the enclosing document, to a base directory, or to the directory of the
  source; an absolute path stands as it is.
-/

namespace MarkdownOutlets

/-- Documents in files, with the directory that paths are relative to. -/
structure FileSource where
  /-- The surroundings of the program. -/
  places : FilePath.Places
  /-- The directory that paths are relative to when nothing else is said, if
      it is not the working directory. -/
  directory : Option FilePath := none
  deriving DecidableEq, Repr

namespace FileSource

/-- The directory that a relative path is relative to. An empty base is
    none. -/
def anchor (s : FileSource) (base : Option Text) (mode : ResolveFrom) : FilePath :=
  match mode, base with
  | .file, some (c :: rest) => (FilePath.ofText (c :: rest)).parent
  | .cwd, some (c :: rest) => .ofText (c :: rest)
  | _, _ => s.directory.getD s.places.cwd

/-- The path of the source that a path means. A path with a home directory that
    is not there (`FilePath.Places.homeFault?`) means none, and stays as it is. -/
def resolve (s : FileSource) (path : Text) (base : Option Text) (mode : ResolveFrom) : Text :=
  let p := s.places.expand (.ofText path)
  if p.isAbsolute then p.toText
  else ((s.places.absolute (s.anchor base mode)).join p).normal.toText

/-- The path of the source that a value means whose kind nobody checked, with
    a base whose kind nobody checked. A base that counts as absent is
    none. -/
def resolveValue (s : FileSource) (path base : Value) (mode : ResolveFrom) :
    Except Mismatch Text :=
  match path.text? with
  | none => .error (.notPath path.kindName)
  | some text =>
    if (s.places.expand (.ofText text)).isAbsolute || !base.truthy then
      .ok (s.resolve text none mode)
    else
      match base.text? with
      | some base => .ok (s.resolve text (some base) mode)
      | none => .error (.notPath base.kindName)

/-- Is there a document at the path? -/
def contains (path : Text) : FileProgram Bool := FileProgram.isFile (.ofText path)

/-- Why there is no document at a path. -/
def faultOf (path : Text) : TextFault → ProviderFault
  | .os fault =>
    if fault.reason = .notFound then .source (.missing path)
    else if fault.reason.isPermission then .source (.forbidden path)
    else if fault.reason = .badName then .other fault.message
    else .source (.unreadable path fault.message)
  | .encoding fault => .source (.unreadable path fault.message)

/-- The document at a path. -/
def read (path : Text) : FileProgram (Except ProviderFault Text) := do
  return (← FileProgram.readText (.ofText path)).mapError (faultOf path)

/-- The source as a host of compositions, with the functions of a caller. -/
def host (s : FileSource) (call : Callback → FileProgram (Except Text Content)) :
    Host FileProgram where
  resolve := s.resolve
  probe path := do return .ok (← contains path)
  read := read
  call := call

end FileSource

end MarkdownOutlets
