import MarkdownOutlets.Composition.Session
import MarkdownOutlets.Path.Basic
import MarkdownOutlets.Text.Table

/-! # Sources in memory

  Documents held by absolute path, in a tree that only has a root and names.
-/

namespace MarkdownOutlets

/-- Documents in memory, with the directory that paths are relative to. -/
structure MemorySource where
  /-- The texts by path. -/
  files : TextTable
  /-- The directory that paths are relative to when nothing else is said. -/
  cwd : Text
  deriving DecidableEq, Repr

namespace MemorySource

/-- The canonical text of a path: a slash, and the names that remain without
    detours. -/
def canonical (path : Text) : Text :=
  '/' :: FilePath.joinNames (FilePath.normalNames true (FilePath.namesOf path))

/-- The directory of a document: what stands before its last slash. A path
    without a slash is its own directory. -/
def directory (document : Text) : Text :=
  match Text.cutLast '/' document with
  | some ([], _) => ['/']
  | some (dir, _) => dir
  | none => document

/-- The directory that a relative path is relative to. An empty base is
    none. -/
def anchor (cwd : Text) (base : Option Text) (mode : ResolveFrom) : Text :=
  match mode, base with
  | .file, some (c :: rest) => directory (c :: rest)
  | .cwd, some (c :: rest) => c :: rest
  | _, _ => cwd

/-- The path of the source that a path means. -/
def resolve (cwd path : Text) (base : Option Text) (mode : ResolveFrom) : Text :=
  match path with
  | '/' :: _ => canonical path
  | _ => canonical (Text.dropEndWhile (· == '/') (anchor cwd base mode) ++ '/' :: path)

/-- The path of the source that a value means whose kind nobody checked, with
    a base whose kind nobody checked. A base that counts as absent is
    none. -/
def resolveValue (cwd : Text) (path base : Value) (mode : ResolveFrom) : Except Mismatch Text :=
  match path.text?, base.text? with
  | none, _ => .error (.noAttribute path.kindName "startswith".toList)
  | some ('/' :: names), _ => .ok (resolve cwd ('/' :: names) none mode)
  | some path, none =>
    if base.truthy then .error (.noAttribute base.kindName "rstrip".toList)
    else .ok (resolve cwd path none mode)
  | some path, some base => .ok (resolve cwd path (some base) mode)

/-- Is there a document at the path? -/
def contains (m : MemorySource) (path : Text) : Bool := (m.files.get? path).isSome

/-- The document at a path. -/
def read (m : MemorySource) (path : Text) : Except SourceFault Text :=
  match m.files.get? path with
  | some text => .ok text
  | none => .error (.missing path)

/-- The source with a document at a path. -/
def put (m : MemorySource) (path text : Text) : MemorySource :=
  { m with files := m.files.put path text }

/-- The source without a document at a path. -/
def remove (m : MemorySource) (path : Text) : MemorySource :=
  { m with files := m.files.erase path }

/-- The source as a host of compositions, with the functions of a caller. -/
def host {μ : Type → Type} [Monad μ] (m : MemorySource)
    (call : Callback → μ (Except Text Content)) : Host μ where
  resolve := resolve m.cwd
  probe path := pure (.ok (m.contains path))
  read path := pure ((m.read path).mapError .source)
  call := call

end MemorySource

end MarkdownOutlets
