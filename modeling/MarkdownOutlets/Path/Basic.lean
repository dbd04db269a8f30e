import MarkdownOutlets.Text.Basic

/-! # Paths

  A path is a sequence of names after a root. Repeated slashes, a trailing
  slash and the name `.` say nothing and are dropped when a path is read;
  the name `..` stays until the path is normalised. Nothing here looks at
  files: all operations are lexical.
-/

namespace MarkdownOutlets

/-- Where a path starts. -/
inductive Root
  /-- At some directory that the path does not name. -/
  | relative
  /-- At the root directory. -/
  | single
  /-- At what exactly two leading slashes mean. -/
  | double
  deriving DecidableEq, Repr

/-- A path. -/
structure FilePath where
  /-- Where it starts. -/
  root : Root
  /-- The names that lead on, none of them empty or `.`. -/
  names : List Text
  deriving DecidableEq, Repr

namespace Root

/-- The root that a text starts with. -/
def ofText : Text → Root
  | ['/', '/'] => .double
  | '/' :: '/' :: c :: _ => if c = '/' then .single else .double
  | '/' :: _ => .single
  | _ => .relative

/-- The slashes that stand for a root. -/
def slashes : Root → Text
  | .relative => []
  | .single => ['/']
  | .double => ['/', '/']

end Root

namespace FilePath

/-! ### Names -/

/-- The name of the directory itself. -/
def here : Text := ['.']

/-- The name of the directory above. -/
def up : Text := ['.', '.']

/-- The names in a text: what stands between slashes and says something. -/
def namesOf (t : Text) : List Text :=
  (Text.split '/' t).filter fun name => name ≠ [] ∧ name ≠ here

/-- One more name behind a normalised sequence. The directory above takes
    the last name back; at the root it says nothing, and in a relative path
    it stays where there is no name to take back. -/
def follow (rooted : Bool) (sofar : List Text) (name : Text) : List Text :=
  if name = up then
    match sofar.getLast? with
    | none => if rooted then [] else [up]
    | some last => if last = up then sofar ++ [up] else sofar.dropLast
  else sofar ++ [name]

/-- A sequence of names without the detours over the directory above. -/
def normalNames (rooted : Bool) (names : List Text) : List Text :=
  names.foldl (follow rooted) []

/-- Names with a slash between each two. -/
def joinNames (names : List Text) : Text := Text.join ['/'] names

/-! ### Paths as texts -/

/-- The path that a text means. -/
def ofText (t : Text) : FilePath := { root := .ofText t, names := namesOf t }

/-- The text of a path. A path without root and names is the directory
    itself. -/
def toText (p : FilePath) : Text :=
  match p.root, p.names with
  | .relative, [] => here
  | root, names => root.slashes ++ joinNames names

/-! ### Operations -/

/-- The path starts at a root. -/
def isAbsolute (p : FilePath) : Bool := p.root ≠ .relative

/-- The path that `q` means in the directory `p`. -/
def join (p q : FilePath) : FilePath :=
  if q.isAbsolute then q else { p with names := p.names ++ q.names }

/-- The directory that holds the path. -/
def parent (p : FilePath) : FilePath := { p with names := p.names.dropLast }

/-- The last name of a path. -/
def name (p : FilePath) : Text := p.names.getLast?.getD []

/-- The path without detours over the directory above. -/
def normal (p : FilePath) : FilePath :=
  { p with names := normalNames p.isAbsolute p.names }

/-- The last name ends with a point and the given letters, of either case,
    and something stands before the point. -/
def hasExtension (p : FilePath) (extension : Text) : Bool :=
  match Text.cutLast '.' p.name with
  | some (_ :: _, found) => found.map Char.toLower = extension
  | _ => false

/-! ### Surroundings -/

/-- Why a path in a home directory leads nowhere. -/
inductive HomeFault
  /-- Nobody knows a user of the name. -/
  | unknownUser
  /-- The name holds a character that no name can have. -/
  | badName
  deriving DecidableEq, Repr

/-- The wording of a fault. -/
def HomeFault.message : HomeFault → Text
  | .unknownUser => "Could not determine home directory.".toList
  | .badName => "embedded null byte".toList

/-- The directories that a path may be relative to. -/
structure Places where
  /-- The working directory, an absolute path. -/
  cwd : FilePath
  /-- The home directory of the user. -/
  home : FilePath
  /-- The home directories of the users who are known, by name. -/
  users : List (Text × FilePath) := []
  deriving DecidableEq, Repr

namespace Places

/-- The home directory that is meant by a tilde and the name of a user, or
    by a tilde alone. -/
def homeOf? (w : Places) (user : Text) : Option FilePath :=
  if user = [] then some w.home else w.users.lookup user

/-- A path whose first name is a tilde, with or without the name of a user,
    as a path in the home directory that is meant. If there is none, it
    stays as it is; `homeFault?` says why. -/
def expand (w : Places) (p : FilePath) : FilePath :=
  match p.root, p.names with
  | .relative, ('~' :: user) :: rest =>
    match w.homeOf? user with
    | some home => { home with names := home.names ++ rest }
    | none => p
  | _, _ => p

/-- Why the home directory that a path starts with is not there, if it is
    not. -/
def homeFault? (w : Places) (p : FilePath) : Option HomeFault :=
  match p.root, p.names with
  | .relative, ('~' :: user) :: _ =>
    if (w.homeOf? user).isSome then none
    else if user.contains '\x00' then some .badName
    else some .unknownUser
  | _, _ => none

/-- A path as an absolute one. -/
def absolute (w : Places) (p : FilePath) : FilePath := w.cwd.join p

/-- The path in the directory `p` that a text means, normalised. -/
def within (w : Places) (p : FilePath) (t : Text) : Text :=
  (p.join (w.expand (.ofText t))).normal.toText

end Places

end FilePath

end MarkdownOutlets
