import MarkdownOutlets.Path.Basic
import MarkdownOutlets.Text.Quoted
import MarkdownOutlets.Text.Utf8

/-! # File programs

  What is done with files is a program: a tree of requests to the file
  system with a continuation for every answer. A program can be run on a
  file tree in memory or on the files of the machine, and it can be reasoned
  about step by step.
-/

namespace MarkdownOutlets

/-! ### Faults -/

/-- Why the file system refuses a request. -/
inductive OsReason
  /-- There is nothing of this name. -/
  | notFound
  /-- There is something of this name already. -/
  | alreadyExists
  /-- Something on the way is no directory. -/
  | notDirectory
  /-- It is a directory. -/
  | isDirectory
  /-- A name has more bytes than the file system keeps. -/
  | nameTooLong
  /-- The path holds a character that no name can have. -/
  | badName
  /-- Any other reason, with the number and the words of the system. -/
  | other (number : Nat) (words : Text)
  deriving DecidableEq, Repr

/-- A refusal of the file system. -/
structure OsFault where
  /-- Why. -/
  reason : OsReason
  /-- The path concerned. -/
  path : FilePath
  /-- The path that something should have been moved to. -/
  target : Option FilePath := none
  deriving DecidableEq, Repr

namespace OsReason

/-- Number and wording of a reason, if the reason has a number. -/
def numbered : OsReason → Option (Nat × Text)
  | .notFound => some (2, "No such file or directory".toList)
  | .alreadyExists => some (17, "File exists".toList)
  | .notDirectory => some (20, "Not a directory".toList)
  | .isDirectory => some (21, "Is a directory".toList)
  | .nameTooLong => some (36, "File name too long".toList)
  | .other number words => some (number, words)
  | .badName => none

/-- The user lacks a permission: access is denied (13), or the operation is
    not permitted (1). -/
def isPermission : OsReason → Bool
  | .other number _ => number = 13 || number = 1
  | _ => false

/-- There is nothing that could be there: also where links lead in a circle
    (40), and where a handle is none (9). -/
def isAbsence : OsReason → Bool
  | .notFound | .notDirectory | .badName => true
  | .other number _ => number = 40 || number = 9
  | _ => false

/-- The word for the class of a reason. -/
def className (reason : OsReason) : Text :=
  if reason.isPermission then "PermissionError".toList
  else match reason with
    | .notFound => "FileNotFoundError".toList
    | .alreadyExists => "FileExistsError".toList
    | .notDirectory => "NotADirectoryError".toList
    | .isDirectory => "IsADirectoryError".toList
    | .badName => "ValueError".toList
    | .nameTooLong | .other .. => "OSError".toList

end OsReason

namespace OsFault

/-- The wording of a refusal. -/
def message (f : OsFault) : Text :=
  match f.reason.numbered with
  | some (n, words) =>
    let target := (f.target.map fun p => " -> ".toList ++ Text.quoted p.toText).getD []
    "[Errno ".toList ++ Text.ofNat n ++ "] ".toList ++ words ++ ": ".toList
      ++ Text.quoted f.path.toText ++ target
  | none => "embedded null byte".toList

end OsFault

/-! ### Requests -/

/-- What a path leads to. -/
inductive EntryKind
  /-- A file. -/
  | file
  /-- A directory. -/
  | directory
  deriving DecidableEq, Repr

/-- What is asked of the file system. -/
inductive FileRequest
  /-- What does the path lead to? -/
  | entry (p : FilePath)
  /-- The content of a file. -/
  | read (p : FilePath)
  /-- Make a directory. -/
  | makeDirectory (p : FilePath)
  /-- Make an empty file of a new name in a directory. -/
  | createTemporary (directory : FilePath)
  /-- Write bytes to the end of a file. -/
  | append (p : FilePath) (bytes : Bytes)
  /-- Move a file to a path, in place of a file there. -/
  | replace (p target : FilePath)
  /-- Remove a file. -/
  | remove (p : FilePath)
  /-- The text on standard input. -/
  | standardInput
  deriving DecidableEq, Repr

/-- The answers to a request. -/
def FileRequest.Answer : FileRequest → Type
  | .entry _ => Except OsFault EntryKind
  | .read _ => Except OsFault Bytes
  | .makeDirectory _ => Except OsFault Unit
  | .createTemporary _ => Except OsFault FilePath
  | .append .. => Except OsFault Unit
  | .replace .. => Except OsFault Unit
  | .remove _ => Except OsFault Unit
  | .standardInput => Text

/-! ### Programs -/

/-- A tree of requests to the file system that ends with a result. -/
inductive FileProgram (α : Type)
  /-- The end. -/
  | done (a : α)
  /-- A request, and what follows each answer. -/
  | ask (request : FileRequest) (next : request.Answer → FileProgram α)

namespace FileProgram

/-- A program that goes on after the end of another one. -/
def bind {α β : Type} : FileProgram α → (α → FileProgram β) → FileProgram β
  | .done a, k => k a
  | .ask request next, k => .ask request fun answer => (next answer).bind k

instance : Monad FileProgram where
  pure := .done
  bind := bind

/-- The program of one request. -/
def request (r : FileRequest) : FileProgram r.Answer := .ask r .done

/-- Runs a program with the given answers. -/
def run {α : Type} {m : Type → Type} [Monad m] (answer : (r : FileRequest) → m r.Answer) :
    FileProgram α → m α
  | .done a => pure a
  | .ask r next => do
    let a ← answer r
    run answer (next a)

theorem bind_eq {α β : Type} (p : FileProgram α) (k : α → FileProgram β) : p >>= k = p.bind k :=
  rfl

theorem bind_done {α : Type} (p : FileProgram α) : p.bind .done = p := by
  induction p with
  | done a => rfl
  | ask r next ih => simp [bind, ih]

theorem bind_assoc {α β γ : Type} (p : FileProgram α) (f : α → FileProgram β)
    (g : β → FileProgram γ) : (p.bind f).bind g = p.bind fun a => (f a).bind g := by
  induction p with
  | done a => rfl
  | ask r next ih => simp [bind, ih]

instance : LawfulMonad FileProgram := LawfulMonad.mk' FileProgram
  (fun x => bind_done x)
  (fun _ _ => rfl)
  (fun x f g => bind_assoc x f g)

/-- Running a program that goes on after another one. -/
theorem run_bind {α β : Type} {m : Type → Type} [Monad m] [LawfulMonad m]
    (answer : (r : FileRequest) → m r.Answer) (p : FileProgram α) (k : α → FileProgram β) :
    run answer (p.bind k) = run answer p >>= fun a => run answer (k a) := by
  induction p with
  | done a => simp [bind, run]
  | ask r next ih => simp [bind, run, ih]

end FileProgram

end MarkdownOutlets
