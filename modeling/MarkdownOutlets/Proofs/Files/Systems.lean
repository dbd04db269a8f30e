import MarkdownOutlets.Proofs.Files.Serving

/-! # File systems

  A file system has files and directories, and more: who may do what, how much room is
  left, which request will fail next. All of this is its state. An answer to a request
  may depend on all of it, but what becomes of the files and directories is what may come
  of the request to a tree (`FileTree.Serves`). So everything that is known along a
  program is known of its run on a file system (`FileProgram.Along.run_on`).

  A program that only looks leaves all files and directories as they are
  (`FileProgram.Looks.tree_run`).
-/

namespace MarkdownOutlets

/-- A file system. -/
structure FileSystem where
  /-- All that its answers depend on. -/
  State : Type
  /-- The files and directories. -/
  tree : State → FileTree
  /-- The answer to a request, and the state that is left. -/
  answer : (r : FileRequest) → StateM State r.Answer
  /-- This is one of the things that may come of the request. A new file has any name that is
      not empty. -/
  serves : ∀ r st, FileTree.Serves [] (tree st) r ((answer r).run st).1 (tree ((answer r).run st).2)

namespace FileSystem

/-- Runs a program on a file system. -/
def run {α : Type} (fs : FileSystem) (p : FileProgram α) (st : fs.State) : α × fs.State :=
  (FileProgram.run fs.answer p).run st

variable {α β : Type} (fs : FileSystem) (st : fs.State)

theorem run_pure (a : α) : fs.run (pure a) st = (a, st) := rfl

theorem run_bind (p : FileProgram β) (k : β → FileProgram α) :
    fs.run (p >>= k) st = fs.run (k (fs.run p st).1) (fs.run p st).2 :=
  FileProgram.run_bind_apply fs.answer p k st

end FileSystem

/-- The file system with a tree as its state, on which nothing fails. -/
def FileTree.system (input : Text) : FileSystem where
  State := FileTree
  tree := id
  answer := FileTree.answer input
  serves := by
    intro r t
    exact FileTree.serves_answer input (by decide) r

/-- A request that changes nothing. -/
def FileRequest.IsLook : FileRequest → Prop
  | .entry _ | .read _ | .standardInput => True
  | .makeDirectory _ | .createTemporary _ | .append .. | .replace .. | .remove _ => False

theorem FileTree.Serves.eq_of_isLook {reserved : Text} {t s : FileTree} {r : FileRequest}
    {a : r.Answer} (serves : FileTree.Serves reserved t r a s) (look : r.IsLook) : s = t := by
  cases r with
  | entry p => exact serves
  | read p => exact serves
  | standardInput => exact serves
  | _ => exact look.elim

namespace FileProgram

variable {α β : Type}

/-- All requests of the program are looks. -/
inductive Looks : FileProgram α → Prop
  /-- The end. -/
  | done (a : α) : Looks (.done a)
  /-- A look, after each answer to which there are only looks. -/
  | ask {r : FileRequest} {next : r.Answer → FileProgram α} (look : r.IsLook)
      (rest : ∀ answer, Looks (next answer)) : Looks (.ask r next)

namespace Looks

theorem bind {p : FileProgram β} {k : β → FileProgram α} (first : Looks p)
    (second : ∀ b, Looks (k b)) : Looks (p >>= k) := by
  induction first with
  | done b => exact second b
  | ask look _ ih => exact .ask look ih

theorem request {r : FileRequest} (look : r.IsLook) : Looks (FileProgram.request r) :=
  .ask look fun answer => .done answer

/-- After a program that only looks, all files and directories are as they were. -/
theorem tree_run {p : FileProgram α} (looks : Looks p) (fs : FileSystem) (st : fs.State) :
    fs.tree (fs.run p st).2 = fs.tree st := by
  induction looks generalizing st with
  | done a => rfl
  | ask look _ ih =>
    have now := (fs.serves _ st).eq_of_isLook look
    exact (ih _ _).trans now

end Looks

/-- What is known at the end of a program, whatever comes of its requests, is known of its
    run. -/
theorem Along.run_on {I : FileTree → Prop} {Q : α → FileTree → Prop} {p : FileProgram α}
    (fs : FileSystem) {st : fs.State} (along : Along [] I Q p (fs.tree st)) :
    Q (fs.run p st).1 (fs.tree (fs.run p st).2) := by
  induction p generalizing st with
  | done a =>
    cases along with
    | done holds => exact holds
  | ask r next ih =>
    cases along with
    | ask now onward => exact ih _ (onward _ _ (fs.serves r st))

end FileProgram

end MarkdownOutlets
