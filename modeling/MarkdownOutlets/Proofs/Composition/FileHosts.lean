import MarkdownOutlets.Composition.Compose
import MarkdownOutlets.Proofs.Files.Programs

/-! # Hosts that are programs over files

  A host may answer with programs over files. Run on a file system, such a host
  is one with a state (`Host.onFiles`), and to run a composition as a program
  over files is to run it against this host (`run_composeDocument`). What is
  known of hosts with a state is then known of compositions from files.
-/

namespace MarkdownOutlets

open FileProgram

variable {σ : Type} (answer : (r : FileRequest) → StateM σ r.Answer)

/-! ### Programs with a session -/

/-- The program over files does, on the file system, what the other one does: from
    each session on. -/
def RunsAs {α : Type} (x : StateT Session FileProgram α) (y : StateT Session (StateM σ) α) : Prop :=
  ∀ s : Session, FileProgram.run answer (x.run s) = y.run s

variable {answer}

theorem RunsAs.pure {α : Type} (a : α) :
    RunsAs answer (Pure.pure a) (Pure.pure a) := fun _ => rfl

theorem RunsAs.bind {α β : Type} {x : StateT Session FileProgram α} {y : StateT Session (StateM σ) α}
    {k : α → StateT Session FileProgram β} {l : α → StateT Session (StateM σ) β}
    (first : RunsAs answer x y) (rest : ∀ a, RunsAs answer (k a) (l a)) :
    RunsAs answer (x >>= k) (y >>= l) := by
  intro s
  have both : FileProgram.run answer ((x >>= k).run s) =
      (FileProgram.run answer (x.run s) >>= fun (ended : α × Session) =>
        FileProgram.run answer ((k ended.1).run ended.2)) :=
    FileProgram.run_bind answer (x.run s) _
  rw [both, first s]
  exact congrArg (y.run s >>= ·) (funext fun ended => rest ended.1 ended.2)

/-! ### Hosts -/

variable (answer)

/-- The host whose answers are those of the programs of `h` on a file system. -/
def Host.onFiles (h : Host FileProgram) : Host (StateM σ) where
  resolve := h.resolve
  probe path := FileProgram.run answer (h.probe path)
  read path := FileProgram.run answer (h.read path)
  call c := FileProgram.run answer (h.call c)

variable (h : Host FileProgram)

/-- A request has the same answer, whether the program is run then or later. -/
theorem answer_runsAs (request : Request) :
    RunsAs answer (h.answer request) ((h.onFiles answer).answer request) := by
  intro s
  cases request with
  | probe path => exact FileProgram.run_bind answer (h.probe path) _
  | read path => exact FileProgram.run_bind answer (h.read path) _
  | call c => exact FileProgram.run_bind answer (h.call c) _
  | _ => rfl

/-- A process has the same run. -/
theorem run_runsAs (p : Process) : RunsAs answer (h.run p) ((h.onFiles answer).run p) := by
  unfold Host.run
  -- The second motive is about branches one after the other.
  induction p using Process.rec (motive_2 := fun branches =>
      RunsAs answer (Process.runAll h.answer branches)
        (Process.runAll (h.onFiles answer).answer branches)) with
  | done outcome =>
    rw [Process.run, Process.run]
    exact .pure outcome
  | ask request next ih =>
    rw [Process.run, Process.run]
    exact .bind (answer_runsAs answer h request) ih
  | all branches next ih_branches ih =>
    rw [Process.run, Process.run]
    exact .bind ih_branches ih
  | nil =>
    rw [Process.runAll, Process.runAll]
    exact .pure []
  | cons b branches ih ih_branches =>
    rw [Process.runAll, Process.runAll]
    exact .bind ih fun outcome => .bind ih_branches fun outcomes => .pure (outcome :: outcomes)

/-- To run a composition on a file system is to run it against the host there. -/
theorem run_composeDocument (d : Document) (o : Options) (shared : Cache) :
    FileProgram.run answer (h.composeDocument d o shared) =
      (h.onFiles answer).composeDocument d o shared := by
  unfold Host.composeDocument Host.composeWith
  rw [← run_runsAs answer h _ _]
  exact FileProgram.run_bind answer _ _

end MarkdownOutlets
