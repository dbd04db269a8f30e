import MarkdownOutlets.Files.Program

/-! # Ends of file programs

  A file program can be run on any file system: one that answers each request
  from a state of its own, which the request may change. `FileProgram.Ends` says
  what is known of the result of a program without knowing the file system.
-/

namespace MarkdownOutlets

namespace FileProgram

variable {α β : Type} {E : α → Prop}

/-- Whatever the answers are, the program ends with a result of the kind. -/
inductive Ends (E : α → Prop) : FileProgram α → Prop
  /-- The end. -/
  | done {a : α} (holds : E a) : Ends E (.done a)
  /-- A request, after each answer to which it does. -/
  | ask {request : FileRequest} {next : request.Answer → FileProgram α}
      (rest : ∀ answer, Ends E (next answer)) : Ends E (.ask request next)

namespace Ends

theorem bind {F : β → Prop} {p : FileProgram β} {k : β → FileProgram α} (first : Ends F p)
    (second : ∀ b, F b → Ends E (k b)) : Ends E (p.bind k) := by
  induction first with
  | done holds => exact second _ holds
  | ask _ ih => exact .ask ih

/-- A program that goes on after another one of which nothing is known. -/
theorem after {p : FileProgram β} {k : β → FileProgram α} (second : ∀ b, Ends E (k b)) :
    Ends E (p.bind k) := by
  induction p with
  | done b => exact second b
  | ask request next ih => exact .ask ih

/-- Two ways to go on that agree on the results of the kind. -/
theorem bind_congr {F : β → Prop} {p : FileProgram β} {k k' : β → FileProgram α} (ends : Ends F p)
    (same : ∀ b, F b → k b = k' b) : p.bind k = p.bind k' := by
  induction ends with
  | done holds => exact same _ holds
  | ask _ ih => exact congrArg (FileProgram.ask _) (funext ih)

end Ends

section runs

variable {σ : Type} (answer : (r : FileRequest) → StateM σ r.Answer)

@[simp] theorem run_pure_apply (a : α) (s : σ) :
    (run answer (pure a : FileProgram α)).run s = (a, s) := rfl

@[simp] theorem run_request_apply (r : FileRequest) (s : σ) :
    (run answer (request r)).run s = (answer r).run s := rfl

theorem run_bind_apply (p : FileProgram β) (k : β → FileProgram α) (s : σ) :
    (run answer (p >>= k)).run s =
      (run answer (k ((run answer p).run s).1)).run ((run answer p).run s).2 := by
  rw [bind_eq, run_bind]
  rfl

theorem Ends.run {p : FileProgram α} (ends : Ends E p) (s : σ) :
    E ((FileProgram.run answer p).run s).1 := by
  induction ends generalizing s with
  | done holds => exact holds
  | ask _ ih => exact ih _ _

end runs

end FileProgram

end MarkdownOutlets
