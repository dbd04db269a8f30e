import MarkdownOutlets.Proofs.Process.Interleaving

/-! # Monitors

  A branch of a process has a line of its own: the requests that it makes and
  those that were made before it was forked off, each one with its answer. The
  requests of other branches are not on its line, and neither are those of
  the branches that it waits for.

  A monitor follows a line. It keeps a state, and says which requests are
  allowed in it. `Accepts` says that a process only ever makes allowed
  requests, whatever the answers are; it is proved along the structure of the
  process, and holds then on the line of every branch (`Accepts.branch`) and
  along every run without branches (`Accepts.steps`).
-/

namespace MarkdownOutlets

namespace Process

/-! ### Lines -/

/-- A request and its answer. -/
structure Exchange where
  /-- The request. -/
  request : Request
  /-- The answer. -/
  answer : request.Answer

/-- What a process can become on its own line, with the exchanges so far. It
    may wait for branches, and goes on with whatever their outcomes are. -/
inductive Line (p : Process) : List Exchange → Process → Prop
  /-- The start. -/
  | here : Line p [] p
  /-- A request is answered. -/
  | ask {es : List Exchange} {request : Request} {next : request.Answer → Process}
      (line : Line p es (.ask request next)) (answer : request.Answer) :
      Line p (es ++ [⟨request, answer⟩]) (next answer)
  /-- All branches came to their end. -/
  | join {es : List Exchange} {branches : List Process} {next : List Outcome → Process}
      (line : Line p es (.all branches next)) (outcomes : List Outcome) : Line p es (next outcomes)

/-- What a branch of a process can become on its line. -/
inductive Branch (p : Process) : List Exchange → Process → Prop
  /-- The process itself. -/
  | line {es : List Exchange} {q : Process} (line : Line p es q) : Branch p es q
  /-- A branch that another one waits for. -/
  | fork {es fs : List Exchange} {branches : List Process} {next : List Outcome → Process}
      {b q : Process} (before : Branch p es (.all branches next)) (mem : b ∈ branches)
      (line : Line b fs q) : Branch p (es ++ fs) q

theorem Branch.ask {p : Process} {es : List Exchange} {request : Request}
    {next : request.Answer → Process} (branch : Branch p es (.ask request next))
    (answer : request.Answer) : Branch p (es ++ [⟨request, answer⟩]) (next answer) := by
  cases branch with
  | line line => exact .line (line.ask answer)
  | fork before mem line =>
    rw [List.append_assoc]
    exact .fork before mem (line.ask answer)

theorem Branch.join {p : Process} {es : List Exchange} {branches : List Process}
    {next : List Outcome → Process} (branch : Branch p es (.all branches next))
    (outcomes : List Outcome) : Branch p es (next outcomes) := by
  cases branch with
  | line line => exact .line (line.join outcomes)
  | fork before mem line => exact .fork before mem (line.join outcomes)

theorem Branch.trans {p q r : Process} {es fs : List Exchange} (first : Branch p es q)
    (second : Branch q fs r) : Branch p (es ++ fs) r := by
  -- The line of the second process goes on where that of the first one stopped.
  induction second with
  | line line =>
    induction line with
    | here => simpa using first
    | ask _ answer ih =>
      rw [← List.append_assoc]
      exact ih.ask answer
    | join _ outcomes ih => exact ih.join outcomes
  | fork _ mem line ih =>
    rw [← List.append_assoc]
    exact .fork ih mem line

/-! ### Lines of a run -/

/-- One of the branches that a process stands at is about to make a
    request. -/
inductive Asks : Process → (request : Request) → (request.Answer → Process) → Prop
  /-- The process itself is. -/
  | here (request : Request) (next : request.Answer → Process) : Asks (.ask request next) request next
  /-- One of those that it waits for is. -/
  | branch {branches : List Process} (finish : List Outcome → Process) {b : Process}
      (mem : b ∈ branches) {request : Request} {next : request.Answer → Process}
      (asks : Asks b request next) : Asks (.all branches finish) request next

mutual

/-- What a process can become by steps of all its branches. -/
inductive Becomes : Process → Process → Prop
  /-- A process on its own line. -/
  | line {p q : Process} {es : List Exchange} (line : Line p es q) : Becomes p q
  /-- A process that waits for its branches while they go on. -/
  | waits {p : Process} {es : List Exchange} {branches now : List Process}
      {next : List Outcome → Process} (line : Line p es (.all branches next))
      (each : Become branches now) : Becomes p (.all now next)

/-- Processes each of which some of the given ones can become. -/
inductive Become : List Process → List Process → Prop
  /-- No process. -/
  | nil (branches : List Process) : Become branches []
  /-- One more process. -/
  | cons {branches now : List Process} {b c : Process} (mem : b ∈ branches) (one : Becomes b c)
      (rest : Become branches now) : Become branches (c :: now)

end

theorem Becomes.refl (p : Process) : Becomes p p := .line .here

theorem become_iff {branches now : List Process} :
    Become branches now ↔ ∀ c ∈ now, ∃ b ∈ branches, Becomes b c := by
  induction now with
  | nil => exact ⟨fun _ => by simp, fun _ => .nil branches⟩
  | cons c now ih =>
    rw [List.forall_mem_cons, ← ih]
    constructor
    · intro h
      cases h with
      | cons mem one rest => exact ⟨⟨_, mem, one⟩, rest⟩
    · rintro ⟨⟨b, mem, one⟩, rest⟩
      exact .cons mem one rest

section interleaving

variable {σ : Type} {answer : (request : Request) → StateM σ request.Answer}

theorem Becomes.step {p q q' : Process} {s t : σ} (h : Becomes p q) (step : Step answer q s q' t) :
    Becomes p q' := by
  induction step generalizing p with
  | ask request next s =>
    cases h with
    | line line => exact .line (line.ask _)
  | @branch b b' s t front back next step ih =>
    -- Only `b` took a step; the others are as they were.
    have only_b {each : Process → Prop} (others : ∀ c ∈ front ++ b :: back, each c) (here : each b') :
        ∀ c ∈ front ++ b' :: back, each c := by
      intro c mem
      simp only [List.mem_append, List.mem_cons] at mem others
      rcases mem with mem | rfl | mem
      · exact others c (.inl mem)
      · exact here
      · exact others c (.inr (.inr mem))
    cases h with
    | line line =>
      -- This is the first step of a branch since the branches were forked off.
      refine .waits line (become_iff.mpr (only_b (fun c mem => ⟨c, mem, .refl c⟩) ?_))
      exact ⟨b, by simp, ih (.refl b)⟩
    | waits line each =>
      rw [become_iff] at each
      obtain ⟨b₀, mem, becomes⟩ := each b (by simp)
      exact .waits line (become_iff.mpr (only_b each ⟨b₀, mem, ih becomes⟩))
  | join outcomes next s =>
    cases h with
    | line line => exact .line (line.join outcomes)
    | waits line each => exact .line (line.join outcomes)

theorem Becomes.of_steps {p q : Process} {s t : σ} (steps : Steps answer p s q t) : Becomes p q := by
  induction steps with
  | refl => exact .refl p
  | tail _ step ih => exact ih.step step

/-- A branch that is about to make a request has a line. -/
theorem Becomes.exists_branch {p q : Process} {request : Request}
    {next : request.Answer → Process} (h : Becomes p q) (asks : Asks q request next) :
    ∃ es, Branch p es (.ask request next) := by
  induction asks generalizing p with
  | here request next =>
    cases h with
    | line line => exact ⟨_, .line line⟩
  | branch finish mem asks ih =>
    -- The line of the branch goes on from where it was forked off.
    cases h with
    | line line =>
      obtain ⟨fs, branch⟩ := ih (.refl _)
      exact ⟨_, Branch.trans (.fork (.line line) mem .here) branch⟩
    | waits line each =>
      obtain ⟨b₀, mem₀, becomes⟩ := become_iff.mp each _ mem
      obtain ⟨fs, branch⟩ := ih becomes
      exact ⟨_, Branch.trans (.fork (.line line) mem₀ .here) branch⟩

/-- In every interleaving, a branch that is about to make a request has a
    line. -/
theorem Steps.exists_branch {p q : Process} {s t : σ} (steps : Steps answer p s q t)
    {request : Request} {next : request.Answer → Process} (asks : Asks q request next) :
    ∃ es, Branch p es (.ask request next) :=
  (Becomes.of_steps steps).exists_branch asks

end interleaving

end Process

/-! ### Monitors -/

/-- A monitor with states `ω`. -/
structure Monitor (ω : Type) where
  /-- The requests that are allowed in a state. -/
  allows : ω → Request → Prop
  /-- The state after a request was answered. -/
  next : ω → (request : Request) → request.Answer → ω
  /-- Whether processes may have branches. -/
  forks : Prop

namespace Monitor

variable {ω : Type} (M : Monitor ω)

/-- The state after some exchanges. -/
def replay (w : ω) (es : List Process.Exchange) : ω :=
  es.foldl (fun w e => M.next w e.request e.answer) w

theorem replay_append (w : ω) (es fs : List Process.Exchange) :
    M.replay w (es ++ fs) = M.replay (M.replay w es) fs :=
  List.foldl_append

/-- From the state `w` on, the process only makes allowed requests, and `Φ`
    holds of the state and the outcome at its end. Branches end in the state in
    which they were forked off. -/
inductive Accepts : (Φ : ω → Outcome → Prop) → ω → Process → Prop
  /-- The end. -/
  | done {Φ : ω → Outcome → Prop} {w : ω} {outcome : Outcome} (holds : Φ w outcome) :
      Accepts Φ w (.done outcome)
  /-- An allowed request. -/
  | ask {Φ : ω → Outcome → Prop} {w : ω} {request : Request} {next : request.Answer → Process}
      (allowed : M.allows w request)
      (rest : ∀ answer, Accepts Φ (M.next w request answer) (next answer)) :
      Accepts Φ w (.ask request next)
  /-- Branches side by side. -/
  | all {Φ : ω → Outcome → Prop} {w : ω} {branches : List Process} {next : List Outcome → Process}
      (forks : M.forks) (each : ∀ b ∈ branches, Accepts (fun w' _ => w' = w) w b)
      (rest : ∀ outcomes, Accepts Φ w (next outcomes)) : Accepts Φ w (.all branches next)

/-- The process only makes allowed requests, and the state at its end is the
    one at its start. -/
abbrev Restores (w : ω) (p : Process) : Prop := M.Accepts (fun w' _ => w' = w) w p

variable {M}

namespace Accepts

variable {Φ Ψ : ω → Outcome → Prop} {w : ω}

theorem note {n : Note} {p : Process} (allowed : M.allows w (.note n))
    (rest : M.Accepts Φ (M.next w (.note n) ()) p) : M.Accepts Φ w (.note n p) :=
  .ask allowed fun _ => rest

theorem bind {p : Process} {k : Outcome → Process} (first : M.Accepts Φ w p)
    (second : ∀ w' outcome, Φ w' outcome → M.Accepts Ψ w' (k outcome)) :
    M.Accepts Ψ w (p.bind k) := by
  induction first with
  | done holds => exact second _ _ holds
  | ask allowed _ ih => exact .ask allowed fun answer => ih answer second
  | all forks each _ _ ih => exact .all forks each fun outcomes => ih outcomes second

/-- Goes on after a process that restores the state. -/
theorem after {p : Process} {k : Outcome → Process} (first : M.Restores w p)
    (second : ∀ outcome, M.Accepts Φ w (k outcome)) : M.Accepts Φ w (p.bind k) := by
  refine first.bind fun w' outcome h => ?_
  rw [h]
  exact second outcome

theorem inTurn {ps : List Process} {k : List (Option Content) → Process}
    (each : ∀ p ∈ ps, M.Restores w p) (rest : ∀ cs, M.Restores w (k cs)) :
    M.Restores w (.inTurn ps k) := by
  induction ps generalizing k with
  | nil => exact rest []
  | cons p ps ih =>
    refine (each p (by simp)).after fun outcome => ?_
    match outcome with
    | .error f => exact .done rfl
    | .ok c => exact ih (fun q hq => each q (by simp [hq])) fun cs => rest (c :: cs)

theorem sideBySide (forks : M.forks) {ps : List Process} {k : List (Option Content) → Process}
    (each : ∀ p ∈ ps, M.Restores w p) (rest : ∀ cs, M.Restores w (k cs)) :
    M.Restores w (.sideBySide ps k) := by
  refine .all forks each fun outcomes => ?_
  cases Process.settle outcomes with
  | error f => exact .done rfl
  | ok cs => exact rest cs

theorem gather {parallel : Bool} (forks : parallel = true → M.forks) {ps : List Process}
    {k : List (Option Content) → Process} (each : ∀ p ∈ ps, M.Restores w p)
    (rest : ∀ cs, M.Restores w (k cs)) : M.Restores w (.gather parallel ps k) := by
  cases parallel with
  | true => exact .sideBySide (forks rfl) each rest
  | false => exact .inTurn each rest

/-! ### What is accepted happens -/

/-- On its own line a process stays accepted. -/
theorem line {p q : Process} {es : List Process.Exchange} (h : M.Accepts Φ w p)
    (line : Process.Line p es q) : M.Accepts Φ (M.replay w es) q := by
  induction line with
  | here => exact h
  | ask _ answer ih =>
    cases ih with
    | ask _ rest =>
      rw [replay_append]
      exact rest answer
  | join _ outcomes ih =>
    cases ih with
    | all _ _ rest => exact rest outcomes

/-- On the line of a branch, the branch stays accepted. -/
theorem branch {p q : Process} {es : List Process.Exchange} (h : M.Accepts Φ w p)
    (branch : Process.Branch p es q) : ∃ Ψ, M.Accepts Ψ (M.replay w es) q := by
  induction branch with
  | line line => exact ⟨Φ, h.line line⟩
  | fork _ mem line ih =>
    -- What holds at the end of a branch is not what holds at the end of `p`.
    obtain ⟨Ψ, accepts⟩ := ih
    cases accepts with
    | all _ each _ =>
      rw [replay_append]
      exact ⟨_, (each _ mem).line line⟩

/-- A branch ends in the state in which it was forked off. -/
theorem branch_ends {p b : Process} {es fs : List Process.Exchange} {branches : List Process}
    {next : List Outcome → Process} {outcome : Outcome} (h : M.Accepts Φ w p)
    (forked : Process.Branch p es (.all branches next)) (mem : b ∈ branches)
    (line : Process.Line b fs (.done outcome)) : M.replay w (es ++ fs) = M.replay w es := by
  obtain ⟨Ψ, accepts⟩ := h.branch forked
  cases accepts with
  | all _ each _ =>
    cases (each b mem).line line with
    | done holds =>
      rw [replay_append]
      exact holds

/-- Along a run without branches, what relates the state of the monitor to
    that of the run stays true if every allowed request keeps it true. -/
theorem steps {σ : Type} {answer : (request : Request) → StateM σ request.Answer}
    {R : ω → σ → Prop} (alone : ¬ M.forks)
    (keeps : ∀ w s request, R w s → M.allows w request →
      R (M.next w request ((answer request).run s).1) ((answer request).run s).2)
    {p q : Process} {s t : σ} (h : M.Accepts Φ w p) (related : R w s)
    (steps : Process.Steps answer p s q t) : ∃ w', M.Accepts Φ w' q ∧ R w' t := by
  induction steps with
  | refl => exact ⟨w, h, related⟩
  | tail _ step ih =>
    obtain ⟨w', accepts, related⟩ := ih
    -- A process at its end takes no step, and there are no branches.
    cases accepts with
    | done => cases step
    | ask allowed rest =>
      cases step
      exact ⟨_, rest _, keeps _ _ _ related allowed⟩
    | all forks => exact absurd forks alone

end Accepts

end Monitor

end MarkdownOutlets
