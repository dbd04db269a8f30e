import MarkdownOutlets.Proofs.Process.Cut

/-! # Quiet processes

  A process is quiet if it asks nothing of the host and leaves the cache alone:
  all that it does is to take notes. What comes of a quiet process does not
  depend on what was asked before, nor on the state of the host.

  Quiet processes that are gathered are quiet together. The first fault among
  their outcomes, in their order, is the fault of all of them, whether they run
  one after the other or side by side.
-/

namespace MarkdownOutlets

namespace Process

/-- All of some outcomes are settled without a fault, if each of them is. -/
theorem settle_cons_eq_ok {outcome : Outcome} {rest : List Outcome} {cs : List (Option Content)} :
    settle (outcome :: rest) = .ok cs ↔
      ∃ c others, outcome = .ok c ∧ settle rest = .ok others ∧ cs = c :: others := by
  cases outcome with
  | error f => simp [settle]
  | ok c => cases others : settle rest <;> simp [settle, others, Except.map, eq_comm]

/-- The fault of some outcomes is that of the first one, or of those behind it. -/
theorem settle_cons_eq_error {outcome : Outcome} {rest : List Outcome} {f : Fault} :
    settle (outcome :: rest) = .error f ↔
      outcome = .error f ∨ ∃ c, outcome = .ok c ∧ settle rest = .error f := by
  cases outcome with
  | error g => simp [settle]
  | ok c => cases others : settle rest <;> simp [settle, others, Except.map]

end Process

namespace Host

variable {σ : Type} (h : Host (StateM σ))

theorem finish_bind (p : Process) (k : Outcome → Process) (s : Session) (host : σ) :
    h.finish (p.bind k) s host =
      h.finish (k (h.finish p s host).1) (h.finish p s host).2.1 (h.finish p s host).2.2 := by
  unfold finish Host.run
  rw [Process.run_bind]
  rfl

/-- Whatever was asked before, the process ends with the outcome, and leaves nothing behind
    than the requests that it made. -/
def Quiet (p : Process) (outcome : Outcome) (made : List Request) : Prop :=
  ∀ (s : Session) (host : σ),
    h.finish p s host = (outcome, { s with journal := s.journal ++ made }, host)

variable {h}

namespace Quiet

variable {p : Process} {outcome outcome' : Outcome} {made more : List Request}

theorem done (outcome : Outcome) : h.Quiet (.done outcome) outcome [] := by
  intro s host
  rw [finish_done, List.append_nil]

theorem note {n : Note} (rest : h.Quiet p outcome made) :
    h.Quiet (.note n p) outcome (.note n :: made) := by
  intro s host
  have first : h.finish (.note n p) s host = h.finish p (s.log (.note n)) host :=
    h.finish_note n (fun _ => p) s host
  rw [first, rest]
  simp [Session.log]

theorem bind {k : Outcome → Process} (first : h.Quiet p outcome made)
    (second : h.Quiet (k outcome) outcome' more) : h.Quiet (p.bind k) outcome' (made ++ more) := by
  intro s host
  rw [finish_bind, first s host, second, List.append_assoc]

/-! ### Gathered processes -/

section gathered

variable {ι : Type} {ps : ι → Process} {outcomes : ι → Outcome} {parts : ι → List Request}
  {names : List ι} {k : List (Option Content) → Process}

/-- Branches that are quiet leave their requests in their order. -/
theorem runAll (each : ∀ n ∈ names, h.Quiet (ps n) (outcomes n) (parts n)) (s : Session)
    (host : σ) :
    ((Process.runAll h.answer (names.map ps)).run s).run host =
      ((names.map outcomes, { s with journal := s.journal ++ names.flatMap parts }), host) := by
  induction names generalizing s host with
  | nil =>
    rw [List.map_nil, Process.runAll, List.flatMap_nil, List.append_nil]
    rfl
  | cons n names ih =>
    have first := each n List.mem_cons_self s host
    have others := ih (fun m mem => each m (List.mem_cons_of_mem n mem))
    -- The others start with the session and the host that the first branch leaves.
    have split : ((Process.runAll h.answer ((n :: names).map ps)).run s).run host =
        let ended := h.finish (ps n) s host
        let rest := ((Process.runAll h.answer (names.map ps)).run ended.2.1).run ended.2.2
        ((ended.1 :: rest.1.1, rest.1.2), rest.2) := by
      rw [List.map_cons, Process.runAll]
      rfl
    rw [split, first]
    simp only [others]
    rw [List.append_assoc]
    rfl

theorem inTurn_ok (each : ∀ n ∈ names, h.Quiet (ps n) (outcomes n) (parts n))
    {cs : List (Option Content)} (settled : Process.settle (names.map outcomes) = .ok cs)
    (rest : h.Quiet (k cs) outcome more) :
    h.Quiet (.inTurn (names.map ps) k) outcome (names.flatMap parts ++ more) := by
  induction names generalizing k cs with
  | nil =>
    obtain rfl : [] = cs := Except.ok.inj settled
    exact rest
  | cons n names ih =>
    have first := each n List.mem_cons_self
    rw [List.map_cons] at settled
    obtain ⟨c, others, ended, settled_others, rfl⟩ := Process.settle_cons_eq_ok.mp settled
    rw [ended] at first
    have after := ih (k := fun xs => k (c :: xs))
      (fun m mem => each m (List.mem_cons_of_mem n mem)) settled_others rest
    rw [List.flatMap_cons, List.append_assoc]
    exact first.bind after

theorem inTurn_error (each : ∀ n ∈ names, h.Quiet (ps n) (outcomes n) (parts n)) {f : Fault}
    (settled : Process.settle (names.map outcomes) = .error f) :
    ∃ made, h.Quiet (.inTurn (names.map ps) k) (.error f) made := by
  induction names generalizing k with
  | nil => cases settled
  | cons n names ih =>
    have first := each n List.mem_cons_self
    rw [List.map_cons] at settled
    rcases Process.settle_cons_eq_error.mp settled with ended | ⟨c, ended, settled_others⟩
    · rw [ended] at first
      exact ⟨_, first.bind (.done _)⟩
    · rw [ended] at first
      obtain ⟨made, after⟩ := ih (k := fun xs => k (c :: xs))
        (fun m mem => each m (List.mem_cons_of_mem n mem)) settled_others
      exact ⟨_, first.bind after⟩

/-- Processes none of which has a fault, and what follows them. -/
theorem gather_ok (parallel : Bool) (each : ∀ n ∈ names, h.Quiet (ps n) (outcomes n) (parts n))
    {cs : List (Option Content)} (settled : Process.settle (names.map outcomes) = .ok cs)
    (rest : h.Quiet (k cs) outcome more) :
    h.Quiet (.gather parallel (names.map ps) k) outcome (names.flatMap parts ++ more) := by
  cases parallel with
  | true =>
    intro s host
    have branches := runAll each s host
    unfold Process.gather Process.sideBySide
    simp only [if_true]
    rw [finish_all, branches]
    simp only [settled]
    rw [rest, List.append_assoc]
  | false => exact inTurn_ok each settled rest

/-- The first fault among some processes is that of all of them. -/
theorem gather_error (parallel : Bool)
    (each : ∀ n ∈ names, h.Quiet (ps n) (outcomes n) (parts n)) {f : Fault}
    (settled : Process.settle (names.map outcomes) = .error f) :
    ∃ made, h.Quiet (.gather parallel (names.map ps) k) (.error f) made := by
  cases parallel with
  | true =>
    refine ⟨names.flatMap parts, fun s host => ?_⟩
    have branches := runAll each s host
    unfold Process.gather Process.sideBySide
    simp only [if_true]
    rw [finish_all, branches]
    simp only [settled]
    exact h.finish_done _ _ _
  | false => exact inTurn_error each settled

end gathered

end Quiet

end Host

end MarkdownOutlets
