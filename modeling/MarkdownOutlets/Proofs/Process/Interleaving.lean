import MarkdownOutlets.Composition.Process

/-! # Interleavings of branches

  `Process.run` finishes each branch of a process before it starts the next
  one. Here a process runs in single steps instead, and the branches that
  stand side by side take theirs in any order: a step is one request of one
  branch, or the join of branches that all came to their end.

  The state `σ` is shared by all branches; it holds whatever the answers
  depend on and change. A run is never stuck before its end (`exists_step`)
  and cannot go on forever (`follows_wellFounded`), so that what holds of
  every end holds whatever the order (`AlwaysEnds.of_steps`). `Process.run`
  is one of the interleavings (`run_steps`).
-/

namespace MarkdownOutlets

namespace Process

/-- Induction over a process, with the property at hand for every branch. -/
theorem induct {P : Process → Prop}
    (done : ∀ outcome, P (.done outcome))
    (ask : ∀ request next, (∀ answer, P (next answer)) → P (.ask request next))
    (all : ∀ branches next, (∀ b ∈ branches, P b) → (∀ outcomes, P (next outcomes)) →
      P (.all branches next))
    (p : Process) : P p := by
  induction p using Process.rec (motive_2 := fun branches => ∀ b ∈ branches, P b) with
  | done outcome => exact done outcome
  | ask request next ih => exact ask request next ih
  | all branches next ih_branches ih_next => exact all branches next ih_branches ih_next
  | nil =>
    rename_i b hb
    exact absurd hb List.not_mem_nil
  | cons head tail ih_head ih_tail =>
    rename_i b hb
    rcases List.mem_cons.mp hb with rfl | hb
    · exact ih_head
    · exact ih_tail b hb

section interleaving

variable {σ : Type} (answer : (request : Request) → StateM σ request.Answer)

/-! ### Steps -/

/-- One step of a process. -/
inductive Step : Process → σ → Process → σ → Prop
  /-- A request is answered. -/
  | ask (request : Request) (next : request.Answer → Process) (s : σ) :
      Step (.ask request next) s
        (next ((answer request).run s).1) ((answer request).run s).2
  /-- One of the branches takes a step. -/
  | branch {b b' : Process} {s s' : σ} (front back : List Process)
      (next : List Outcome → Process) (step : Step b s b' s') :
      Step (.all (front ++ b :: back) next) s (.all (front ++ b' :: back) next) s'
  /-- The process goes on when all branches came to their end. -/
  | join (outcomes : List Outcome) (next : List Outcome → Process) (s : σ) :
      Step (.all (outcomes.map .done) next) s (next outcomes) s

/-- Some steps of a process, one after the other. -/
inductive Steps (p : Process) (s : σ) : Process → σ → Prop
  /-- No step. -/
  | refl : Steps p s p s
  /-- One more step. -/
  | tail {q q' : Process} {t t' : σ} (steps : Steps p s q t) (step : Step answer q t q' t') :
      Steps p s q' t'

variable {answer}

theorem Steps.trans {p q r : Process} {s t u : σ} (first : Steps answer p s q t)
    (second : Steps answer q t r u) : Steps answer p s r u := by
  induction second with
  | refl => exact first
  | tail _ step ih => exact .tail ih step

theorem Step.steps {p q : Process} {s t : σ} (step : Step answer p s q t) :
    Steps answer p s q t :=
  .tail .refl step

/-- Branches may take many steps while the others wait. -/
theorem Steps.branch {b b' : Process} {s s' : σ} (front back : List Process)
    (next : List Outcome → Process) (steps : Steps answer b s b' s') :
    Steps answer (.all (front ++ b :: back) next) s (.all (front ++ b' :: back) next) s' := by
  induction steps with
  | refl => exact .refl
  | tail _ step ih => exact .tail ih (.branch front back next step)

/-! ### Runs are not stuck -/

/-- Branches are all at their end, or one of them is not. -/
theorem all_done_or (branches : List Process) :
    (∃ outcomes : List Outcome, branches = outcomes.map .done) ∨
      ∃ front b back, branches = front ++ b :: back ∧ ∀ outcome, b ≠ .done outcome := by
  induction branches with
  | nil => exact .inl ⟨[], rfl⟩
  | cons b branches ih =>
    cases b with
    | done outcome =>
      rcases ih with ⟨outcomes, rfl⟩ | ⟨front, b, back, rfl, hb⟩
      · exact .inl ⟨outcome :: outcomes, rfl⟩
      · exact .inr ⟨.done outcome :: front, b, back, rfl, hb⟩
    | ask request next => exact .inr ⟨[], _, branches, rfl, by simp⟩
    | all inner next => exact .inr ⟨[], _, branches, rfl, by simp⟩

variable (answer)

/-- A process that is not at its end can take a step. -/
theorem exists_step (p : Process) (s : σ) (h : ∀ outcome, p ≠ .done outcome) :
    ∃ q t, Step answer p s q t := by
  induction p using induct with
  | done outcome => exact absurd rfl (h outcome)
  | ask request next _ => exact ⟨_, _, .ask request next s⟩
  | all branches next ih _ =>
    rcases all_done_or branches with ⟨outcomes, rfl⟩ | ⟨front, b, back, rfl, hb⟩
    · exact ⟨_, _, .join outcomes next s⟩
    · -- A branch that is not at its end is not stuck either.
      obtain ⟨b', s', step⟩ := ih b (by simp) hb
      exact ⟨_, _, .branch front back next step⟩

/-! ### Runs are finite -/

/-- A process may become the other one by a step, in some state. -/
def Follows (q p : Process) : Prop := ∃ s t, Step answer p s q t

/-- Branches of which one took a step. -/
def BranchesFollow (after before : List Process) : Prop :=
  ∃ front b b' back, before = front ++ b :: back ∧ after = front ++ b' :: back ∧
    Follows answer b' b

theorem acc_cons {b : Process} (hb : Acc (Follows answer) b) {branches : List Process}
    (h : Acc (BranchesFollow answer) branches) : Acc (BranchesFollow answer) (b :: branches) := by
  -- Either the first branch takes the step, or one of the others does.
  induction hb generalizing branches with
  | intro b _ ih_b =>
    induction h with
    | intro branches h_acc ih =>
      refine .intro _ ?_
      rintro after ⟨front, c, c', back, before_eq, rfl, follows⟩
      rcases List.cons_eq_append_iff.mp before_eq with ⟨rfl, eq⟩ | ⟨front, rfl, rfl⟩
      · obtain ⟨rfl, rfl⟩ := List.cons.inj eq
        exact ih_b c' follows (.intro _ h_acc)
      · exact ih _ ⟨front, c, c', back, rfl, rfl, follows⟩

theorem acc_branches {branches : List Process} (h : ∀ b ∈ branches, Acc (Follows answer) b) :
    Acc (BranchesFollow answer) branches := by
  induction branches with
  | nil =>
    refine .intro _ ?_
    rintro after ⟨front, b, b', back, eq, _, _⟩
    simp at eq
  | cons b branches ih =>
    exact acc_cons answer (h b (by simp)) (ih fun c hc => h c (by simp [hc]))

/-- No interleaving goes on forever, whatever the answers are. -/
theorem follows_wellFounded : WellFounded (Follows answer) := by
  refine ⟨fun p => ?_⟩
  induction p using induct with
  | done outcome =>
    refine .intro _ ?_
    rintro q ⟨s, t, step⟩
    cases step
  | ask request next ih =>
    refine .intro _ ?_
    rintro q ⟨s, t, step⟩
    cases step
    exact ih _
  | all branches next ih_branches ih_next =>
    -- The branches can only take finitely many steps before they are joined.
    have acc := acc_branches answer ih_branches
    clear ih_branches
    induction acc with
    | intro branches _ ih =>
      refine .intro _ ?_
      rintro q ⟨s, t, step⟩
      cases step with
      | @branch b b' _ _ front back _ step =>
        exact ih _ ⟨front, b, b', back, rfl, rfl, s, t, step⟩
      | join outcomes => exact ih_next outcomes

/-! ### Every interleaving ends -/

/-- In whatever order the steps are taken, the process comes to its end, and
    then `P` holds of its outcome and of the state. -/
inductive AlwaysEnds (P : Outcome → σ → Prop) : Process → σ → Prop
  /-- It is at its end. -/
  | done {outcome : Outcome} {s : σ} (holds : P outcome s) : AlwaysEnds P (.done outcome) s
  /-- It can take a step, and always ends after each step that it can take. -/
  | step {p : Process} {s : σ} (can : ∃ q t, Step answer p s q t)
      (each : ∀ q t, Step answer p s q t → AlwaysEnds P q t) : AlwaysEnds P p s

variable {answer}

/-- What holds of every end that can be reached holds in the end. -/
theorem AlwaysEnds.of_steps {P : Outcome → σ → Prop} {p : Process} {s : σ}
    (h : ∀ outcome t, Steps answer p s (.done outcome) t → P outcome t) :
    AlwaysEnds answer P p s := by
  -- By induction on the steps that the process can still take.
  induction p using (follows_wellFounded answer).induction generalizing s with
  | _ p ih =>
    cases p with
    | done outcome => exact .done (h outcome s .refl)
    | ask request next =>
      refine .step (exists_step answer _ s (by simp)) fun q t step => ?_
      exact ih q ⟨s, t, step⟩ fun outcome u steps => h outcome u (step.steps.trans steps)
    | all branches next =>
      refine .step (exists_step answer _ s (by simp)) fun q t step => ?_
      exact ih q ⟨s, t, step⟩ fun outcome u steps => h outcome u (step.steps.trans steps)

variable (answer)

/-! ### The run of one branch after the other -/

theorem run_ask (request : Request) (next : request.Answer → Process) (s : σ) :
    (run answer (.ask request next)).run s =
      (run answer (next ((answer request).run s).1)).run ((answer request).run s).2 := by
  rw [run]
  rfl

theorem run_all (branches : List Process) (next : List Outcome → Process) (s : σ) :
    (run answer (.all branches next)).run s =
      (run answer (next ((runAll answer branches).run s).1)).run
        ((runAll answer branches).run s).2 := by
  rw [run]
  rfl

theorem runAll_cons (b : Process) (branches : List Process) (s : σ) :
    (runAll answer (b :: branches)).run s =
      (((run answer b).run s).1 :: ((runAll answer branches).run ((run answer b).run s).2).1,
        ((runAll answer branches).run ((run answer b).run s).2).2) := by
  rw [runAll]
  rfl

/-- Branches that run one after the other, behind some that are at their
    end. -/
theorem runAll_steps {branches : List Process} (next : List Outcome → Process)
    (ih : ∀ b ∈ branches, ∀ s,
      Steps answer b s (.done ((run answer b).run s).1) ((run answer b).run s).2)
    (ended : List Outcome) (s : σ) :
    Steps answer (.all (ended.map .done ++ branches) next) s
      (.all ((ended ++ ((runAll answer branches).run s).1).map .done) next)
      ((runAll answer branches).run s).2 := by
  induction branches generalizing ended s with
  | nil =>
    rw [runAll, List.append_nil]
    exact (ended.append_nil).symm ▸ .refl
  | cons b branches ih_list =>
    -- The first branch runs to its end and is one more of those that did.
    have first := (ih b (by simp) s).branch (ended.map .done) branches next
    have rest := ih_list (fun c hc => ih c (by simp [hc]))
      (ended ++ [((run answer b).run s).1]) ((run answer b).run s).2
    have both := first.trans (by simpa using rest)
    rw [runAll_cons]
    simpa using both

/-- `Process.run` is one of the interleavings. -/
theorem run_steps (p : Process) (s : σ) :
    Steps answer p s (.done ((run answer p).run s).1) ((run answer p).run s).2 := by
  induction p using induct generalizing s with
  | done outcome =>
    rw [run]
    exact .refl
  | ask request next ih =>
    rw [run_ask]
    exact (Step.ask request next s).steps.trans (ih _ _)
  | all branches next ih_branches ih_next =>
    -- The branches come to their ends one by one, and then they are joined.
    obtain ⟨outcomes, t, runAll_eq⟩ : ∃ outcomes t, (runAll answer branches).run s = (outcomes, t) :=
      ⟨_, _, rfl⟩
    have first := runAll_steps answer next ih_branches [] s
    rw [runAll_eq] at first
    have joined : Steps answer (.all (outcomes.map .done) next) t (next outcomes) t :=
      (Step.join outcomes next t).steps
    rw [run_all, runAll_eq]
    exact first.trans (joined.trans (ih_next outcomes t))

end interleaving

end Process

end MarkdownOutlets
