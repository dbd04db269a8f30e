import MarkdownOutlets.Proofs.Process.Reporting

/-! # Processes that stop

  Of two processes that ask the same, one may stop at some requests at which
  the other one goes on. `Process.Until` relates such processes. Up to a
  request that stops the first one, both make the same requests; from there on
  nothing is said about the second one.

  The main statement, `Until.steps`, says that an interleaving of the first
  process in which nothing stops it is one of the second process as well.
-/

namespace MarkdownOutlets

namespace Process

section requests

variable {h : Host Id}

/-! ### The requests of an interleaving -/

theorem journal_answer (request : Request) (s : Session) :
    ((h.answer request).run s).2.journal = s.journal ++ [request] := by
  cases request <;> rfl

/-- A step makes one request, which a branch was about to make, or none. -/
theorem Step.request {p q : Process} {s t : Session} (step : Step h.answer p s q t) :
    t.journal = s.journal ∨
      ∃ request next, Asks p request next ∧ t.journal = s.journal ++ [request] := by
  induction step with
  | ask request next s => exact .inr ⟨request, next, .here request next, journal_answer request s⟩
  | branch front back next step ih =>
    rcases ih with same | ⟨request, rest, asks, journal_eq⟩
    · exact .inl same
    · exact .inr ⟨request, rest, .branch next (by simp) asks, journal_eq⟩
  | join outcomes next s => exact .inl rfl

theorem Step.journal_subset {p q : Process} {s t : Session} (step : Step h.answer p s q t) :
    s.journal ⊆ t.journal := by
  rcases step.request with same | ⟨request, next, asks, journal_eq⟩
  · rw [same]
    exact List.Subset.refl _
  · rw [journal_eq]
    exact List.subset_append_left _ _

/-- A request in the journal was there at the start, or a branch made it. -/
theorem Steps.exists_branch_of_mem {p q : Process} {s t : Session} (steps : Steps h.answer p s q t)
    {request : Request} (mem : request ∈ t.journal) :
    request ∈ s.journal ∨ ∃ es next, Branch p es (.ask request next) := by
  induction steps with
  | refl => exact .inl mem
  | tail steps step ih =>
    rcases step.request with same | ⟨made, next, asks, journal_eq⟩
    · rw [same] at mem
      exact ih mem
    · rw [journal_eq, List.mem_append, List.mem_singleton] at mem
      rcases mem with mem | rfl
      · exact ih mem
      · obtain ⟨es, branch⟩ := steps.exists_branch asks
        exact .inr ⟨es, next, branch⟩

end requests

/-! ### Stopping -/

section stopping

variable (stops : Request → Prop) (E : Outcome → Prop)

/-- The second process makes the requests of the first one, up to one that
    stops the first one. If nothing does, they have the same outcome, of the
    kind `E`. -/
inductive Until : Process → Process → Prop
  /-- Both are at their end. -/
  | done {outcome : Outcome} (holds : E outcome) : Until (.done outcome) (.done outcome)
  /-- Both make a request. -/
  | ask {request : Request} {next next' : request.Answer → Process}
      (rest : ∀ answer, Until (next answer) (next' answer)) :
      Until (.ask request next) (.ask request next')
  /-- The request of the first process stops it. -/
  | stopped {request : Request} (is_stop : stops request) (next : request.Answer → Process)
      (q : Process) : Until (.ask request next) q
  /-- Both have branches, which are related one by one. -/
  | all {branches branches' : List Process} {next next' : List Outcome → Process}
      (members : List (Process × Process)) (eq : branches = members.map Prod.fst)
      (eq' : branches' = members.map Prod.snd) (each : ∀ m ∈ members, Until m.1 m.2)
      (rest : ∀ outcomes, (∀ outcome ∈ outcomes, E outcome) →
        Until (next outcomes) (next' outcomes)) :
      Until (.all branches next) (.all branches' next')

variable {stops E}

namespace Until

theorem note {n : Note} {p q : Process} (rest : Until stops E p q) :
    Until stops E (.note n p) (.note n q) :=
  .ask fun _ => rest

theorem stoppedNote {n : Note} (is_stop : stops (.note n)) (p q : Process) :
    Until stops E (.note n p) q :=
  .stopped is_stop (fun _ => p) q

theorem bind {p q : Process} {k k' : Outcome → Process} (first : Until stops E p q)
    (second : ∀ outcome, E outcome → Until stops E (k outcome) (k' outcome)) :
    Until stops E (p.bind k) (q.bind k') := by
  induction first with
  | done holds => exact second _ holds
  | ask _ ih => exact .ask ih
  | stopped is_stop next q => exact .stopped is_stop _ _
  | all members eq eq' each _ _ ih => exact .all members eq eq' each ih

section several

variable {ι : Type} {p q : ι → Process} {names : List ι}
  {k k' : List (Option Content) → Process} (each : ∀ n ∈ names, Until stops E (p n) (q n))
  (rest : ∀ cs, Until stops E (k cs) (k' cs))

include each rest

theorem inTurn : Until stops E (.inTurn (names.map p) k) (.inTurn (names.map q) k') := by
  induction names generalizing k k' with
  | nil => exact rest []
  | cons n names ih =>
    apply bind (each n (by simp))
    intro outcome holds
    cases outcome with
    | error f => exact .done holds
    | ok c => exact ih (fun m mem => each m (by simp [mem])) fun cs => rest (c :: cs)

theorem sideBySide :
    Until stops E (.sideBySide (names.map p) k) (.sideBySide (names.map q) k') := by
  apply Until.all (names.map fun n => (p n, q n))
  · simp
  · simp
  · intro m mem
    obtain ⟨n, mem_n, rfl⟩ := List.mem_map.mp mem
    exact each n mem_n
  · intro outcomes holds
    -- A fault of the branches is one that a branch ended with.
    rcases settle_cases outcomes with ⟨f, settled, mem⟩ | ⟨cs, settled, -⟩
    · simp only [settled]
      exact .done (holds _ mem)
    · simp only [settled]
      exact rest cs

theorem gather (parallel : Bool) :
    Until stops E (.gather parallel (names.map p) k) (.gather parallel (names.map q) k') := by
  cases parallel with
  | true => exact sideBySide each rest
  | false => exact inTurn each rest

end several

/-! ### Interleavings in which nothing stops -/

/-- When all branches of the first process are at their end, so are those of
    the second one, with the same outcomes. -/
theorem members_done {outcomes : List Outcome} {members : List (Process × Process)}
    (eq : outcomes.map Process.done = members.map Prod.fst)
    (each : ∀ m ∈ members, Until stops E m.1 m.2) :
    members.map Prod.snd = outcomes.map Process.done ∧ ∀ outcome ∈ outcomes, E outcome := by
  induction members generalizing outcomes with
  | nil =>
    obtain rfl : outcomes = [] := List.map_eq_nil_iff.mp eq
    exact ⟨rfl, by simp⟩
  | cons m members ih =>
    cases outcomes with
    | nil => simp at eq
    | cons outcome outcomes =>
      simp only [List.map_cons, List.cons.injEq] at eq
      obtain ⟨head_eq, tail_eq⟩ := eq
      obtain ⟨rest_eq, holds_rest⟩ := ih tail_eq fun m mem => each m (by simp [mem])
      obtain ⟨p, q⟩ := m
      have first := each (p, q) (by simp)
      simp only at head_eq first
      rw [← head_eq] at first
      cases first with
      | done holds => exact ⟨by simp [rest_eq], by simpa using ⟨holds, holds_rest⟩⟩

variable {h : Host Id}

/-- A step of the first process is one of the second process as well, unless
    it is the request that stops the first one. -/
theorem step {p p' q : Process} {s t : Session} (related : Until stops E p q)
    (step : Step h.answer p s p' t) :
    (∃ request ∈ t.journal, stops request) ∨
      ∃ q', Step h.answer q s q' t ∧ Until stops E p' q' := by
  induction step generalizing q with
  | ask request next s =>
    cases related with
    | ask rest => exact .inr ⟨_, .ask request _ s, rest _⟩
    | stopped is_stop =>
      left
      exact ⟨request, by rw [journal_answer]; simp, is_stop⟩
  | @branch b b' s t front back next _ ih =>
    cases related with
    | all members eq eq' each rest =>
      obtain ⟨front, others, rfl, rfl, others_eq⟩ := List.append_eq_map_iff.mp eq
      obtain ⟨⟨b, c⟩, back, rfl, rfl, rfl⟩ := List.map_eq_cons_iff.mp others_eq
      subst eq'
      rcases ih (each (b, c) (by simp)) with stop | ⟨c', step, related⟩
      · exact .inl stop
      · -- The branch of the second process takes the same step.
        right
        rw [List.map_append, List.map_cons]
        refine ⟨_, .branch (front.map Prod.snd) (back.map Prod.snd) _ step, ?_⟩
        apply Until.all (front ++ (b', c') :: back) (by simp) (by simp) _ rest
        intro m mem
        rw [List.mem_append, List.mem_cons] at mem
        rcases mem with mem | rfl | mem
        · exact each m (by simp [mem])
        · exact related
        · exact each m (by simp [mem])
  | join outcomes next s =>
    cases related with
    | all members eq eq' each rest =>
      obtain ⟨branches_eq, holds⟩ := members_done eq each
      subst eq'
      rw [branches_eq]
      exact .inr ⟨_, .join outcomes _ s, rest outcomes holds⟩

/-- An interleaving of the first process in which no request stops it is one
    of the second process as well. -/
theorem steps {p p' q : Process} {s t : Session} (related : Until stops E p q)
    (steps : Steps h.answer p s p' t) (free : ∀ request ∈ t.journal, ¬ stops request) :
    ∃ q', Steps h.answer q s q' t ∧ Until stops E p' q' := by
  induction steps with
  | refl => exact ⟨q, .refl, related⟩
  | tail _ last ih =>
    -- What is in the journal before the last step is in it after the step.
    obtain ⟨q', steps, related⟩ := ih fun request mem => free request (last.journal_subset mem)
    rcases related.step last with ⟨request, mem, is_stop⟩ | ⟨q'', step, related⟩
    · exact absurd is_stop (free request mem)
    · exact ⟨q'', .tail steps step, related⟩

end Until

end stopping

end Process

end MarkdownOutlets
