import MarkdownOutlets.Proofs.Process.Cut
import MarkdownOutlets.Proofs.Process.Monitor

/-! # Failures are reported

  The host may fail to answer: a provider has no source, or raises a fault of
  any kind, and a function raises one or gives something that is no text. A
  process that is careful reports it. The next thing that it does is to note
  the problem, and it notes problems of this kind at no other time. What the
  fault was makes no other difference.

  `Process.Careful` says so along the structure of a process, together with a
  condition on its outcome. It holds then of every branch (`Careful.branch`),
  and every interleaving ends with an outcome of the kind (`Careful.ends`).
-/

namespace MarkdownOutlets

/-- The problem comes from the host. -/
def Problem.OfHost (p : Problem) : Prop := p.kind = .source ∨ p.kind = .callback

namespace Process

/-! ### Answers that fail -/

/-- An answer amounts to a problem. -/
inductive Fails : (request : Request) → request.Answer → Problem → Prop
  /-- The provider gives no answer. -/
  | probe (path : Text) (fault : ProviderFault) :
      Fails (.probe path) (.error fault) (.source (fault.toSourceFault path))
  /-- There is no source. -/
  | absent (path : Text) : Fails (.probe path) (.ok false) (.source (.missing path))
  /-- The provider gives no text. -/
  | read (path : Text) (fault : ProviderFault) :
      Fails (.read path) (.error fault) (.source (fault.toSourceFault path))
  /-- The function fails. -/
  | call (c : Callback) (reason : Text) (document : Option Text) :
      Fails (.call c) (.error reason) (.callback (.failed reason) document)
  /-- The function gives something else than a text. -/
  | notText (c : Callback) (kindName : Text) (document : Option Text) :
      Fails (.call c) (.ok (.other kindName)) (.callback (.notText kindName) document)

/-- The kind of problem that a request ends in when its answer fails. -/
def failureKind : Request → ProblemKind
  | .call _ => .callback
  | _ => .source

theorem Fails.kind_eq {request : Request} {answer : request.Answer} {problem : Problem}
    (h : Fails request answer problem) : problem.kind = failureKind request := by
  cases h <;> rfl

/-- What a provider or a function may raise. -/
inductive Raised
  /-- A failure, of whatever class. -/
  | failure (f : Failure)
  /-- Anything else, in its own words, if it can be put into words. -/
  | other (wording : Option Text)

namespace Raised

/-- The wording of what is raised, if it has one. -/
def wording? : Raised → Option Text
  | .failure f => some f.message
  | .other wording => wording

/-- What is raised in some words, as the fault of a provider. Only a failure of the
    class of sources stands for itself. -/
def fault (reason : Text) : Raised → ProviderFault
  | .failure f =>
    if f.cls = .composition .source then .source (.reported f.message f.path) else .other reason
  | .other _ => .other reason

/-- Something is raised in the place of an answer. It has a wording, which the
    answer gives. -/
inductive Instead (raised : Raised) : (request : Request) → request.Answer → Prop
  /-- By the provider, when it is asked for a source. -/
  | probe (path : Text) {reason : Text} (words : raised.wording? = some reason) :
      Instead raised (.probe path) (.error (raised.fault reason))
  /-- By the provider, when it is asked for a text. -/
  | read (path : Text) {reason : Text} (words : raised.wording? = some reason) :
      Instead raised (.read path) (.error (raised.fault reason))
  /-- By the function. -/
  | call (c : Callback) {reason : Text} (words : raised.wording? = some reason) :
      Instead raised (.call c) (.error reason)

/-- Whatever is raised amounts to a problem. -/
theorem Instead.fails {raised : Raised} {request : Request} {answer : request.Answer}
    (h : raised.Instead request answer) : ∃ problem, Fails request answer problem := by
  cases h with
  | probe path => exact ⟨_, .probe path _⟩
  | read path => exact ⟨_, .read path _⟩
  | call c => exact ⟨_, .call c _ none⟩

end Raised

/-- None of the problems is due. -/
def Settled (due : Problem → Prop) : Prop := ∀ problem, ¬ due problem

/-- No problem at all is due. -/
def nothing : Problem → Prop := fun _ => False

theorem settled_nothing : Settled nothing := fun _ => id

theorem Settled.eq_nothing {due : Problem → Prop} (settled : Settled due) : due = nothing := by
  funext problem
  exact eq_false (settled problem)

theorem settled_note (n : Note) : Settled (Fails (.note n) ()) := by
  rintro problem ⟨⟩

theorem settled_remember (path text : Text) : Settled (Fails (.remember path text) ()) := by
  rintro problem ⟨⟩

theorem settled_lookUp (path : Text) (answer : Option Value) :
    Settled (Fails (.lookUp path) answer) := by
  rintro problem ⟨⟩

/-- When one of some problems is due, the request notes one of them. Problems
    that come from the host are noted when they are due. -/
structure Timely (due : Problem → Prop) (request : Request) : Prop where
  /-- What is due is noted. -/
  reported : ∀ problem, due problem → ∃ noted, due noted ∧ request = .note (.problem noted)
  /-- What is noted is due. -/
  founded : ∀ problem, request = .note (.problem problem) → problem.OfHost → due problem

/-! ### Careful processes -/

/-- Outcomes settle to a fault among them, or to what they all are. -/
theorem settle_cases (outcomes : List Outcome) :
    (∃ f, settle outcomes = .error f ∧ .error f ∈ outcomes) ∨
      ∃ cs, settle outcomes = .ok cs ∧ outcomes = cs.map .ok := by
  induction outcomes with
  | nil => exact .inr ⟨[], rfl, rfl⟩
  | cons first rest ih =>
    cases first with
    | error f => exact .inl ⟨f, rfl, by simp⟩
    | ok c =>
      rcases ih with ⟨f, eq, mem⟩ | ⟨cs, eq, rfl⟩
      · exact .inl ⟨f, by rw [settle, eq]; rfl, by simp [mem]⟩
      · exact .inr ⟨c :: cs, by rw [settle, eq]; rfl, rfl⟩

variable {texts : Prop} {E : Outcome → Prop} {due : Problem → Prop}

/-- One of the problems `due` is due at the start, if there are any. From then on
    the process notes the problem after each answer that fails, and it ends with
    an outcome of the kind `E` if all its branches do. -/
inductive Careful (texts : Prop) (E : Outcome → Prop) : (due : Problem → Prop) → Process → Prop
  /-- The end, at which nothing is due. -/
  | done {due : Problem → Prop} {outcome : Outcome} (settled : Settled due) (holds : E outcome) :
      Careful texts E due (.done outcome)
  /-- A request, after which it is due what the answer amounts to. -/
  | ask {due : Problem → Prop} {request : Request} {next : request.Answer → Process}
      (timely : Timely due request)
      (rest : ∀ answer, Expected texts request answer →
        Careful texts E (Fails request answer) (next answer)) :
      Careful texts E due (.ask request next)
  /-- Branches, before and after which nothing is due. -/
  | all {due : Problem → Prop} {branches : List Process} {next : List Outcome → Process}
      (settled : Settled due) (each : ∀ b ∈ branches, Careful texts E nothing b)
      (rest : ∀ outcomes, (∀ outcome ∈ outcomes, E outcome) →
        Careful texts E nothing (next outcomes)) : Careful texts E due (.all branches next)

namespace Careful

variable {p : Process}

/-- Nothing is due after an answer that does not fail. -/
theorem idle (settled : Settled due) (h : Careful texts E nothing p) : Careful texts E due p := by
  rw [settled.eq_nothing]
  exact h

theorem bind {k : Outcome → Process} (first : Careful texts E due p)
    (second : ∀ outcome, E outcome → Careful texts E nothing (k outcome)) :
    Careful texts E due (p.bind k) := by
  induction first with
  | done settled holds => exact .idle settled (second _ holds)
  | ask timely _ ih => exact .ask timely fun answer expected => ih answer expected
  | all settled each _ _ ih => exact .all settled each fun outcomes holds => ih outcomes holds

/-- A note that is no problem of the host, when nothing is due. -/
theorem note {n : Note} (other : ∀ problem, n = .problem problem → ¬ problem.OfHost)
    (rest : Careful texts E nothing p) : Careful texts E nothing (.note n p) := by
  refine .ask ⟨fun _ => False.elim, fun problem eq ofHost => ?_⟩ fun _ _ => ?_
  · exact absurd ofHost (other problem (Request.note.inj eq))
  · exact .idle (settled_note n) rest

/-- A problem that does not come from the host, when nothing is due. -/
theorem problem {problem : Problem} (own : ¬ problem.OfHost) (rest : Careful texts E nothing p) :
    Careful texts E nothing (.note (.problem problem) p) := by
  apply Careful.note _ rest
  intro other eq
  obtain rfl := Note.problem.inj eq
  exact own

/-- A problem that is due. -/
theorem report {problem : Problem} (is_due : due problem) (rest : Careful texts E nothing p) :
    Careful texts E due (.note (.problem problem) p) := by
  refine .ask ⟨fun _ _ => ⟨problem, is_due, rfl⟩, fun other eq _ => ?_⟩ fun _ _ => ?_
  · obtain rfl := Note.problem.inj (Request.note.inj eq)
    exact is_due
  · exact .idle (settled_note _) rest

/-- Another request, when nothing is due. -/
theorem request {request : Request} {next : request.Answer → Process}
    (no_note : ∀ n, request ≠ .note n)
    (rest : ∀ answer, Expected texts request answer →
      Careful texts E (Fails request answer) (next answer)) :
    Careful texts E nothing (.ask request next) :=
  .ask ⟨fun _ => False.elim, fun _ eq => absurd eq (no_note _)⟩ rest

theorem inTurn {ps : List Process} {k : List (Option Content) → Process}
    (each : ∀ p ∈ ps, Careful texts E nothing p)
    (rest : ∀ cs, (∀ c ∈ cs, E (.ok c)) → Careful texts E nothing (k cs)) :
    Careful texts E nothing (.inTurn ps k) := by
  induction ps generalizing k with
  | nil => exact rest [] (by simp)
  | cons p ps ih =>
    refine (each p (by simp)).bind fun outcome holds => ?_
    match outcome with
    | .error f => exact .done settled_nothing holds
    | .ok c =>
      refine ih (fun q mem => each q (by simp [mem])) fun cs all_hold => rest (c :: cs) ?_
      exact List.forall_mem_cons.mpr ⟨holds, all_hold⟩

theorem sideBySide {ps : List Process} {k : List (Option Content) → Process}
    (each : ∀ p ∈ ps, Careful texts E nothing p)
    (rest : ∀ cs, (∀ c ∈ cs, E (.ok c)) → Careful texts E nothing (k cs)) :
    Careful texts E nothing (.sideBySide ps k) := by
  refine .all settled_nothing each fun outcomes hold => ?_
  rcases settle_cases outcomes with ⟨f, eq, mem⟩ | ⟨cs, eq, rfl⟩
  · rw [eq]
    exact .done settled_nothing (hold _ mem)
  · rw [eq]
    exact rest cs fun c mem => hold _ (List.mem_map_of_mem mem)

theorem gather (parallel : Bool) {ps : List Process} {k : List (Option Content) → Process}
    (each : ∀ p ∈ ps, Careful texts E nothing p)
    (rest : ∀ cs, (∀ c ∈ cs, E (.ok c)) → Careful texts E nothing (k cs)) :
    Careful texts E nothing (.gather parallel ps k) := by
  cases parallel with
  | true => exact .sideBySide each rest
  | false => exact .inTurn each rest

end Careful

/-! ### What a branch reports -/

/-- What is due after some exchanges. -/
def dueAfter (due : Problem → Prop) (es : List Exchange) : Problem → Prop :=
  match es.getLast? with
  | none => due
  | some e => Fails e.request e.answer

theorem dueAfter_append (due : Problem → Prop) (es : List Exchange) (e : Exchange) :
    dueAfter due (es ++ [e]) = Fails e.request e.answer := by
  simp [dueAfter]

/-- On its own line a process stays careful. -/
theorem Careful.line {p q : Process} {es : List Exchange} (any : ∀ outcome, E outcome)
    (h : Careful False E due p) (line : Line p es q) : Careful False E (dueAfter due es) q := by
  induction line with
  | here => exact h
  | @ask es request next line answer ih =>
    rw [dueAfter_append]
    cases ih with
    | ask timely rest =>
      refine rest answer ?_
      cases request with
      | lookUp path => exact False.elim
      | _ => trivial
  | join line outcomes ih =>
    cases ih with
    | all settled each rest =>
      exact .idle settled (rest outcomes fun outcome _ => any outcome)

/-- So does every branch. -/
theorem Careful.branch {p q : Process} {es : List Exchange} (any : ∀ outcome, E outcome)
    (h : Careful False E nothing p) (branch : Branch p es q) :
    Careful False E (dueAfter nothing es) q := by
  induction branch with
  | line line => exact h.line any line
  | @fork es fs branches next b q before mem line ih =>
    cases ih with
    | all settled each rest =>
      have careful := (each b mem).line any line
      -- The branch starts when nothing is due.
      rcases List.eq_nil_or_concat fs with rfl | ⟨fs, e, rfl⟩
      · rw [List.append_nil, settled.eq_nothing]
        exact careful
      · rw [List.concat_eq_append, ← List.append_assoc, dueAfter_append]
        rwa [List.concat_eq_append, dueAfter_append] at careful

/-- An answer that fails is noted next. -/
theorem Careful.reported {p q : Process} {es : List Exchange} {e : Exchange} {problem : Problem}
    (any : ∀ outcome, E outcome) (h : Careful False E nothing p) (branch : Branch p (es ++ [e]) q)
    (fails : Fails e.request e.answer problem) :
    ∃ noted next, q = .ask (.note (.problem noted)) next ∧ Fails e.request e.answer noted ∧
      noted.kind = failureKind e.request := by
  have careful := h.branch any branch
  rw [dueAfter_append] at careful
  -- Something is due, so that there is a request to note it.
  cases careful with
  | done settled _ => exact absurd fails (settled problem)
  | all settled _ _ => exact absurd fails (settled problem)
  | ask timely _ =>
    obtain ⟨noted, is_due, rfl⟩ := timely.reported problem fails
    exact ⟨noted, _, rfl, is_due, is_due.kind_eq⟩

/-- Problems of the host are noted after answers that fail only. -/
theorem Careful.founded {p : Process} {es : List Exchange} {problem : Problem}
    {next : Unit → Process} (any : ∀ outcome, E outcome) (h : Careful False E nothing p)
    (branch : Branch p es (.ask (.note (.problem problem)) next)) (of_host : problem.OfHost) :
    ∃ before e, es = before ++ [e] ∧ Fails e.request e.answer problem := by
  have careful := h.branch any branch
  cases careful with
  | ask timely _ =>
    have is_due := timely.founded problem rfl of_host
    -- Nothing is due at the start.
    rcases List.eq_nil_or_concat es with rfl | ⟨before, e, rfl⟩
    · exact absurd is_due id
    · rw [List.concat_eq_append] at is_due ⊢
      rw [dueAfter_append] at is_due
      exact ⟨before, e, rfl, is_due⟩

/-! ### How a run ends -/

/-- Whatever the host answers, the process ends with an outcome of the kind `E`
    if all its branches do. -/
inductive Ends (texts : Prop) (E : Outcome → Prop) : Process → Prop
  /-- The end. -/
  | done {outcome : Outcome} (holds : E outcome) : Ends texts E (.done outcome)
  /-- A request. -/
  | ask {request : Request} {next : request.Answer → Process}
      (rest : ∀ answer, Expected texts request answer → Ends texts E (next answer)) :
      Ends texts E (.ask request next)
  /-- Branches side by side. -/
  | all {branches : List Process} {next : List Outcome → Process}
      (each : ∀ b ∈ branches, Ends texts E b)
      (rest : ∀ outcomes, (∀ outcome ∈ outcomes, E outcome) → Ends texts E (next outcomes)) :
      Ends texts E (.all branches next)

theorem Careful.ends {p : Process} (h : Careful texts E due p) : Ends texts E p := by
  induction h with
  | done _ holds => exact .done holds
  | ask _ _ ih => exact .ask ih
  | all _ _ _ ih_each ih => exact .all ih_each ih

end Process

namespace Host

variable {σ : Type} (h : Host (StateM σ))

/-- The answer to a request, when the session and the state of the host are one
    state. -/
def serve (request : Request) : StateM (Session × σ) request.Answer := fun both =>
  h.reply request both.1 both.2

end Host

namespace Process

variable {texts : Prop} {E : Outcome → Prop} {σ : Type} {h : Host (StateM σ)}

/-- One step leads to a process that ends in the same way. -/
theorem Ends.step {p q : Process} {s t : Session × σ} (ends : Ends texts E p)
    (step : Step h.serve p s q t) (textual : texts → s.1.cache.IsTextual) :
    Ends texts E q ∧ (texts → t.1.cache.IsTextual) := by
  induction step with
  | ask request next s =>
    cases ends with
    | ask rest =>
      refine ⟨rest _ ?_, fun is_texts => h.reply_textual (textual is_texts) request s.2⟩
      cases request with
      | lookUp path => exact fun is_texts v found => textual is_texts path v found
      | _ => trivial
  | @branch b b' s t front back next step ih =>
    cases ends with
    | all each rest =>
      obtain ⟨one, textual⟩ := ih (each b (by simp)) textual
      refine ⟨.all (fun c mem => ?_) rest, textual⟩
      -- Only one of the branches took a step.
      simp only [List.mem_append, List.mem_cons] at mem
      rcases mem with mem | rfl | mem
      · exact each c (by simp [mem])
      · exact one
      · exact each c (by simp [mem])
  | join outcomes next s =>
    cases ends with
    | all each rest =>
      refine ⟨rest outcomes fun outcome mem => ?_, textual⟩
      cases each _ (List.mem_map_of_mem mem) with
      | done holds => exact holds

/-- Every interleaving that comes to an end does so with an outcome of the
    kind. -/
theorem Ends.steps {p q : Process} {s t : Session × σ} (ends : Ends texts E p)
    (steps : Steps h.serve p s q t) (textual : texts → s.1.cache.IsTextual) :
    Ends texts E q ∧ (texts → t.1.cache.IsTextual) := by
  induction steps with
  | refl => exact ⟨ends, textual⟩
  | tail _ step ih => exact ih.1.step step ih.2

/-- In every interleaving the process ends with an outcome of the kind. -/
theorem Ends.always {p : Process} (ends : Ends texts E p) (s : Session) (host : σ)
    (textual : texts → s.cache.IsTextual) :
    AlwaysEnds h.serve (fun outcome _ => E outcome) p (s, host) := by
  refine .of_steps fun outcome t steps => ?_
  cases (ends.steps steps textual).1 with
  | done holds => exact holds

/-- The run of a host is one of the interleavings. -/
theorem run_serve (p : Process) (s : Session) (host : σ) :
    (run h.serve p).run (s, host) = h.finish p s host := by
  induction p using induct generalizing s host with
  | done outcome =>
    rw [run, Host.finish_done]
    rfl
  | ask request next ih =>
    rw [run_ask, Host.finish_ask]
    exact ih _ _ _
  | all branches next ih_branches ih_next =>
    have both (s : Session) (host : σ) : (runAll h.serve branches).run (s, host) =
        ((((runAll h.answer branches).run s).run host).1.1,
          (((runAll h.answer branches).run s).run host).1.2,
          (((runAll h.answer branches).run s).run host).2) := by
      clear ih_next
      induction branches generalizing s host with
      | nil =>
        rw [runAll, runAll]
        rfl
      | cons b branches ih =>
        have first := ih_branches b (by simp) s host
        have rest : (runAll h.serve branches).run (h.finish b s host).2 = _ :=
          ih (fun c mem => ih_branches c (by simp [mem])) _ _
        rw [runAll_cons, first, rest, runAll]
        rfl
    rw [run_all, Host.finish_all, both s host]
    exact ih_next _ _ _

theorem Ends.finish {p : Process} (ends : Ends texts E p) (s : Session) (host : σ)
    (textual : texts → s.cache.IsTextual) : E (h.finish p s host).1 := by
  have one_by_one := run_steps h.serve p (s, host)
  rw [run_serve] at one_by_one
  cases (ends.steps one_by_one textual).1 with
  | done holds => exact holds

end Process

end MarkdownOutlets
