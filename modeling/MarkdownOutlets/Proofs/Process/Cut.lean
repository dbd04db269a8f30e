import Mathlib.Data.List.Forall2
import MarkdownOutlets.Composition.Session
import MarkdownOutlets.Proofs.Process.Interleaving

/-! # Processes that are cut short

  Of two processes that ask the same, one may take some problems harder than
  the other: it ends where the other one goes on. `Cut` relates such processes.
  Up to the first hard problem they make the same requests. From there on the
  soft one may do anything, and the strict one only leaves the sources and
  outlets that it is in and ends with the problem as its fault.

  The main statement, `Cut.finish`, compares the runs of the two against the
  same host, which may have a state: if the soft run meets no hard problem both
  are the same, and otherwise the strict run is the soft one up to the first
  hard problem.
-/

namespace MarkdownOutlets

/-! ### Runs against a host with a state -/

namespace Host

variable {σ : Type} (h : Host (StateM σ))

/-- The answer to a request, with the session and the state of the host after
    it. -/
def reply (request : Request) (s : Session) (host : σ) : request.Answer × Session × σ :=
  let ((answer, s), host) := ((h.answer request).run s).run host
  (answer, s, host)

/-- The outcome of a process, with the session and the state of the host after
    it. -/
def finish (p : Process) (s : Session) (host : σ) : Outcome × Session × σ :=
  let ((outcome, s), host) := ((h.run p).run s).run host
  (outcome, s, host)

theorem finish_done (outcome : Outcome) (s : Session) (host : σ) :
    h.finish (.done outcome) s host = (outcome, s, host) := by
  unfold finish Host.run
  rw [Process.run]
  rfl

theorem finish_ask (request : Request) (next : request.Answer → Process) (s : Session) (host : σ) :
    h.finish (.ask request next) s host =
      h.finish (next (h.reply request s host).1) (h.reply request s host).2.1
        (h.reply request s host).2.2 := by
  unfold finish Host.run
  rw [Process.run]
  rfl

theorem finish_note (n : Note) (next : Unit → Process) (s : Session) (host : σ) :
    h.finish (.ask (.note n) next) s host = h.finish (next ()) (s.log (.note n)) host :=
  h.finish_ask (.note n) next s host

theorem finish_all (branches : List Process) (next : List Outcome → Process) (s : Session)
    (host : σ) :
    h.finish (.all branches next) s host =
      h.finish (next (((Process.runAll h.answer branches).run s).run host).1.1)
        (((Process.runAll h.answer branches).run s).run host).1.2
        (((Process.runAll h.answer branches).run s).run host).2 := by
  unfold finish Host.run
  rw [Process.run]
  rfl

theorem reply_journal (request : Request) (s : Session) (host : σ) :
    (h.reply request s host).2.1.journal = s.journal ++ [request] := by
  cases request <;> rfl

/-- A cache of texts stays one. -/
theorem reply_textual {s : Session} (textual : s.cache.IsTextual) (request : Request) (host : σ) :
    (h.reply request s host).2.1.cache.IsTextual := by
  cases request with
  | remember path text => exact textual.remember path text
  | _ => exact textual

/-- Branches that run one after the other only add to the journal. -/
theorem runAll_extends {branches : List Process}
    (each : ∀ b ∈ branches, ∀ s host, ∃ made, (h.finish b s host).2.1.journal = s.journal ++ made)
    (s : Session) (host : σ) :
    ∃ made, (((Process.runAll h.answer branches).run s).run host).1.2.journal =
      s.journal ++ made := by
  induction branches generalizing s host with
  | nil =>
    rw [Process.runAll]
    exact ⟨[], (List.append_nil _).symm⟩
  | cons b branches ih =>
    obtain ⟨made, first⟩ := each b (by simp) s host
    obtain ⟨more, rest⟩ := ih (fun c hc => each c (by simp [hc])) (h.finish b s host).2.1
      (h.finish b s host).2.2
    refine ⟨made ++ more, ?_⟩
    rw [← List.append_assoc, ← first, ← rest, Process.runAll]
    rfl

/-- A run only adds to the journal. -/
theorem finish_extends (p : Process) (s : Session) (host : σ) :
    ∃ made, (h.finish p s host).2.1.journal = s.journal ++ made := by
  induction p using Process.induct generalizing s host with
  | done outcome =>
    rw [finish_done]
    exact ⟨[], (List.append_nil _).symm⟩
  | ask request next ih =>
    obtain ⟨made, eq⟩ := ih (h.reply request s host).1 (h.reply request s host).2.1
      (h.reply request s host).2.2
    rw [finish_ask, eq, reply_journal, List.append_assoc]
    exact ⟨_, rfl⟩
  | all branches next ih_branches ih_next =>
    obtain ⟨made, branches_eq⟩ := h.runAll_extends ih_branches s host
    obtain ⟨more, rest⟩ := ih_next (((Process.runAll h.answer branches).run s).run host).1.1
      (((Process.runAll h.answer branches).run s).run host).1.2
      (((Process.runAll h.answer branches).run s).run host).2
    rw [finish_all, rest, branches_eq, List.append_assoc]
    exact ⟨_, rfl⟩

end Host

/-! ### Cut processes -/

namespace Process

/-- How many outlets are open after a request, if so many were open before. -/
def openAfter (count : Nat) : Request → Nat
  | .note (.opened _) => count + 1
  | .note (.closed _) => count - 1
  | _ => count

/-- A source is left, or an outlet. -/
def Leaves : Request → Prop
  | .note (.left ..) => True
  | .note (.closed _) => True
  | _ => False

/-- The process only leaves sources and outlets, and ends with the problem as
    its fault. -/
inductive Unwinds (problem : Problem) : Process → Prop
  /-- The end. -/
  | done : Unwinds problem (.fail (.problem problem))
  /-- A source or an outlet is left. -/
  | note {n : Note} {next : Unit → Process} (leaves : Leaves (.note n))
      (rest : Unwinds problem (next ())) : Unwinds problem (.ask (.note n) next)

theorem Unwinds.bind {problem : Problem} {p : Process} {k : Outcome → Process}
    (first : Unwinds problem p) (second : Unwinds problem (k (.error (.problem problem)))) :
    Unwinds problem (p.bind k) := by
  induction first with
  | done => exact second
  | note leaves _ ih => exact .note leaves ih

/-- The answer of a cache is a text, if `texts` says that there are only texts
    in it. -/
def Expected (texts : Prop) : (request : Request) → request.Answer → Prop
  | .lookUp _, answer => texts → ∀ v : Value, answer = some v → ∃ t, v = .text t
  | _, _ => True

section cut

variable (hard : Nat → Problem → Prop) (texts : Prop)

/-- The second process is the first one, cut short at its first problem that is
    hard where so many outlets are open. Their outcomes are related by `E` if
    there is no such problem, and then `last` outlets are open in the end. -/
inductive Cut (E : Outcome → Outcome → Prop) (last : Nat) : Nat → Process → Process → Prop
  /-- Both are at their end. -/
  | done {soft strict : Outcome} (ends : E soft strict) : Cut E last last (.done soft) (.done strict)
  /-- Both make a request. -/
  | ask {count : Nat} {request : Request} {next next' : request.Answer → Process}
      (easy : ∀ problem, request = .note (.problem problem) → ¬ hard count problem)
      (rest : ∀ answer, Expected texts request answer →
        Cut E last (openAfter count request) (next answer) (next' answer)) :
      Cut E last count (.ask request next) (.ask request next')
  /-- Both note a hard problem, and the strict one ends. -/
  | hard {count : Nat} {problem : Problem} (is_hard : hard count problem)
      (next : Unit → Process) {next' : Unit → Process} (ends : Unwinds problem (next' ())) :
      Cut E last count (.ask (.note (.problem problem)) next) (.ask (.note (.problem problem)) next')

variable {hard texts} {E F : Outcome → Outcome → Prop}

theorem Cut.bind {count m last : Nat} {p q : Process} {k k' : Outcome → Process}
    (first : Cut hard texts E m count p q)
    (second : ∀ soft strict, E soft strict → Cut hard texts F last m (k soft) (k' strict))
    (passes : ∀ problem, Unwinds problem (k' (.error (.problem problem)))) :
    Cut hard texts F last count (p.bind k) (q.bind k') := by
  induction first with
  | done ends => exact second _ _ ends
  | ask easy _ ih => exact .ask easy ih
  | hard is_hard next ends =>
    -- The soft process goes on as it likes, and the strict one passes the fault on.
    exact .hard is_hard (fun u => (next u).bind k) (ends.bind (passes _))

/-- A note that is no problem. -/
theorem Cut.note {count last : Nat} {n : Note} {p q : Process} (other : ∀ problem, n ≠ .problem problem)
    (rest : Cut hard texts E last (openAfter count (.note n)) p q) :
    Cut hard texts E last count (.note n p) (.note n q) := by
  refine .ask (fun problem eq => ?_) fun _ _ => rest
  exact absurd (Request.note.inj eq) (other problem)

/-- A problem that is not hard. -/
theorem Cut.problem {count last : Nat} {problem : Problem} {p q : Process}
    (easy : ¬ hard count problem) (rest : Cut hard texts E last count p q) :
    Cut hard texts E last count (.note (.problem problem) p) (.note (.problem problem) q) := by
  refine .ask (fun other eq => ?_) fun _ _ => rest
  obtain rfl := Note.problem.inj (Request.note.inj eq)
  exact easy

/-- A problem that is hard. -/
theorem Cut.hardProblem {count last : Nat} {problem : Problem} (p : Process) {q : Process}
    (is_hard : hard count problem) (ends : Unwinds problem q) :
    Cut hard texts E last count (.note (.problem problem) p) (.note (.problem problem) q) :=
  .hard is_hard (fun _ => p) ends

/-! ### Contents that do not matter -/

variable (texts)

/-- Two contents make no difference to what is asked later: both are texts, or
    stay away, or are of the same other kind. -/
structure Like (c c' : Option Content) : Prop where
  /-- The other kind is the same, if any. -/
  kind : c.bind Content.otherKind? = c'.bind Content.otherKind?
  /-- There is none, if the cache only holds texts. -/
  text : texts → c.bind Content.otherKind? = none

/-- Two outcomes make no difference to what is asked later. -/
inductive Similar : Outcome → Outcome → Prop
  /-- Both have some content, or none. -/
  | ok {c c' : Option Content} (like : Like texts c c') : Similar (.ok c) (.ok c')
  /-- Both are the same mismatch. -/
  | mismatch (m : Mismatch) (not_texts : ¬ texts) :
      Similar (.error (.mismatch m)) (.error (.mismatch m))

variable {texts}

theorem Similar.of_texts (t u : Text) : Similar texts (.ok (some (.text t))) (.ok (some (.text u))) :=
  .ok ⟨rfl, fun _ => rfl⟩

theorem Cut.inTurn {ι : Type} {count : Nat} {p q : ι → Process} {names : List ι}
    {k k' : List (Option Content) → Process}
    (each : ∀ n ∈ names, Cut hard texts (Similar texts) count count (p n) (q n))
    (rest : ∀ cs cs', List.Forall₂ (Like texts) cs cs' →
      Cut hard texts (Similar texts) count count (k cs) (k' cs')) :
    Cut hard texts (Similar texts) count count (.inTurn (names.map p) k)
      (.inTurn (names.map q) k') := by
  induction names generalizing k k' with
  | nil => exact rest [] [] .nil
  | cons n names ih =>
    refine (each n (by simp)).bind (fun soft strict similar => ?_) fun problem => .done
    -- A mismatch ends both, and a content takes both to the next process.
    cases similar with
    | mismatch m not_texts => exact .done (.mismatch m not_texts)
    | ok like =>
      refine ih (fun m hm => each m (by simp [hm])) fun cs cs' likes => ?_
      exact rest _ _ (.cons like likes)

/-! ### Runs that are cut short -/

variable (hard)

/-- Some problem among the requests is hard where it is noted, if so many
    outlets were open at the start. -/
def Meets (count : Nat) (made : List Request) : Prop :=
  ∃ before problem after, made = before ++ .note (.problem problem) :: after ∧
    hard (before.foldl openAfter count) problem

theorem meets_cons {count : Nat} {request : Request} {made : List Request} :
    Meets hard count (request :: made) ↔
      (∃ problem, request = .note (.problem problem) ∧ hard count problem) ∨
        Meets hard (openAfter count request) made := by
  constructor
  · rintro ⟨before, problem, after, eq, is_hard⟩
    rcases List.cons_eq_append_iff.mp eq with ⟨rfl, eq⟩ | ⟨before, rfl, rfl⟩
    · obtain ⟨rfl, -⟩ := List.cons.inj eq
      exact .inl ⟨problem, rfl, is_hard⟩
    · exact .inr ⟨before, problem, after, rfl, is_hard⟩
  · rintro (⟨problem, rfl, is_hard⟩ | ⟨before, problem, after, rfl, is_hard⟩)
    · exact ⟨[], problem, made, rfl, is_hard⟩
    · exact ⟨request :: before, problem, after, rfl, is_hard⟩

/-- How the ends of the soft and the strict run compare, from a journal on. -/
inductive CutShort {σ : Type} (E : Outcome → Outcome → Prop) (count : Nat)
    (journal : List Request) : Outcome × Session × σ → Outcome × Session × σ → Prop
  /-- There was no hard problem, and both runs are the same. -/
  | same {soft strict : Outcome} {s : Session} {host : σ} (made : List Request)
      (journal_eq : s.journal = journal ++ made) (easy : ¬ Meets hard count made)
      (ends : E soft strict) : CutShort E count journal (soft, s, host) (strict, s, host)
  /-- The strict run left off at the first hard problem. -/
  | short {soft : Outcome} {s t : Session} {host host' : σ} (before : List Request)
      (problem : Problem) (after leaving : List Request)
      (soft_journal : s.journal = journal ++ before ++ .note (.problem problem) :: after)
      (easy : ¬ Meets hard count before) (is_hard : hard (before.foldl openAfter count) problem)
      (strict_journal : t.journal = journal ++ before ++ .note (.problem problem) :: leaving)
      (leaves : ∀ request ∈ leaving, Leaves request) :
      CutShort E count journal (soft, s, host) (.error (.problem problem), t, host')

variable {hard} {σ : Type}

/-- One more request in front of both runs. -/
theorem CutShort.cons {count : Nat} {journal : List Request} {request : Request}
    {a b : Outcome × Session × σ}
    (easy_request : ∀ problem, request = .note (.problem problem) → ¬ hard count problem)
    (h : CutShort hard E (openAfter count request) (journal ++ [request]) a b) :
    CutShort hard E count journal a b := by
  have easy_cons {made : List Request} (easy : ¬ Meets hard (openAfter count request) made) :
      ¬ Meets hard count (request :: made) := by
    rw [meets_cons]
    rintro (⟨problem, eq, is_hard⟩ | meets)
    · exact easy_request problem eq is_hard
    · exact easy meets
  cases h with
  | same made journal_eq easy ends =>
    exact .same (request :: made) (by simp [journal_eq]) (easy_cons easy) ends
  | short before problem after leaving soft_journal easy is_hard strict_journal leaves =>
    exact .short (request :: before) problem after leaving (by simp [soft_journal])
      (easy_cons easy) is_hard (by simp [strict_journal]) leaves

/-- A process that unwinds only leaves sources and outlets. -/
theorem Unwinds.finish {h : Host (StateM σ)} {problem : Problem} {p : Process}
    (unwinds : Unwinds problem p) (s : Session) (host : σ) :
    ∃ leaving, (∀ request ∈ leaving, Leaves request) ∧
      (h.finish p s host).2.1.journal = s.journal ++ leaving ∧
      (h.finish p s host).1 = .error (.problem problem) := by
  induction unwinds generalizing s with
  | done =>
    refine ⟨[], by simp, ?_, ?_⟩
    · rw [Process.fail, Host.finish_done, List.append_nil]
    · rw [Process.fail, Host.finish_done]
  | @note n next leaves _ ih =>
    obtain ⟨leaving, leaves_all, journal_eq, outcome_eq⟩ := ih (s.log (.note n))
    refine ⟨.note n :: leaving, ?_, ?_, ?_⟩
    · intro request mem
      rcases List.mem_cons.mp mem with rfl | mem
      · exact leaves
      · exact leaves_all request mem
    · rw [Host.finish_note, journal_eq]
      simp [Session.log]
    · rw [Host.finish_note, outcome_eq]

/-- The runs of two processes, the second one of which is the first one cut
    short. -/
theorem Cut.finish {h : Host (StateM σ)} {count last : Nat} {p q : Process}
    (cut : Cut hard texts E last count p q) (s : Session) (host : σ)
    (textual : texts → s.cache.IsTextual) :
    CutShort hard E count s.journal (h.finish p s host) (h.finish q s host) := by
  induction cut generalizing s host with
  | done ends =>
    rw [Host.finish_done, Host.finish_done]
    refine .same [] (List.append_nil _).symm ?_ ends
    rintro ⟨before, problem, after, eq, -⟩
    simp at eq
  | @ask count request next next' easy rest ih =>
    -- Up to here the runs are the same, and so the host gives both the same answer.
    have expected : Expected texts request (h.reply request s host).1 := by
      cases request with
      | lookUp path => exact fun is_texts v found => textual is_texts path v found
      | _ => trivial
    have after := ih _ expected (h.reply request s host).2.1 (h.reply request s host).2.2
      fun is_texts => h.reply_textual (textual is_texts) request host
    rw [Host.reply_journal] at after
    rw [Host.finish_ask, Host.finish_ask]
    exact after.cons easy
  | @hard count problem is_hard next next' ends =>
    -- From the hard problem on, the two runs have nothing more in common.
    obtain ⟨after, soft_journal⟩ := h.finish_extends (next ()) (s.log (.note (.problem problem))) host
    obtain ⟨leaving, leaves, strict_journal, strict_outcome⟩ :=
      ends.finish (h := h) (s.log (.note (.problem problem))) host
    rw [Host.finish_note, Host.finish_note]
    generalize h.finish (next ()) (s.log (.note (.problem problem))) host = soft at soft_journal ⊢
    generalize h.finish (next' ()) (s.log (.note (.problem problem))) host = strict
      at strict_journal strict_outcome ⊢
    obtain ⟨soft_outcome, soft_session, soft_host⟩ := soft
    obtain ⟨strict_outcome, strict_session, strict_host⟩ := strict
    simp only at soft_journal strict_journal strict_outcome
    subst strict_outcome
    refine .short [] problem after leaving ?_ ?_ is_hard ?_ leaves
    · rw [soft_journal]
      simp [Session.log]
    · rintro ⟨before, problem, after, eq, -⟩
      simp at eq
    · rw [strict_journal]
      simp [Session.log]

end cut

end Process

end MarkdownOutlets
