import MarkdownOutlets.Proofs.Composition.Dues
import MarkdownOutlets.Proofs.Process.Quiet

/-! # Processes that ask more

  Two processes may ask the same of their surroundings, but for some requests
  that only the second one makes in between. What it adds depends on the next
  request of the first one and on the outlets in which this is made. Whatever
  they are given for the same requests, both go on alike.

  `Setting.Adds` says so for runs, one slot after the other, against the same
  sources and with the same cache. The journal of the second process can be told
  from that of the first one then: it is the same journal with the additions put
  in (`withAdditions`).
-/

namespace MarkdownOutlets

/-! ### Journals with additions -/

/-- The outlets that are open after a request, the outermost first. -/
def outletsAfter (names : List Text) : Request → List Text
  | .note (.opened name) => names ++ [name]
  | .note (.closed _) => names.dropLast
  | _ => names

/-- Some requests, each with the outlets in which it was made. -/
def withOutlets : (names : List Text) → List Request → List (List Text × Request)
  | _, [] => []
  | names, request :: rest => (names, request) :: withOutlets (outletsAfter names request) rest

theorem withOutlets_append (names : List Text) (first second : List Request) :
    withOutlets names (first ++ second) =
      withOutlets names first ++ withOutlets (first.foldl outletsAfter names) second := by
  induction first generalizing names with
  | nil => rfl
  | cons request first ih =>
    rw [List.cons_append, withOutlets, withOutlets, ih, List.cons_append, List.foldl_cons]

section additions

variable (extra : List Text → Request → List Request)

/-- Some requests, with additions in front of each that depend on the outlets in which it was
    made. -/
def withAdditions (names : List Text) (journal : List Request) : List Request :=
  (withOutlets names journal).flatMap fun entry => extra entry.1 entry.2 ++ [entry.2]

theorem withAdditions_cons (names : List Text) (request : Request) (rest : List Request) :
    withAdditions extra names (request :: rest) =
      extra names request ++ request :: withAdditions extra (outletsAfter names request) rest := by
  rw [withAdditions, withOutlets, List.flatMap_cons, List.append_assoc]
  rfl

theorem withAdditions_append (names : List Text) (first second : List Request) :
    withAdditions extra names (first ++ second) =
      withAdditions extra names first ++
        withAdditions extra (first.foldl outletsAfter names) second := by
  rw [withAdditions, withOutlets_append, List.flatMap_append]
  rfl

/-- What is picked of the requests is not changed by additions of which nothing is picked. -/
theorem filter_withAdditions {pick : Request → Bool}
    (none_added : ∀ names request, ∀ added ∈ extra names request, pick added = false)
    (names : List Text) (journal : List Request) :
    (withAdditions extra names journal).filter pick = journal.filter pick := by
  induction journal generalizing names with
  | nil => rfl
  | cons request rest ih =>
    have nothing : (extra names request).filter pick = [] :=
      List.filter_eq_nil_iff.mpr fun added mem => by simp [none_added names request added mem]
    rw [withAdditions_cons, List.filter_append, nothing, List.nil_append, List.filter_cons, ih,
      List.filter_cons]

end additions

/-! ### Runs that add requests -/

/-- What comes of a request depends on the cache, but not on what was asked before. -/
theorem Host.reply_of_cache_eq {σ : Type} (h : Host (StateM σ)) (request : Request) {s s' : Session}
    (same : s'.cache = s.cache) (host : σ) :
    (h.reply request s' host).1 = (h.reply request s host).1 ∧
      (h.reply request s' host).2.1.cache = (h.reply request s host).2.1.cache ∧
      (h.reply request s' host).2.2 = (h.reply request s host).2.2 := by
  obtain ⟨cache, journal⟩ := s
  obtain ⟨cache', journal'⟩ := s'
  obtain rfl : cache' = cache := same
  cases request <;> exact ⟨rfl, rfl, rfl⟩

namespace Setting

section runs

variable (x : Setting) {σ : Type} (call : Callback → StateM σ (Except Text Content))
  (extra : List Text → Request → List Request)

/-- How the ends of two runs compare, from the sessions `s` and `s'` and from the outlets `names`
    on: both are the same, but for the additions of the second one. -/
structure EndsAlike (names last : List Text) (Φ : Outcome → Prop) (s s' : Session)
    (old new : Outcome × Session × σ) : Prop where
  /-- The outcome is the same. -/
  outcome : new.1 = old.1
  /-- `Φ` holds of it. -/
  holds : Φ old.1
  /-- The host has the same state. -/
  host : new.2.2 = old.2.2
  /-- The cache is the same. -/
  cache : new.2.1.cache = old.2.1.cache
  /-- It holds what it may hold. -/
  proper : x.Proper old.2.1.cache
  /-- The requests are the same but for the additions, and the outlets `last` are open in the
      end. -/
  journal : ∃ made, old.2.1.journal = s.journal ++ made ∧
    new.2.1.journal = s'.journal ++ withAdditions extra names made ∧
    made.foldl outletsAfter names = last

/-- The second process adds requests to those of the first one, from the outlets `names` on.
    In the end the outlets `last` are open, and `Φ` holds of the outcome. -/
def Adds (names last : List Text) (Φ : Outcome → Prop) (p q : Process) : Prop :=
  ∀ (s s' : Session) (host : σ), x.Proper s.cache → s'.cache = s.cache →
    x.EndsAlike extra names last Φ s s' ((x.hostWith call).finish p s host)
      ((x.hostWith call).finish q s' host)

end runs

namespace Adds

variable {x : Setting} {σ : Type} {call : Callback → StateM σ (Except Text Content)}
  {extra : List Text → Request → List Request} {names middle last : List Text}
  {Φ Ψ : Outcome → Prop} {p q : Process}

theorem done {outcome : Outcome} (holds : Φ outcome) :
    x.Adds call extra names names Φ (.done outcome) (.done outcome) := by
  intro s s' host proper same
  rw [Host.finish_done, Host.finish_done]
  refine ⟨rfl, holds, rfl, same, proper, [], ?_, ?_, rfl⟩
  · exact (List.append_nil _).symm
  · exact (List.append_nil _).symm

/-- A request to which nothing is added. -/
theorem ask {request : Request} {next next' : request.Answer → Process}
    (plain : extra names request = []) (honest : x.Honest request)
    (rest : ∀ answer, x.May request answer →
      x.Adds call extra (outletsAfter names request) last Φ (next answer) (next' answer)) :
    x.Adds call extra names last Φ (.ask request next) (.ask request next') := by
  intro s s' host proper same
  -- The caches are the same, and so is the answer.
  obtain ⟨answer_eq, cache_eq, host_eq⟩ := (x.hostWith call).reply_of_cache_eq request same host
  have may : x.May request ((x.hostWith call).reply request s host).1 := may_reply proper request host
  have after := rest _ may _ _ ((x.hostWith call).reply request s host).2.2
    (proper_reply proper honest host) cache_eq
  rw [Host.finish_ask, Host.finish_ask, answer_eq, host_eq]
  obtain ⟨made, journal_eq, journal_eq', outlets⟩ := after.journal
  refine ⟨after.outcome, after.holds, after.host, after.cache, after.proper,
    request :: made, ?_, ?_, outlets⟩
  · rw [journal_eq, Host.reply_journal, List.append_assoc, List.singleton_append]
  · rw [journal_eq', Host.reply_journal, withAdditions_cons, plain, List.nil_append,
      List.append_assoc, List.singleton_append]

theorem note {n : Note} (plain : extra names (.note n) = [])
    (rest : x.Adds call extra (outletsAfter names (.note n)) last Φ p q) :
    x.Adds call extra names last Φ (.note n p) (.note n q) :=
  .ask plain trivial fun _ _ => rest

theorem bind {k k' : Outcome → Process} (first : x.Adds call extra names middle Φ p q)
    (second : ∀ outcome, Φ outcome → x.Adds call extra middle last Ψ (k outcome) (k' outcome)) :
    x.Adds call extra names last Ψ (p.bind k) (q.bind k') := by
  intro s s' host proper same
  have before := first s s' host proper same
  obtain ⟨made, journal_eq, journal_eq', outlets⟩ := before.journal
  have after := second _ before.holds _ _ ((x.hostWith call).finish p s host).2.2 before.proper
    before.cache
  obtain ⟨more, more_eq, more_eq', last_eq⟩ := after.journal
  rw [Host.finish_bind, Host.finish_bind, before.outcome, before.host]
  refine ⟨after.outcome, after.holds, after.host, after.cache, after.proper,
    made ++ more, ?_, ?_, ?_⟩
  · rw [more_eq, journal_eq, List.append_assoc]
  · rw [more_eq', journal_eq', withAdditions_append, outlets, List.append_assoc]
  · rw [List.foldl_append, outlets, last_eq]

/-- A note, and what is added to it by a process that only takes notes itself. -/
theorem addition {n : Note} {outcome : Outcome} {k : Outcome → Process}
    (quiet : (x.hostWith call).Quiet q outcome (extra names (.note n)))
    (rest : x.Adds call extra (outletsAfter names (.note n)) last Φ p (k outcome)) :
    x.Adds call extra names last Φ (.note n p) (q.bind fun outcome => .note n (k outcome)) := by
  intro s s' host proper same
  have after := rest (s.log (.note n))
    (Session.log { s' with journal := s'.journal ++ extra names (.note n) } (.note n)) host proper same
  obtain ⟨made, journal_eq, journal_eq', outlets⟩ := after.journal
  have old : (x.hostWith call).finish (.note n p) s host =
      (x.hostWith call).finish p (s.log (.note n)) host := Host.finish_note _ n (fun _ => p) s host
  have new : (x.hostWith call).finish (q.bind fun outcome => .note n (k outcome)) s' host =
      (x.hostWith call).finish (k outcome)
        (Session.log { s' with journal := s'.journal ++ extra names (.note n) } (.note n)) host := by
    rw [Host.finish_bind, quiet s' host]
    exact Host.finish_note _ n (fun _ => k outcome) _ host
  rw [old, new]
  refine ⟨after.outcome, after.holds, after.host, after.cache, after.proper,
    .note n :: made, ?_, ?_, outlets⟩
  · rw [journal_eq, Session.log, List.append_assoc, List.singleton_append]
  · rw [journal_eq', Session.log, withAdditions_cons, List.append_assoc, List.append_assoc,
      List.singleton_append]

/-- Processes that run one after the other. -/
theorem inTurn {ι : Type} {ps qs : ι → Process} {ns : List ι}
    {k k' : List (Option Content) → Process}
    (each : ∀ n ∈ ns, x.Adds call extra names names (fun _ => True) (ps n) (qs n))
    (rest : ∀ cs, x.Adds call extra names names (fun _ => True) (k cs) (k' cs)) :
    x.Adds call extra names names (fun _ => True) (.inTurn (ns.map ps) k)
      (.inTurn (ns.map qs) k') := by
  induction ns generalizing k k' with
  | nil => exact rest []
  | cons n ns ih =>
    refine (each n List.mem_cons_self).bind fun outcome _ => ?_
    cases outcome with
    | error f => exact .done trivial
    | ok c => exact ih (fun m mem => each m (List.mem_cons_of_mem n mem)) fun cs => rest (c :: cs)

end Adds

end Setting

end MarkdownOutlets
