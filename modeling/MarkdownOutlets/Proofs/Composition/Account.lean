import MarkdownOutlets.Composition.Compose
import MarkdownOutlets.Proofs.Process.Interleaving

/-! # What a process comes to

  A composition is run against a host that always gives the same answers, and
  with a cache in which the branches leave texts for each other. What a branch
  finds in the cache depends on the order of the steps; what the composition
  comes to must not.

  An *account* is what a process comes to: its outcome, the problems that it
  notes, and the sources whose texts it makes the cache hold. `Setting.Yields`
  says that a process has an account whatever it finds in the cache, as long
  as the cache only holds its initial entries and texts that the host has.
  The main statement, `Setting.Yields.steps`, says that every interleaving
  keeps to the account.
-/

namespace MarkdownOutlets

/-! ### Accounts -/

/-- What a process comes to. -/
structure Account where
  /-- Its outcome. -/
  outcome : Outcome
  /-- The problems that it notes. -/
  problems : List Problem
  /-- The sources whose texts the cache holds in the end because of it. -/
  kept : List Text

namespace Account

/-- An outcome and nothing else. -/
def only (outcome : Outcome) : Account := { outcome, problems := [], kept := [] }

/-- What one process and then another one come to. -/
def followedBy (a b : Account) : Account :=
  { outcome := b.outcome, problems := a.problems ++ b.problems, kept := a.kept ++ b.kept }

end Account

/-! ### Settings -/

/-- What a composition is run with: a host whose answers do not change,
    options, and the cache that the caller shares between compositions. -/
structure Setting where
  /-- The host. -/
  host : Host Id
  /-- The options. -/
  options : Options
  /-- The shared cache. -/
  shared : Cache

namespace Setting

variable (x : Setting)

/-- The cache at the start, which is empty if the options want none. -/
def cache : Cache := CacheChoice.initial x.options.cache x.shared

/-- The answer of the host whether there is a source at a path. -/
def probed (path : Text) : Except ProviderFault Bool := x.host.probe path

/-- The answer of the host when it is asked for the text at a path. -/
def read (path : Text) : Except ProviderFault Text := x.host.read path

/-- The result of a function. -/
def called (c : Callback) : Except Text Content := x.host.call c

/-- The text that the host has for a path. -/
def text? (path : Text) : Option Text :=
  match x.probed path, x.read path with
  | .ok true, .ok t => some t
  | _, _ => none

/-- The path is not among the initial entries of the cache. -/
def IsNew (path : Text) : Prop := x.cache.held? path = none

/-- Problems in the same order; up to order if branches run side by side. -/
def SameProblems (ps qs : List Problem) : Prop :=
  ps.Perm qs ∧ (x.options.parallel = false → ps = qs)

variable {x}

theorem SameProblems.refl (ps : List Problem) : x.SameProblems ps ps :=
  ⟨.refl ps, fun _ => rfl⟩

theorem SameProblems.trans {ps qs rs : List Problem} (first : x.SameProblems ps qs)
    (second : x.SameProblems qs rs) : x.SameProblems ps rs :=
  ⟨first.1.trans second.1, fun h => (first.2 h).trans (second.2 h)⟩

theorem SameProblems.append_left (front : List Problem) {ps qs : List Problem}
    (same : x.SameProblems ps qs) : x.SameProblems (front ++ ps) (front ++ qs) :=
  ⟨same.1.append_left front, fun h => congrArg (front ++ ·) (same.2 h)⟩

theorem text?_eq_some {path t : Text} :
    x.text? path = some t ↔
      x.probed path = .ok true ∧ x.read path = .ok t := by
  unfold text?
  constructor
  · intro h
    split at h
    · rename_i probed read
      exact ⟨probed, read.trans (by rw [Option.some.inj h])⟩
    · simp at h
  · rintro ⟨probed, read⟩
    simp [probed, read]

variable (x)

/-! ### The account of a process -/

/-- In this setting the process has the account, when the sources `asked` were
    read before. A path that is looked up is found if it is among the initial
    entries. If not, it may be found nevertheless, with the text that the host
    has, because another branch let the cache hold it. -/
inductive Yields : List Text → Process → Account → Prop
  /-- The end. -/
  | done (asked : List Text) (outcome : Outcome) : Yields asked (.done outcome) (.only outcome)
  /-- A problem is noted. -/
  | problem {asked : List Text} (p : Problem) (next : Unit → Process) {a : Account}
      (rest : Yields asked (next ()) a) :
      Yields asked (.ask (.note (.problem p)) next) { a with problems := p :: a.problems }
  /-- Something else is noted. -/
  | note {asked : List Text} {n : Note} (other : ∀ p, n ≠ .problem p) {next : Unit → Process}
      {a : Account} (rest : Yields asked (next ()) a) : Yields asked (.ask (.note n) next) a
  /-- A function is called. -/
  | call {asked : List Text} {c : Callback} {next : Except Text Content → Process} {a : Account}
      (rest : Yields asked (next (x.called c)) a) : Yields asked (.ask (.call c) next) a
  /-- The host is asked whether there is a source. -/
  | probe {asked : List Text} {path : Text} (isNew : x.IsNew path)
      {next : Except ProviderFault Bool → Process} {a : Account}
      (rest : Yields asked (next (x.probed path)) a) : Yields asked (.ask (.probe path) next) a
  /-- The host, which has the source, is asked for its text. With a cache, the
      text will be kept. -/
  | read {asked : List Text} {path : Text} (isNew : x.IsNew path)
      (present : x.probed path = .ok true)
      {next : Except ProviderFault Text → Process} {a : Account}
      (kept : x.options.cache.isSome → (x.text? path).isSome → path ∈ a.kept)
      (rest : Yields (path :: asked) (next (x.read path)) a) :
      Yields asked (.ask (.read path) next) a
  /-- An initial entry of the cache is looked up. -/
  | lookUp {asked : List Text} {path : Text} {v : Value} (found : x.cache.held? path = some v)
      {next : Option Value → Process} {a : Account} (rest : Yields asked (next (some v)) a) :
      Yields asked (.ask (.lookUp path) next) a
  /-- Another path is looked up. Either way its text is kept, if the host has
      one. -/
  | lookUpNew {asked : List Text} {path : Text} (isNew : x.IsNew path)
      {next : Option Value → Process} {a : Account} (kept : List Text)
      (missed : Yields asked (next none) a)
      (split : ∀ t, x.text? path = some t → a.kept = path :: kept)
      (found : ∀ t, x.text? path = some t → Yields asked (next (some (.text t))) { a with kept }) :
      Yields asked (.ask (.lookUp path) next) a
  /-- The cache is given the text of a source that was read. -/
  | remember {asked : List Text} {path t : Text} (isNew : x.IsNew path)
      (text : x.text? path = some t) (was_asked : path ∈ asked) (next : Unit → Process) {a : Account}
      (rest : Yields asked (next ()) a) :
      Yields asked (.ask (.remember path t) next) { a with kept := path :: a.kept }
  /-- Branches run side by side. -/
  | all (parallel : x.options.parallel = true) {asked : List Text} {branches : List Process}
      (next : List Outcome → Process) {a : Account} (members : List (Process × Account))
      (eq : branches = members.map Prod.fst) (each : ∀ m ∈ members, Yields asked m.1 m.2)
      (rest : Yields asked (next (members.map fun m => m.2.outcome)) a) :
      Yields asked (.all branches next)
        { outcome := a.outcome
          problems := members.flatMap (fun m => m.2.problems) ++ a.problems
          kept := members.flatMap (fun m => m.2.kept) ++ a.kept }

variable {x}

namespace Yields

/-- What was read before may be more. -/
theorem mono {asked : List Text} {p : Process} {a : Account} (h : x.Yields asked p a)
    {more : List Text} (sub : asked ⊆ more) : x.Yields more p a := by
  induction h generalizing more with
  | done => exact .done _ _
  | problem p next _ ih => exact .problem p next (ih sub)
  | note other _ ih => exact .note other (ih sub)
  | call _ ih => exact .call (ih sub)
  | probe isNew _ ih => exact .probe isNew (ih sub)
  | read isNew present kept _ ih =>
    exact .read isNew present kept (ih (List.cons_subset_cons _ sub))
  | lookUp found _ ih => exact .lookUp found (ih sub)
  | lookUpNew isNew kept _ split _ ih_missed ih_found =>
    exact .lookUpNew isNew kept (ih_missed sub) split fun t ht => ih_found t ht sub
  | remember isNew text was_asked next _ ih =>
    exact .remember isNew text (sub was_asked) next (ih sub)
  | all parallel next members eq _ _ ih_each ih =>
    exact .all parallel next members eq (fun m hm => ih_each m hm sub) (ih sub)

/-- The account of a process behind a problem. -/
theorem noteProblem {asked : List Text} {p : Process} {a : Account} (problem : Problem)
    (h : x.Yields asked p a) :
    x.Yields asked (.note (.problem problem) p) { a with problems := problem :: a.problems } :=
  .problem problem (fun _ => p) h

/-- The account of a process behind another note. -/
theorem noteOther {asked : List Text} {p : Process} {a : Account} {n : Note}
    (other : ∀ problem, n ≠ .problem problem) (h : x.Yields asked p a) :
    x.Yields asked (.note n p) a :=
  let next : Unit → Process := fun _ => p
  show x.Yields asked (.ask (.note n) next) a from .note other h

/-- The account of a process that goes on after another one. -/
theorem bind {asked : List Text} {p : Process} {a b : Account} {k : Outcome → Process}
    (first : x.Yields asked p a) (second : x.Yields asked (k a.outcome) b) :
    x.Yields asked (p.bind k) (a.followedBy b) := by
  induction first with
  | done => exact second
  | problem p next _ ih => exact .problem p (fun u => (next u).bind k) (ih second)
  | note other _ ih => exact .note other (ih second)
  | call _ ih => exact .call (ih second)
  | probe isNew _ ih => exact .probe isNew (ih second)
  | read isNew present kept _ ih =>
    -- What one of the processes lets the cache keep is kept because of both.
    refine .read isNew present (fun hc ht => ?_) (ih (second.mono (List.subset_cons_self _ _)))
    exact List.mem_append_left _ (kept hc ht)
  | lookUp found _ ih => exact .lookUp found (ih second)
  | lookUpNew isNew kept _ split _ ih_missed ih_found =>
    refine .lookUpNew isNew (kept ++ b.kept) (ih_missed second) (fun t ht => ?_) fun t ht => ?_
    · simp [Account.followedBy, split t ht]
    · exact ih_found t ht second
  | remember isNew text was_asked next _ ih =>
    exact .remember isNew text was_asked (fun u => (next u).bind k) (ih second)
  | all parallel next members eq each _ _ ih =>
    have whole := Yields.all parallel (fun os => (next os).bind k) members eq each (ih second)
    simpa [Account.followedBy, Process.bind] using whole

end Yields

/-! ### Steps keep to the account -/

variable (x)

/-- The path was added to the cache: there is an entry now, which was not
    there at the start. -/
def Added (s : Session) (path : Text) : Prop := x.IsNew path ∧ (s.cache.held? path).isSome

/-- The setting can lead to the session, in which the sources `asked` were
    read. -/
structure Fits (asked : List Text) (s : Session) : Prop where
  /-- The initial entries of the cache stand. -/
  standing : ∀ key v, x.cache.get? key = some v → s.cache.get? key = some v
  /-- Every other entry is the text of a source that was read. -/
  added : ∀ key v, x.cache.get? key = none → s.cache.get? key = some v →
    ∃ path t, key = .text path ∧ v = .text t ∧ x.text? path = some t ∧ .read path ∈ s.journal
  /-- The sources were read. -/
  asked : ∀ path ∈ asked, .read path ∈ s.journal

/-- Between two sessions the requests `made` were made, and what is left of an
    account `a` is `b`. -/
structure Advances (a : Account) (s : Session) (made : List Request) (b : Account) (t : Session) :
    Prop where
  /-- The outcome stays the same. -/
  outcome : b.outcome = a.outcome
  /-- The journal holds the requests. -/
  journal : t.journal = s.journal ++ made
  /-- The problems noted are those that are not left. -/
  problems : x.SameProblems (problemsOf made ++ b.problems) a.problems
  /-- What was added to the cache is what need not be kept any more. -/
  kept : ∀ path, path ∈ b.kept ∨ x.Added t path ↔ path ∈ a.kept ∨ x.Added s path
  /-- The host was asked about new paths only. -/
  asks : ∀ path, .probe path ∈ made ∨ .read path ∈ made → x.IsNew path
  /-- A source that was read is there, and with a cache its text is kept. -/
  reads : ∀ path, .read path ∈ made → x.probed path = .ok true ∧
    (x.options.cache.isSome → (x.text? path).isSome → path ∈ a.kept ∨ x.Added s path)

variable {x}

theorem Fits.log {asked : List Text} {s : Session} (fits : x.Fits asked s) (r : Request) :
    x.Fits asked (s.log r) where
  standing := fits.standing
  added := by
    intro key v new found
    obtain ⟨path, t, h_key, h_v, h_text, h_read⟩ := fits.added key v new found
    exact ⟨path, t, h_key, h_v, h_text, List.mem_append_left _ h_read⟩
  asked := fun path h => List.mem_append_left _ (fits.asked path h)

/-- What the cache holds for a new path is the text that the host has. -/
theorem Fits.text_of_held {asked : List Text} {s : Session} (fits : x.Fits asked s) {path : Text}
    (isNew : x.IsNew path) {v : Value} (found : s.cache.held? path = some v) :
    ∃ t, v = .text t ∧ x.text? path = some t := by
  obtain ⟨q, t, h_key, h_v, h_text, -⟩ := fits.added (.text path) v isNew found
  obtain rfl : path = q := by simpa using h_key
  exact ⟨t, h_v, h_text⟩

/-- A cache that is given the text of a source that was read. -/
theorem Fits.remember {asked : List Text} {s : Session} (fits : x.Fits asked s) {path t : Text}
    (isNew : x.IsNew path) (text : x.text? path = some t) (was_asked : path ∈ asked) :
    x.Fits asked { s with cache := s.cache.remember path t } where
  standing := by
    intro key v h
    -- The path is new, so the entry is for another one.
    have ne : key ≠ .text path := by
      rintro rfl
      simp [IsNew, Cache.held?, h] at isNew
    simpa [Cache.get?_remember, ne] using fits.standing key v h
  added := by
    intro key v new found
    rw [Cache.get?_remember] at found
    by_cases h : key = .text path
    · rw [if_pos h] at found
      exact ⟨path, t, h, (Option.some.inj found).symm, text, fits.asked path was_asked⟩
    · rw [if_neg h] at found
      exact fits.added key v new found
  asked := fits.asked

theorem added_remember {s : Session} {path t : Text} (isNew : x.IsNew path) (q : Text) :
    x.Added { s with cache := s.cache.remember path t } q ↔ q = path ∨ x.Added s q := by
  by_cases h : q = path
  · simp [Added, Cache.held?_remember, h, isNew]
  · simp [Added, Cache.held?_remember, h]

namespace Advances

/-- A request that leaves the cache alone. -/
theorem quiet {a b : Account} {s : Session} (r : Request) (outcome : b.outcome = a.outcome)
    (problems : problemsOf [r] ++ b.problems = a.problems)
    (kept : ∀ path, path ∈ b.kept ∨ x.Added s path ↔ path ∈ a.kept ∨ x.Added s path)
    (asks : ∀ path, r = .probe path ∨ r = .read path → x.IsNew path)
    (reads : ∀ path, r = .read path → x.probed path = .ok true ∧
      (x.options.cache.isSome → (x.text? path).isSome → path ∈ a.kept)) :
    x.Advances a s [r] b (s.log r) where
  outcome := outcome
  journal := rfl
  problems := problems ▸ .refl _
  kept := kept
  asks := fun path h => asks path (by simpa [eq_comm] using h)
  reads := by
    intro path h
    obtain ⟨present, kept⟩ := reads path (by simpa [eq_comm] using h)
    exact ⟨present, fun hc ht => .inl (kept hc ht)⟩

/-- A request that is no problem, does not ask the host and leaves the account
    as it is. -/
theorem silent {a : Account} {s : Session} (r : Request) (problems : problemsOf [r] = [])
    (no_probe : ∀ path, r ≠ .probe path) (no_read : ∀ path, r ≠ .read path) :
    x.Advances a s [r] a (s.log r) :=
  .quiet r rfl (by rw [problems, List.nil_append]) (fun _ => Iff.rfl)
    (fun path h => h.elim (fun h => absurd h (no_probe path)) fun h => absurd h (no_read path))
    (fun path h => absurd h (no_read path))

theorem refl (a : Account) (s : Session) : x.Advances a s [] a s where
  outcome := rfl
  journal := (List.append_nil _).symm
  problems := .refl _
  kept := fun _ => Iff.rfl
  asks := by simp
  reads := by simp

theorem trans {a b c : Account} {s t u : Session} {made more : List Request}
    (first : x.Advances a s made b t) (second : x.Advances b t more c u) :
    x.Advances a s (made ++ more) c u where
  outcome := second.outcome.trans first.outcome
  journal := by rw [second.journal, first.journal, List.append_assoc]
  problems := by
    rw [problemsOf_append, List.append_assoc]
    exact (second.problems.append_left _).trans first.problems
  kept := fun path => (second.kept path).trans (first.kept path)
  asks := by
    intro path h
    simp only [List.mem_append] at h
    rcases h with (h | h) | (h | h)
    · exact first.asks path (.inl h)
    · exact second.asks path (.inl h)
    · exact first.asks path (.inr h)
    · exact second.asks path (.inr h)
  reads := by
    intro path h
    rcases List.mem_append.mp h with h | h
    · exact first.reads path h
    · obtain ⟨present, kept⟩ := second.reads path h
      exact ⟨present, fun hc ht => (first.kept path).mp (kept hc ht)⟩

end Advances

/-- What an answer of the host leaves of the account. -/
theorem Yields.answer {asked : List Text} {request : Request} {next : request.Answer → Process}
    {a : Account} {s : Session} (h : x.Yields asked (.ask request next) a) (fits : x.Fits asked s) :
    ∃ more b, asked ⊆ more ∧ x.Yields more (next ((x.host.answer request).run s).1) b ∧
      x.Fits more ((x.host.answer request).run s).2 ∧
      x.Advances a s [request] b ((x.host.answer request).run s).2 := by
  cases h with
  | problem p _ rest =>
    exact ⟨asked, _, List.Subset.refl _, rest, fits.log _,
      .quiet _ rfl rfl (fun _ => Iff.rfl) (by simp) (by simp)⟩
  | @note _ n other _ _ rest =>
    refine ⟨asked, _, List.Subset.refl _, rest, fits.log _, .silent _ ?_ (by simp) (by simp)⟩
    cases n with
    | problem p => exact absurd rfl (other p)
    | _ => rfl
  | call rest =>
    exact ⟨asked, _, List.Subset.refl _, rest, fits.log _, .silent _ rfl (by simp) (by simp)⟩
  | @probe _ path isNew _ _ rest =>
    exact ⟨asked, _, List.Subset.refl _, rest, fits.log _,
      .quiet _ rfl rfl (fun _ => Iff.rfl) (by rintro q (h | h) <;> simp_all) (by simp)⟩
  | @read _ path isNew present _ _ kept rest =>
    refine ⟨path :: asked, _, List.subset_cons_self _ _, rest, ?_, ?_⟩
    · exact
        { fits.log (.read path) with
          asked := by
            intro q hq
            rcases List.mem_cons.mp hq with rfl | hq
            · exact List.mem_append_right _ (List.mem_singleton.mpr rfl)
            · exact (fits.log _).asked q hq }
    · refine .quiet _ rfl rfl (fun _ => Iff.rfl) (by rintro q (h | h) <;> simp_all) ?_
      rintro q h
      obtain rfl : path = q := by simpa using h
      exact ⟨present, kept⟩
  | @lookUp _ path v found _ _ rest =>
    have recalled : s.cache.held? path = some v := fits.standing _ _ found
    have answer_eq : ((x.host.answer (.lookUp path)).run s).1 = some v := recalled
    rw [answer_eq]
    exact ⟨asked, _, List.Subset.refl _, rest, fits.log _, .silent _ rfl (by simp) (by simp)⟩
  | @lookUpNew _ path isNew _ _ kept missed split found =>
    have answer_eq : ((x.host.answer (.lookUp path)).run s).1 = s.cache.held? path := rfl
    rw [answer_eq]
    cases recalled : s.cache.held? path with
    | none => exact ⟨asked, _, List.Subset.refl _, missed, fits.log _, .silent _ rfl (by simp) (by simp)⟩
    | some v =>
      -- Another branch left the text there; it is the text that the host has.
      obtain ⟨t, rfl, text⟩ := fits.text_of_held isNew recalled
      have here : x.Added s path := ⟨isNew, by simp [recalled]⟩
      refine ⟨asked, _, List.Subset.refl _, found t text, fits.log _,
        .quiet _ rfl rfl (fun q => ?_) (by simp) (by simp)⟩
      rw [split t text, List.mem_cons]
      by_cases hq : q = path
      · simp [hq, here]
      · simp [hq]
  | @remember _ path t isNew text was_asked _ a rest =>
    refine ⟨asked, a, List.Subset.refl _, rest, (fits.log _).remember isNew text was_asked, ?_⟩
    exact
      { outcome := rfl
        journal := rfl
        problems := .refl _
        kept := by
          intro q
          have added := added_remember (t := t) (s := s.log (.remember path t)) isNew q
          exact (or_congr_right added).trans (by rw [or_left_comm, List.mem_cons, or_assoc]; rfl)
        asks := by simp
        reads := by simp }

/-- The account of branches of which one changes its account, with the same
    outcome. -/
theorem Advances.branch (parallel : x.options.parallel = true) {front back : List (Process × Account)}
    {p p' : Process} {a a' b : Account} {s t : Session} {made : List Request}
    (one : x.Advances a s made a' t) :
    x.Advances
      { outcome := b.outcome
        problems := (front ++ (p, a) :: back).flatMap (fun m => m.2.problems) ++ b.problems
        kept := (front ++ (p, a) :: back).flatMap (fun m => m.2.kept) ++ b.kept }
      s made
      { outcome := b.outcome
        problems := (front ++ (p', a') :: back).flatMap (fun m => m.2.problems) ++ b.problems
        kept := (front ++ (p', a') :: back).flatMap (fun m => m.2.kept) ++ b.kept } t where
  outcome := rfl
  journal := one.journal
  problems := by
    refine ⟨?_, fun h => absurd h (by simp [parallel])⟩
    -- What the branch notes now comes before the problems left to the others.
    have perm := (one.problems.1.append_right
      (back.flatMap (fun m => m.2.problems) ++ b.problems)).append_left
        (front.flatMap fun m => m.2.problems)
    refine List.Perm.trans ?_ (perm.trans (by simp))
    simp only [List.flatMap_append, List.flatMap_cons, ← List.append_assoc]
    exact ((List.perm_append_comm.append_right _).append_right _).append_right _
  kept := by
    intro path
    have kept := one.kept path
    simp only [List.flatMap_append, List.flatMap_cons, List.mem_append]
    grind
  asks := one.asks
  reads := by
    intro path h
    obtain ⟨present, kept⟩ := one.reads path h
    refine ⟨present, fun hc ht => ?_⟩
    have kept := kept hc ht
    simp only [List.flatMap_append, List.flatMap_cons, List.mem_append]
    grind

/-- Branches at their end have nothing left but their outcomes. -/
theorem Yields.members_done {asked : List Text} {outcomes : List Outcome}
    {members : List (Process × Account)} (eq : outcomes.map Process.done = members.map Prod.fst)
    (each : ∀ m ∈ members, x.Yields asked m.1 m.2) :
    members.map (fun m => m.2.outcome) = outcomes ∧ members.flatMap (fun m => m.2.problems) = [] ∧
      members.flatMap (fun m => m.2.kept) = [] := by
  induction members generalizing outcomes with
  | nil => simpa [eq_comm] using eq
  | cons m members ih =>
    cases outcomes with
    | nil => simp at eq
    | cons outcome outcomes =>
      simp only [List.map_cons, List.cons.injEq] at eq
      obtain ⟨head_eq, tail_eq⟩ := eq
      obtain ⟨outcomes_eq, problems_eq, kept_eq⟩ := ih tail_eq fun m hm => each m (by simp [hm])
      have head := each m (by simp)
      rw [← head_eq] at head
      obtain ⟨p, a⟩ := m
      cases head
      simp [outcomes_eq, problems_eq, kept_eq]

/-- One step keeps to the account. -/
theorem Yields.step {asked : List Text} {p q : Process} {a : Account} {s t : Session}
    (h : x.Yields asked p a) (fits : x.Fits asked s) (step : Process.Step x.host.answer p s q t) :
    ∃ more b made, asked ⊆ more ∧ x.Yields more q b ∧ x.Fits more t ∧ x.Advances a s made b t := by
  induction step generalizing a with
  | ask request next s =>
    obtain ⟨more, b, sub, rest, fits, advances⟩ := h.answer fits
    exact ⟨more, b, _, sub, rest, fits, advances⟩
  | @branch _ b' _ _ front back next _ ih =>
    cases h with
    | @all parallel _ _ _ c members eq each rest =>
      obtain ⟨front, others, rfl, rfl, others_eq⟩ := List.append_eq_map_iff.mp eq
      obtain ⟨⟨p, a⟩, back, rfl, rfl, rfl⟩ := List.map_eq_cons_iff.mp others_eq
      -- Only the account of the branch that takes the step changes.
      obtain ⟨more, a', made, sub, yields, fits, advances⟩ := ih (each (p, a) (by simp)) fits
      refine ⟨more, _, made, sub, .all parallel next (front ++ (b', a') :: back) (by simp) ?_ ?_, fits,
        .branch parallel advances⟩
      · intro m hm
        rcases List.mem_append.mp hm with hm | hm
        · exact (each m (by simp [hm])).mono sub
        · rcases List.mem_cons.mp hm with rfl | hm
          · exact yields
          · exact (each m (by simp [hm])).mono sub
      · simpa [advances.outcome] using rest.mono sub
  | join outcomes next s =>
    cases h with
    | all parallel _ members eq each rest =>
      rename_i b
      -- There is nothing left for the branches to note or to keep.
      obtain ⟨outcomes_eq, problems_eq, kept_eq⟩ := Yields.members_done eq each
      rw [outcomes_eq] at rest
      rw [problems_eq, kept_eq]
      exact ⟨asked, b, [], List.Subset.refl _, rest, fits, .refl b s⟩

/-- The start of a composition. -/
theorem fits_start : x.Fits [] (.start x.cache) where
  standing := fun _ _ h => h
  added := fun key v new found => by simp [Session.start, new] at found
  asked := by simp

/-- Every interleaving keeps to the account. -/
theorem Yields.steps {p q : Process} {a : Account} {s : Session} (h : x.Yields [] p a)
    (steps : Process.Steps x.host.answer p (.start x.cache) q s) :
    ∃ asked b made, x.Yields asked q b ∧ x.Fits asked s ∧
      x.Advances a (.start x.cache) made b s := by
  induction steps with
  | refl => exact ⟨[], a, [], h, fits_start, .refl a _⟩
  | tail _ step ih =>
    obtain ⟨asked, b, made, yields, fits, advances⟩ := ih
    obtain ⟨more, c, further, _, yields, fits, further_advances⟩ := yields.step fits step
    exact ⟨more, c, _, yields, fits, advances.trans further_advances⟩

/-! ### The end -/

variable (x)

/-- What the cache holds for a key in the end, when the texts of the sources
    `kept` were added. -/
def entryAtEnd (kept : List Text) (key : Scalar) : Option Value :=
  match x.cache.get? key, key with
  | some v, _ => some v
  | none, .text path => if path ∈ kept then (x.text? path).map .text else none
  | none, _ => none

/-- A composition that was to come to an account ended with the outcome, in
    the session. -/
structure Ended (a : Account) (outcome : Outcome) (s : Session) : Prop where
  /-- The outcome is that of the account. -/
  outcome : outcome = a.outcome
  /-- So are the problems. -/
  problems : x.SameProblems s.problems a.problems
  /-- The cache holds its initial entries and the texts that were to be kept. -/
  entries : ∀ key, s.cache.get? key = x.entryAtEnd a.kept key
  /-- The host was asked about new paths only. -/
  asks : ∀ path, .probe path ∈ s.journal ∨ .read path ∈ s.journal → x.IsNew path
  /-- A source was read only if the host has it. -/
  present : ∀ path, .read path ∈ s.journal → x.probed path = .ok true
  /-- With a cache, the entries added are the texts that were read. -/
  added : x.options.cache.isSome → ∀ path, x.IsNew path → ∀ v,
    s.cache.held? path = some v ↔
      .read path ∈ s.journal ∧ ∃ t, x.read path = .ok t ∧ v = .text t

variable {x}

theorem added_iff {asked : List Text} {s : Session} (fits : x.Fits asked s) {path : Text} :
    x.Added s path ↔ x.IsNew path ∧ ∃ t, x.text? path = some t ∧
      s.cache.held? path = some (.text t) := by
  constructor
  · rintro ⟨isNew, present⟩
    obtain ⟨v, found⟩ := Option.isSome_iff_exists.mp present
    obtain ⟨t, rfl, text⟩ := fits.text_of_held isNew found
    exact ⟨isNew, t, text, found⟩
  · rintro ⟨isNew, t, -, found⟩
    exact ⟨isNew, by simp [found]⟩

/-- A cache with the initial entries and the texts that were to be kept. -/
theorem Fits.get?_eq {asked : List Text} {s : Session} (fits : x.Fits asked s) {kept : List Text}
    (h : ∀ path, x.Added s path ↔ path ∈ kept) (key : Scalar) :
    s.cache.get? key = x.entryAtEnd kept key := by
  unfold entryAtEnd
  cases initial : x.cache.get? key with
  | some v => simpa using fits.standing key v initial
  | none =>
    cases found : s.cache.get? key with
    | some v =>
      obtain ⟨path, t, rfl, rfl, text, -⟩ := fits.added key v initial found
      have mem : path ∈ kept := (h path).mp ⟨initial, by simp [Cache.held?, found]⟩
      simp [mem, text]
    | none =>
      cases key with
      | text path =>
        have not_mem : path ∉ kept := fun mem => by
          obtain ⟨-, present⟩ := (h path).mpr mem
          simp [Cache.held?, found] at present
        simp [not_mem]
      | _ => rfl

/-- An interleaving that came to its end. -/
theorem Yields.ended {p : Process} {a : Account} (h : x.Yields [] p a) {outcome : Outcome}
    {s : Session} (steps : Process.Steps x.host.answer p (.start x.cache) (.done outcome) s) :
    x.Ended a outcome s := by
  obtain ⟨asked, b, made, yields, fits, advances⟩ := h.steps steps
  -- Only the outcome is left of the account.
  obtain rfl : b = .only outcome := by cases yields; rfl
  have made_eq : s.journal = made := advances.journal
  have not_at_start (path : Text) : ¬ x.Added (.start x.cache) path := by
    rintro ⟨isNew, present⟩
    unfold IsNew at isNew
    simp [Session.start, isNew] at present
  have added (path : Text) : x.Added s path ↔ path ∈ a.kept := by
    simpa [Account.only, not_at_start path] using advances.kept path
  refine ⟨advances.outcome, ?_, fits.get?_eq added, ?_, ?_, ?_⟩
  · simpa [Account.only, Session.problems, made_eq] using advances.problems
  · rw [made_eq]
    exact advances.asks
  · rw [made_eq]
    exact fun path mem => (advances.reads path mem).1
  · intro cached path isNew v
    constructor
    · intro found
      obtain ⟨q, t, key_eq, rfl, text, mem⟩ := fits.added (.text path) v isNew found
      obtain rfl : path = q := by simpa using key_eq
      obtain ⟨-, read⟩ := text?_eq_some.mp text
      exact ⟨mem, t, read, rfl⟩
    · rintro ⟨mem, t, read, rfl⟩
      obtain ⟨present, kept⟩ := advances.reads path (made_eq ▸ mem)
      have text : x.text? path = some t := text?_eq_some.mpr ⟨present, read⟩
      -- What was read was to be kept, and at the end nothing is left to be kept.
      have mem_kept := (kept cached (by simp [text])).resolve_right (not_at_start path)
      obtain ⟨-, u, text_u, found⟩ := (added_iff fits).mp ((added path).mpr mem_kept)
      rw [found, Option.some.inj (text_u.symm.trans text)]

end Setting

end MarkdownOutlets
