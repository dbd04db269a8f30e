import MarkdownOutlets.Cli.Command
import MarkdownOutlets.Files.Tree
import MarkdownOutlets.Proofs.Composition.FileHosts
import MarkdownOutlets.Proofs.Composition.Substitution
import MarkdownOutlets.Proofs.Process.Quiet
import MarkdownOutlets.Proofs.Template.Splice

/-! # Outlets that are listed

  One command lists the names of the outlets in a template, another one composes
  a document from it. The first reads the text for its outlets, and that is all;
  the second obtains the text from a source, resolves the outlets of each name,
  side by side or not, and notes those without a slot value. The main statement,
  `listed_outlets_asked`, says that both mean the same names: those that are
  listed are the ones that are missed without slots, in the same order.
-/

namespace MarkdownOutlets

/-! ### Slot values that are texts -/

/-- All slot values are texts. -/
def Slots.AreTexts (slots : Slots) : Prop := ∀ entry ∈ slots, ∃ u, entry.2 = .literal u

/-- The names that have no slot value. -/
def Slots.lacking (slots : Slots) (names : List Text) : List Text :=
  names.filter fun name => (slots.lookup (.text name)).isNone

theorem Slots.AreTexts.lookup {slots : Slots} (texts : slots.AreTexts) {name : Scalar} {value : Slot}
    (found : slots.lookup name = some value) : ∃ u, value = .literal u := by
  induction slots with
  | nil => cases found
  | cons entry rest ih =>
    obtain ⟨key, first⟩ := entry
    rw [List.lookup_cons] at found
    by_cases same : name == key
    · simp only [same, Option.some.injEq] at found
      exact found ▸ texts (key, first) List.mem_cons_self
    · simp only [same] at found
      exact ih (fun entry mem => texts entry (List.mem_cons_of_mem _ mem)) found

/-- What is put in the place of the outlets of a name: its text, or nothing. Without a text
    the marker may stay. -/
def Slots.textOf (slots : Slots) (policy : OnMissingSlot) (name : Text) : Option Text :=
  match slots.lookup (.text name) with
  | some (.literal u) => some u
  | _ => if policy = .keep then none else some []

/-- What becomes of the outlets of a name. -/
def Slots.outcomeOf (slots : Slots) (policy : OnMissingSlot) (document : Option Text)
    (name : Text) : Outcome :=
  if slots.lookup (.text name) = none ∧ policy = .error then
    .error (.problem (.missingSlot name document))
  else .ok ((slots.textOf policy name).map .text)

/-- What is asked for the outlets of a name. -/
def Slots.requestsOf (slots : Slots) (document : Option Text) (name : Text) : List Request :=
  if slots.lookup (.text name) = none then
    [.note (.opened name), .note (.problem (.missingSlot name document)), .note (.closed name)]
  else [.note (.opened name), .note (.closed name)]

namespace Slots

variable {slots : Slots}

theorem lacking_cons_of_none {name : Text} (missing : slots.lookup (.text name) = none)
    (names : List Text) : slots.lacking (name :: names) = name :: slots.lacking names :=
  List.filter_cons_of_pos (by rw [missing]; rfl)

theorem lacking_cons_of_some {name : Text} {value : Slot}
    (found : slots.lookup (.text name) = some value) (names : List Text) :
    slots.lacking (name :: names) = slots.lacking names :=
  List.filter_cons_of_neg (by rw [found]; exact Bool.false_ne_true)

/-- A problem is noted for each name that has no slot value. -/
theorem problemsOf_requestsOf (slots : Slots) (document : Option Text) (names : List Text) :
    problemsOf (names.flatMap (slots.requestsOf document)) =
      (slots.lacking names).map (Problem.missingSlot · document) := by
  induction names with
  | nil => rfl
  | cons name names ih =>
    rw [List.flatMap_cons, problemsOf_append, ih]
    cases found : slots.lookup (.text name) with
    | none =>
      rw [requestsOf, if_pos found, lacking_cons_of_none found]
      rfl
    | some value =>
      rw [requestsOf, found, if_neg (Option.some_ne_none value), lacking_cons_of_some found]
      rfl

/-- Without a fault, the outcomes are what is put in the place of the outlets. -/
theorem settle_ok {policy : OnMissingSlot} {names : List Text}
    (lenient : policy ≠ .error ∨ slots.lacking names = []) (document : Option Text) :
    Process.settle (names.map (slots.outcomeOf policy document)) =
      .ok (names.map fun name => (slots.textOf policy name).map .text) := by
  induction names with
  | nil => rfl
  | cons name names ih =>
    have first : slots.outcomeOf policy document name =
        .ok ((slots.textOf policy name).map .text) := by
      refine if_neg ?_
      rintro ⟨missing, strict⟩
      rcases lenient with lenient | none_lacking
      · exact lenient strict
      · rw [lacking_cons_of_none missing] at none_lacking
        cases none_lacking
    have others : policy ≠ .error ∨ slots.lacking names = [] := by
      refine lenient.imp_right fun none_lacking => ?_
      rw [lacking, List.filter_eq_nil_iff] at none_lacking ⊢
      exact fun name' mem => none_lacking name' (List.mem_cons_of_mem name mem)
    rw [List.map_cons, List.map_cons, Process.settle_cons_eq_ok]
    exact ⟨_, _, first, ih others, rfl⟩

/-- The fault is that of the first name that has no slot value. -/
theorem settle_error {names : List Text} {first : Text} {rest : List Text}
    (lacks : slots.lacking names = first :: rest) (document : Option Text) :
    Process.settle (names.map (slots.outcomeOf .error document)) =
      .error (.problem (.missingSlot first document)) := by
  induction names with
  | nil => cases lacks
  | cons name names ih =>
    rw [List.map_cons, Process.settle_cons_eq_error]
    cases found : slots.lookup (.text name) with
    | none =>
      rw [lacking_cons_of_none found] at lacks
      obtain rfl : name = first := (List.cons.inj lacks).1
      exact .inl (if_pos ⟨found, rfl⟩)
    | some value =>
      rw [lacking_cons_of_some found] at lacks
      have given : ¬ (slots.lookup (.text name) = none ∧ OnMissingSlot.error = .error) := by
        rw [found]
        simp
      exact .inr ⟨_, if_neg given, ih lacks⟩

end Slots

/-! ### The outlets of a text -/

section engine

variable {σ : Type} {h : Host (StateM σ)} {o : Options} {slots : Slots}

/-- The process for the outlets of a name. -/
abbrev Host.processOf (h : Host (StateM σ)) (o : Options) (slots : Slots) (name : Text) :
    Option Engine.SlotProcess :=
  (slots.lookup (.text name)).map (Engine.slot h.resolve o)

/-- An outlet without a slot value is noted. -/
theorem missing_quiet (here : Position) {name : Text}
    (missing : slots.lookup (.text name) = none) :
    h.Quiet (Engine.missing (.ofOptions o) name here)
      (slots.outcomeOf o.onMissingSlot here.document name)
      [.note (.problem (.missingSlot name here.document))] := by
  unfold Slots.outcomeOf Slots.textOf Engine.missing
  rw [missing]
  cases policy : o.onMissingSlot <;> simp only [Rules.ofOptions, policy] <;> exact .note (.done _)

variable (texts : slots.AreTexts)
include texts

/-- To resolve the outlets of a name, nothing is asked. -/
theorem resolveOutlet_quiet (here : Position) (name : Text) :
    h.Quiet (Engine.resolveOutlet (.ofOptions o) (h.processOf o slots) here name)
      (slots.outcomeOf o.onMissingSlot here.document name)
      (slots.requestsOf here.document name) := by
  unfold Engine.resolveOutlet Host.processOf Slots.requestsOf
  cases found : slots.lookup (.text name) with
  | some value =>
    obtain ⟨u, rfl⟩ := texts.lookup found
    have outcome : slots.outcomeOf o.onMissingSlot here.document name = .ok (some (.text u)) := by
      simp [Slots.outcomeOf, Slots.textOf, found]
    have given : h.Quiet (Engine.slot h.resolve o (.literal u) here) (.ok (some (.text u))) [] :=
      .done _
    rw [outcome]
    exact .note (given.bind (.note (.done _)))
  | none => exact .note ((missing_quiet here found).bind (.note (.done _)))

/-- When no outlet ends the composition, the text is filled with what is given for its
    outlets. -/
theorem fillText_quiet (here : Position) {t : Text}
    (lenient : o.onMissingSlot ≠ .error ∨ slots.lacking (Template.ofText t).names = []) :
    h.Quiet (Engine.fillText (.ofOptions o) (h.processOf o slots) t here)
      (.ok (some (.text ((Template.ofText t).fill (slots.textOf o.onMissingSlot)))))
      ((Template.ofText t).names.flatMap (slots.requestsOf here.document)) := by
  unfold Engine.fillText
  by_cases no_outlet : (Template.ofText t).outlets = []
  · have no_name : (Template.ofText t).names = [] := by
      rw [Template.names, no_outlet]
      rfl
    rw [if_pos no_outlet, no_name]
    unfold Template.fill
    rw [no_outlet]
    exact .done _
  · rw [if_neg no_outlet]
    -- The branches of the outlets are quiet, and no outcome among theirs is a fault.
    have outlets (name : Text) := resolveOutlet_quiet (h := h) (o := o) texts here name
    have settled := Slots.settle_ok lenient here.document
    let results := (Template.ofText t).names.map fun name =>
      (slots.textOf o.onMissingSlot name).map Content.text
    have spliced : Engine.splice (Template.ofText t)
          (Engine.resultOf (Template.ofText t).names results) =
        .text ((Template.ofText t).fill (slots.textOf o.onMissingSlot)) :=
      splice_texts _ fun name mem => resultOf_map _ mem
    have finish : h.Quiet (Engine.splice (Template.ofText t)
          (Engine.resultOf (Template.ofText t).names results))
        (.ok (some (.text ((Template.ofText t).fill (slots.textOf o.onMissingSlot))))) [] := by
      rw [spliced]
      exact .done _
    rw [← List.append_nil (List.flatMap _ _)]
    exact .gather_ok o.parallel (fun name _ => outlets name) settled finish

/-- Otherwise the first outlet without a slot value ends it. -/
theorem fillText_fault (here : Position) {t first : Text} {rest : List Text}
    (strict : o.onMissingSlot = .error)
    (lacks : slots.lacking (Template.ofText t).names = first :: rest) :
    ∃ made, h.Quiet (Engine.fillText (.ofOptions o) (h.processOf o slots) t here)
      (.error (.problem (.missingSlot first here.document))) made := by
  have some_outlet : (Template.ofText t).outlets ≠ [] := by
    intro no_outlet
    rw [Template.names, no_outlet] at lacks
    cases lacks
  have settled := Slots.settle_error lacks here.document
  unfold Engine.fillText
  rw [if_neg some_outlet]
  rw [← strict] at settled
  exact Host.Quiet.gather_error o.parallel (fun name _ => resolveOutlet_quiet texts here name) settled

end engine

/-! ### Documents of a source -/

/-- The text is obtained for the source: it is in the cache, or else the host has it. -/
inductive Host.Supplies {σ : Type} (h : Host (StateM σ)) (cache : Cache) (source t : Text)
    (host : σ) : Prop
  /-- The cache holds the text. -/
  | cached (held : cache.held? source = some (.text t))
  /-- The host has a source with the text. -/
  | read (not_held : cache.held? source = none) (present : ((h.probe source).run host).1 = .ok true)
    (text : ((h.read source).run ((h.probe source).run host).2).1 = .ok t)

section supplied

variable {σ : Type} {h : Host (StateM σ)} {o : Options}

/-- The process ends with the outcome and notes the problems. -/
def Host.Ends (h : Host (StateM σ)) (p : Process) (s : Session) (host : σ) (outcome : Outcome)
    (problems : List Problem) : Prop :=
  (h.finish p s host).1 = outcome ∧
    problemsOf (h.finish p s host).2.1.journal = problemsOf s.journal ++ problems

theorem Host.Ends.quiet {p : Process} {outcome : Outcome} {made : List Request}
    (quiet : h.Quiet p outcome made) (s : Session) (host : σ) :
    h.Ends p s host outcome (problemsOf made) := by
  unfold Host.Ends
  rw [quiet s host, problemsOf_append]
  exact ⟨rfl, rfl⟩

/-- A request that is no problem. -/
theorem Host.Ends.ask {request : Request} {next : request.Answer → Process} {s : Session}
    {host : σ} {outcome : Outcome} {problems : List Problem} (harmless : problemsOf [request] = [])
    (rest : h.Ends (next (h.reply request s host).1) (h.reply request s host).2.1
      (h.reply request s host).2.2 outcome problems) :
    h.Ends (.ask request next) s host outcome problems := by
  unfold Host.Ends at rest ⊢
  rw [Host.reply_journal, problemsOf_append, harmless, List.append_nil] at rest
  rw [Host.finish_ask]
  exact rest

theorem Host.Ends.bind {p : Process} {k : Outcome → Process} {s : Session} {host : σ}
    {outcome outcome' : Outcome} {problems more : List Problem}
    (first : h.Ends p s host outcome problems)
    (second : ∀ s' host', h.Ends (k outcome) s' host' outcome' more) :
    h.Ends (p.bind k) s host outcome' (problems ++ more) := by
  obtain ⟨ended, noted⟩ := first
  obtain ⟨ended', noted'⟩ := second (h.finish p s host).2.1 (h.finish p s host).2.2
  unfold Host.Ends
  rw [Host.finish_bind, ended]
  refine ⟨ended', ?_⟩
  rw [noted', noted, List.append_assoc]

theorem Host.Ends.done (outcome : Outcome) (s : Session) (host : σ) :
    h.Ends (.done outcome) s host outcome [] :=
  .quiet (.done outcome) s host

variable {s : Session} {host : σ} {source t : Text}

/-- A source that the host has is probed and read, and its text may be kept. -/
theorem fetch_ends (present : ((h.probe source).run host).1 = .ok true)
    (text : ((h.read source).run ((h.probe source).run host).2).1 = .ok t) :
    h.Ends (Engine.fetch (.ofOptions o) source) s host (.ok (some (.text t))) [] := by
  have kept (s' : Session) (host' : σ) :
      h.Ends (Engine.keep (.ofOptions o) source t) s' host' (.ok (some (.text t))) [] := by
    unfold Engine.keep
    split
    · exact .done _ _ _
    · exact .ask rfl (.done _ _ _)
    · rename_i unusable
      simp only [Rules.ofOptions] at unusable
      split at unusable <;> cases unusable
  have probed : (h.reply (.probe source) s host).1 = (.ok true : Except ProviderFault Bool) :=
    present
  unfold Engine.fetch
  refine .ask rfl ?_
  rw [probed]
  have read : (h.reply (.read source) (h.reply (.probe source) s host).2.1
      (h.reply (.probe source) s host).2.2).1 = (.ok t : Except ProviderFault Text) := text
  refine .ask rfl ?_
  rw [read]
  exact kept _ _

/-- The text that is supplied for a source is obtained. -/
theorem load_ends_supplied (supplied : h.Supplies s.cache source t host)
    (uncached : o.cache = none → s.cache = []) :
    h.Ends (Engine.load (.ofOptions o) source) s host (.ok (some (.text t))) [] := by
  unfold Engine.load
  cases choice : o.cache with
  | none =>
    have no_cache : (Rules.ofOptions o).cache = .none := by simp [Rules.ofOptions, choice]
    rw [no_cache]
    -- Nothing can be held where there is no cache.
    cases supplied with
    | cached held =>
      rw [uncached choice] at held
      cases held
    | read _ present text => exact fetch_ends present text
  | some given =>
    have mapping : (Rules.ofOptions o).cache = .mapping := by simp [Rules.ofOptions, choice]
    rw [mapping]
    refine .ask rfl ?_
    have found : (h.reply (.lookUp source) s host).1 = s.cache.held? source := rfl
    rw [found]
    cases supplied with
    | cached held =>
      rw [held]
      exact .ask rfl (.done _ _ _)
    | read not_held present text =>
      rw [not_held]
      exact fetch_ends present text

/-- The position within the outermost document, which is one of the source. -/
def withinSource (o : Options) (source : Text) : Position where
  tracker := { limit := .whole o.maxDepth, chain := [source] }
  document := some source

/-- A document of a source that is supplied ends with its text resolved. -/
theorem document_ends_supplied {path : Text} {slots : Slots} (room : 1 ≤ o.maxDepth)
    (supplied : h.Supplies s.cache (Engine.sourcePath h.resolve o path none) t host)
    (uncached : o.cache = none → s.cache = []) {outcome : Outcome} {made : List Request}
    (filled : h.Quiet (Engine.fillText (.ofOptions o) (h.processOf o slots) t
      (withinSource o (Engine.sourcePath h.resolve o path none))) outcome made) :
    h.Ends (Engine.document h.resolve o { body := .source path, slots }) s host outcome
      (problemsOf made) := by
  have pushed : (Tracker.empty (.whole o.maxDepth)).push (Engine.sourcePath h.resolve o path none) =
      .ok { limit := .whole o.maxDepth, chain := [Engine.sourcePath h.resolve o path none] } := by
    refine Tracker.push_eq_ok.mpr ⟨?_, List.not_mem_nil, rfl⟩
    rw [Tracker.empty, Limit.reached_whole, decide_eq_false_iff_not, Tracker.depth, List.length_nil]
    omega
  unfold Engine.document
  simp only [Engine.compose, Engine.lookup_slots, Engine.withSource, Position.root, pushed]
  -- Between entering and leaving the source, its text is obtained and resolved.
  refine .ask rfl ?_
  have supplied' : h.Supplies (s.log (.note (.entered (Engine.sourcePath h.resolve o path none) 1))).cache
      (Engine.sourcePath h.resolve o path none) t host := supplied
  have loaded := load_ends_supplied supplied' uncached
  have problems_eq : problemsOf made = [] ++ problemsOf made ++ [] := by
    rw [List.nil_append, List.append_nil]
  rw [problems_eq]
  refine .bind (.bind loaded fun s' host' => ?_) fun s' host' => .ask rfl (.done outcome _ _)
  exact .quiet filled s' host'

/-! ### What is composed -/

/-- The result of composing the document of a source with slots, under a policy for outlets
    without a slot value. -/
def Host.composition (h : Host (StateM σ)) (path : Text) (o : Options) (shared : Cache) (host : σ)
    (policy : OnMissingSlot) (slots : Slots) : Except Fault Composition :=
  ((h.composeDocument { body := .source path, slots } { o with onMissingSlot := policy }
    shared).run host).1.1

/-- The error about an outlet without a slot value in the text of a source. -/
def missingIn (source name : Text) : Record := (Problem.missingSlot name (some source)).record

variable {path : Text} {shared : Cache} (room : 1 ≤ o.maxDepth)
  (supplied : h.Supplies (CacheChoice.initial o.cache shared)
    (Engine.sourcePath h.resolve o path none) t host)
include room supplied

/-- The composition ends as the outlets of the text do. -/
theorem composed_of_filled {policy : OnMissingSlot} {slots : Slots} {outcome : Outcome}
    {made : List Request}
    (filled : h.Quiet (Engine.fillText (.ofOptions { o with onMissingSlot := policy })
      (h.processOf { o with onMissingSlot := policy } slots) t
      (withinSource o (Engine.sourcePath h.resolve o path none))) outcome made) :
    h.composition path o shared host policy slots =
      outcome.map fun content =>
        { text := (content.bind Content.text?).getD []
          errors := (problemsOf made).map Problem.record } := by
  have uncached (none_wanted : o.cache = none) : CacheChoice.initial o.cache shared = [] := by
    rw [none_wanted]
    rfl
  obtain ⟨ended, noted⟩ := document_ends_supplied (o := { o with onMissingSlot := policy })
    (s := .start (CacheChoice.initial o.cache shared)) room supplied uncached filled
  show Composition.ofRun
    (h.finish (Engine.document h.resolve { o with onMissingSlot := policy } ⟨.source path, slots⟩)
      (.start (CacheChoice.initial o.cache shared)) host).1
    (h.finish (Engine.document h.resolve { o with onMissingSlot := policy } ⟨.source path, slots⟩)
      (.start (CacheChoice.initial o.cache shared)) host).2.1 = _
  unfold Composition.ofRun Session.problems
  rw [ended, noted]
  rfl

variable {policy : OnMissingSlot} {slots : Slots} (texts : slots.AreTexts)
include texts

/-- When no outlet ends the composition, there is an error for each one without a slot value. -/
theorem composed_ok (lenient : policy ≠ .error ∨ slots.lacking (Template.ofText t).names = []) :
    h.composition path o shared host policy slots = .ok
      { text := (Template.ofText t).fill (slots.textOf policy)
        errors := (slots.lacking (Template.ofText t).names).map
          (missingIn (Engine.sourcePath h.resolve o path none)) } := by
  have filled := fillText_quiet (h := h) (o := { o with onMissingSlot := policy })
    texts (withinSource o (Engine.sourcePath h.resolve o path none)) lenient
  rw [composed_of_filled room supplied filled, Slots.problemsOf_requestsOf, List.map_map]
  rfl

/-- Otherwise the first one ends it. -/
theorem composed_error {first : Text} {rest : List Text}
    (lacks : slots.lacking (Template.ofText t).names = first :: rest) :
    h.composition path o shared host .error slots =
      .error (.problem (.missingSlot first (some (Engine.sourcePath h.resolve o path none)))) := by
  obtain ⟨made, filled⟩ := fillText_fault (h := h) (o := { o with onMissingSlot := .error })
    texts (withinSource o (Engine.sourcePath h.resolve o path none)) rfl lacks
  rw [composed_of_filled room supplied filled]
  rfl

end supplied

/-! ### The two commands -/

/-- The names of outlets that are listed for a text. -/
def listed (t : Text) : List Text := (Template.ofText t).names

/-- The text of the template that the command to list outlets is given. -/
inductive Cli.IsTemplate {σ : Type} (answer : (r : FileRequest) → StateM σ r.Answer)
    (places : FilePath.Places) (a : Cli.OutletsArguments) (st : σ) (t : Text) : Prop
  /-- It is what stands on standard input. -/
  | input (named : a.template = ['-']) (text : ((answer .standardInput).run st).1 = t)
  /-- It is that of a file, whose path starts with no home directory that is not
      there. -/
  | file (named : a.template ≠ ['-']) (home : Config.homeFault? places a.template = none)
    (found : ((FileProgram.run answer
      (FileProgram.findFile (places.expand (.ofText a.template)))).run st).1 = .ok true)
    (text : ((FileProgram.run answer
      (FileProgram.readText (places.expand (.ofText a.template)))).run ((FileProgram.run answer
        (FileProgram.findFile (places.expand (.ofText a.template)))).run st).2).1 = .ok t)

/-- What is printed about outlets of the names, with so many occurrences. -/
def Cli.listing (json : Bool) (label : Option Text) (names : List Text) (occurrences : Nat) : Text :=
  if json then
    dataLines
      [("template", (label.map Value.text).getD .null), ("outlets", .list (names.map .text)),
       ("occurrences", .int occurrences)]
  else
    line ("Outlets found".toList ++ ((label.map fun path => " in ".toList ++ path).getD []) ++ [':'])
      ++ if names = [] then line "No outlets found".toList
        else names.flatMap fun name => line ("- ".toList ++ name)

/-- The same of a host whose answers are programs over files, run on a file system. -/
def Host.compositionOnFiles {σ : Type} (h : Host FileProgram)
    (answer : (r : FileRequest) → StateM σ r.Answer) (path : Text) (o : Options) (shared : Cache)
    (st : σ) (policy : OnMissingSlot) (slots : Slots) : Except Fault Composition :=
  ((FileProgram.run answer (h.composeDocument { body := .source path, slots }
    { o with onMissingSlot := policy } shared)).run st).1.1

theorem Host.compositionOnFiles_eq {σ : Type} (h : Host FileProgram)
    (answer : (r : FileRequest) → StateM σ r.Answer) (path : Text) (o : Options) (shared : Cache)
    (st : σ) : h.compositionOnFiles answer path o shared st =
      (h.onFiles answer).composition path o shared st := by
  funext policy slots
  unfold Host.compositionOnFiles Host.composition
  rw [run_composeDocument]

/-- What is composed from the text of a source, by the policy for outlets without a slot value
    and the slots, asks for the outlets that are listed. -/
structure AsksForListed (t source : Text)
    (composed : OnMissingSlot → Slots → Except Fault Composition) : Prop where
  /-- Without slots the text is kept, with an error for each name that is listed. -/
  keep : composed .keep [] = .ok { text := t, errors := (listed t).map (missingIn source) }
  /-- If missing slots are to be ignored, the outlets are removed from it. -/
  ignore : composed .ignore [] = .ok
    { text := Template.remainder t, errors := (listed t).map (missingIn source) }
  /-- If they are to be errors, the first name that is listed ends the composition. -/
  error : ∀ first rest, listed t = first :: rest →
    composed .error [] = .error (.problem (.missingSlot first (some source)))
  /-- A text without outlets needs no slots. -/
  nothing : listed t = [] → ∀ policy, composed policy [] = .ok { text := t, errors := [] }
  /-- With texts for slots there is an error for each name that is listed and not given. -/
  given : ∀ slots : Slots, slots.AreTexts → ∀ policy, policy ≠ .error →
    ∃ c, composed policy slots = .ok c ∧
      c.errors = (slots.lacking (listed t)).map (missingIn source) ∧
      (c.errors = [] ↔ ∀ name ∈ listed t, (slots.lookup (.text name)).isSome)
  /-- If missing slots are to be errors, the first name that is not given ends the
      composition. -/
  strict : ∀ slots : Slots, slots.AreTexts → ∀ first rest, slots.lacking (listed t) = first :: rest →
    composed .error slots = .error (.problem (.missingSlot first (some source)))
  /-- With a text for each name that is listed, there is no error. -/
  complete : ∀ slots : Slots, slots.AreTexts →
    (∀ name ∈ listed t, (slots.lookup (.text name)).isSome) → ∀ policy,
      ∃ c, composed policy slots = .ok c ∧ c.errors = []

/-- The outlets of a template that are listed are those that are asked for. -/
structure ListedAsked (t : Text) : Prop where
  /-- The command to list outlets prints their names. -/
  command : ∀ {σ : Type} (answer : (r : FileRequest) → StateM σ r.Answer) (places : FilePath.Places)
    (a : Cli.OutletsArguments) (st : σ), Cli.IsTemplate answer places a st t →
      ∃ label, ((FileProgram.run answer (Cli.outlets places a)).run st).1 = .ok
        { code := 0
          out := Cli.listing a.json label (listed t) (Template.ofText t).outlets.length }
  /-- Whatever the host and the options are, a composition of the text asks for them. -/
  asked : ∀ {σ : Type} (h : Host (StateM σ)) (path : Text) (o : Options) (shared : Cache) (host : σ),
    1 ≤ o.maxDepth →
    h.Supplies (CacheChoice.initial o.cache shared) (Engine.sourcePath h.resolve o path none) t host →
      AsksForListed t (Engine.sourcePath h.resolve o path none) (h.composition path o shared host)
  /-- So does a composition from files. -/
  files : ∀ {σ : Type} (answer : (r : FileRequest) → StateM σ r.Answer) (h : Host FileProgram)
    (path : Text) (o : Options) (shared : Cache) (st : σ), 1 ≤ o.maxDepth →
    (h.onFiles answer).Supplies (CacheChoice.initial o.cache shared)
        (Engine.sourcePath h.resolve o path none) t st →
      AsksForListed t (Engine.sourcePath h.resolve o path none)
        (h.compositionOnFiles answer path o shared st)

theorem Slots.lacking_eq_nil {slots : Slots} {names : List Text} :
    slots.lacking names = [] ↔ ∀ name ∈ names, (slots.lookup (.text name)).isSome := by
  rw [Slots.lacking, List.filter_eq_nil_iff]
  simp only [Option.isNone_iff_eq_none, ← Option.isSome_iff_ne_none]

theorem Slots.lacking_nil (names : List Text) : Slots.lacking [] names = names :=
  List.filter_eq_self.mpr fun _ _ => rfl

theorem fill_of_listed_nil {t : Text} (nothing : listed t = []) (given : Text → Option Text) :
    (Template.ofText t).fill given = t := by
  have no_name : (Template.ofText t).names = [] := nothing
  have same : (Template.ofText t).fill given = (Template.ofText t).fill fun _ => none := by
    refine fill_congr (Template.ofText t) fun name mem => ?_
    rw [no_name] at mem
    cases mem
  rw [same]
  exact Template.fill_none _

/-- A composition of the text asks for its outlets. -/
theorem asksForListed {σ : Type} {h : Host (StateM σ)} {path t : Text} {o : Options} {shared : Cache}
    {host : σ} (room : 1 ≤ o.maxDepth)
    (supplied : h.Supplies (CacheChoice.initial o.cache shared)
      (Engine.sourcePath h.resolve o path none) t host) :
    AsksForListed t (Engine.sourcePath h.resolve o path none) (h.composition path o shared host) := by
  have no_slots : Slots.AreTexts [] := fun _ mem => absurd mem List.not_mem_nil
  have lenient {slots : Slots} (texts : slots.AreTexts) {policy : OnMissingSlot}
      (not_error : policy ≠ .error) := composed_ok room supplied texts (.inl not_error)
  constructor
  case keep =>
    have composed := lenient no_slots (by decide : OnMissingSlot.keep ≠ .error)
    rw [Slots.lacking_nil] at composed
    rw [composed]
    have kept : (Template.ofText t).fill (Slots.textOf [] .keep) = t := Template.fill_none _
    rw [kept]
    rfl
  case ignore =>
    have composed := lenient no_slots (by decide : OnMissingSlot.ignore ≠ .error)
    rw [Slots.lacking_nil] at composed
    rw [composed]
    have removed : (Template.ofText t).fill (Slots.textOf [] .ignore) = Template.remainder t :=
      Template.fill_empty t
    rw [removed]
    rfl
  case error =>
    intro first rest names
    exact composed_error room supplied no_slots ((Slots.lacking_nil _).trans names)
  case nothing =>
    intro names policy
    have lacks : Slots.lacking [] (Template.ofText t).names = [] := (Slots.lacking_nil _).trans names
    rw [composed_ok room supplied no_slots (.inr lacks), lacks, fill_of_listed_nil names]
    rfl
  case given =>
    intro slots texts policy not_error
    refine ⟨_, lenient texts not_error, rfl, ?_⟩
    rw [List.map_eq_nil_iff]
    exact Slots.lacking_eq_nil
  case strict =>
    intro slots texts first rest lacks
    exact composed_error room supplied texts lacks
  case complete =>
    intro slots texts supplied_all policy
    have lacks : slots.lacking (Template.ofText t).names = [] := Slots.lacking_eq_nil.mpr supplied_all
    exact ⟨_, composed_ok room supplied texts (.inr lacks), by rw [lacks]; rfl⟩

/-- The command to list outlets prints the names in the template. -/
theorem outlets_command {σ : Type} {answer : (r : FileRequest) → StateM σ r.Answer}
    {places : FilePath.Places} {a : Cli.OutletsArguments} {st : σ} {t : Text}
    (template : Cli.IsTemplate answer places a st t) :
    ∃ label, ((FileProgram.run answer (Cli.outlets places a)).run st).1 =
      .ok (Cli.outletsReport a.json label t) := by
  unfold Cli.outlets
  cases template with
  | input named text =>
    rw [if_pos named, FileProgram.run_bind_apply, FileProgram.run_request_apply, text]
    exact ⟨none, rfl⟩
  | file named home found text =>
    rw [if_neg named, home, FileProgram.run_bind_apply, found, FileProgram.run_bind_apply, text]
    exact ⟨_, rfl⟩

/-- The names that are listed for a text are those of the outlets for which a composition of
    the text asks. -/
theorem listed_outlets_asked (t : Text) : ListedAsked t := by
  constructor
  case command =>
    intro σ answer places a st template
    obtain ⟨label, report⟩ := outlets_command template
    refine ⟨label, report.trans ?_⟩
    unfold Cli.outletsReport Cli.listing
    cases a.json <;> rfl
  case asked =>
    intro σ h path o shared host room supplied
    exact asksForListed room supplied
  case files =>
    intro σ answer h path o shared st room supplied
    rw [h.compositionOnFiles_eq]
    exact asksForListed room supplied

/-- A file with the text `<!--slot:b--><!--slot:a-->`. -/
def twoOutlets : FileTree where
  cwd := []
  entries := [(["t".toList], .file
    [0x3c, 0x21, 0x2d, 0x2d, 0x73, 0x6c, 0x6f, 0x74, 0x3a, 0x62, 0x2d, 0x2d, 0x3e,
     0x3c, 0x21, 0x2d, 0x2d, 0x73, 0x6c, 0x6f, 0x74, 0x3a, 0x61, 0x2d, 0x2d, 0x3e])]

theorem listed_outlets_asked_twoOutlets :
    let t := "<!--slot:b--><!--slot:a-->".toList
    let source : FileSource := { places := { cwd := .ofText ['/'], home := .ofText ['/'] } }
    let h := source.host fun _ => pure (.error [])
    listed t = [['b'], ['a']] ∧
    (∃ label, ((FileProgram.run (FileTree.answer [])
      (Cli.outlets source.places { template := "/t".toList })).run twoOutlets).1 =
        .ok { code := 0, out := Cli.listing false label [['b'], ['a']] 2 }) ∧
    AsksForListed t "/t".toList
      (h.compositionOnFiles (FileTree.answer []) "/t".toList {} [] twoOutlets) := by
  intro t source h
  have asked := listed_outlets_asked t
  have names : listed t = [['b'], ['a']] := by decide
  refine ⟨names, ?_, ?_⟩
  · have template : Cli.IsTemplate (FileTree.answer []) source.places { template := "/t".toList }
        twoOutlets t := .file (by decide) rfl rfl rfl
    have printed := asked.command _ _ _ _ template
    rw [names] at printed
    exact printed
  · have source_eq : Engine.sourcePath h.resolve {} "/t".toList none = "/t".toList := rfl
    have supplied : (h.onFiles (FileTree.answer [])).Supplies [] "/t".toList t twoOutlets :=
      .read rfl rfl rfl
    rw [← source_eq] at supplied
    have composed := asked.files _ h "/t".toList {} [] twoOutlets (by decide) supplied
    rw [source_eq] at composed
    exact composed

end MarkdownOutlets
