import Mathlib.Tactic.Choose
import MarkdownOutlets.Composition.Compose

/-! # A document is the sum of its slots

  Under lenient policies, without a cache and against a host that always gives
  the same answers, what a process comes to does not depend on what was asked
  before. So each slot value of a document can be resolved by itself, and the
  document is put together from the results: the text of the document with
  the texts of the slot values in the place of its outlets, and the problems of
  the slot values in the order of the outlet names.

  Texts that are put in are never searched for outlets. The outlets of a
  document are those of the text that was obtained for it, and nothing else is
  asked of a slot value than what it comes to by itself.

  The main statement is `document_is_sum`.
-/

namespace MarkdownOutlets

/-! ### Runs that do not depend on the session -/

/-- What becomes of a process or of an outlet. -/
structure Share where
  /-- The text that takes its place, or `none` if its marker stays. -/
  text : Option Text
  /-- The problems that are noted. -/
  problems : List Problem
  deriving DecidableEq, Repr

theorem problemsOf_flatMap {ι : Type} (parts : ι → List Request) (names : List ι) :
    problemsOf (names.flatMap parts) = names.flatMap fun n => problemsOf (parts n) := by
  induction names with
  | nil => rfl
  | cons n names ih => rw [List.flatMap_cons, List.flatMap_cons, problemsOf_append, ih]

namespace Host

variable (h : Host Id)

/-- What a process comes to when nothing else was asked before. -/
def alone (p : Process) : Share :=
  let (outcome, s) := (h.run p).run (.start [])
  { text := (outcome.toOption.join).bind Content.text?, problems := s.problems }

/-- Whatever was asked before, the process makes the same requests and ends with
    the same outcome, and it leaves the cache alone. -/
def Comes (p : Process) (outcome : Outcome) (made : List Request) : Prop :=
  ∀ s : Session, (h.run p).run s = (outcome, { s with journal := s.journal ++ made })

/-- Whatever was asked before, the process ends with the text and notes the
    problems. -/
def Gives (p : Process) (t : Text) (problems : List Problem) : Prop :=
  ∃ made, h.Comes p (.ok (some (.text t))) made ∧ problemsOf made = problems

/-- Whatever was asked before, the process ends with the same text. -/
def HasText (p : Process) : Prop := ∃ t made, h.Comes p (.ok (some (.text t))) made

variable {h}

namespace Comes

variable {p : Process} {outcome outcome' : Outcome} {made more : List Request}

theorem done (outcome : Outcome) : h.Comes (.done outcome) outcome [] := by
  intro s
  unfold Host.run
  rw [Process.run, List.append_nil]
  rfl

/-- A request whose answer does not depend on the session. -/
theorem ask {request : Request} {next : request.Answer → Process} {a : request.Answer}
    (answer : ∀ s, (h.answer request).run s = (a, s.log request))
    (rest : h.Comes (next a) outcome made) :
    h.Comes (.ask request next) outcome (request :: made) := by
  intro s
  have first : (h.run (.ask request next)).run s =
      (h.run (next ((h.answer request).run s).1)).run ((h.answer request).run s).2 := by
    unfold Host.run
    rw [Process.run]
    rfl
  rw [first, answer s, rest (s.log request)]
  simp [Session.log]

theorem note {n : Note} (rest : h.Comes p outcome made) :
    h.Comes (.note n p) outcome (.note n :: made) :=
  .ask (fun _ => rfl) rest

theorem probe {path : Text} {next : Except ProviderFault Bool → Process}
    {a : Except ProviderFault Bool} (answer : h.probe path = a)
    (rest : h.Comes (next a) outcome made) :
    h.Comes (.ask (.probe path) next) outcome (.probe path :: made) :=
  .ask (fun s => congrArg (·, s.log (.probe path)) answer) rest

theorem read {path : Text} {next : Except ProviderFault Text → Process}
    {a : Except ProviderFault Text} (answer : h.read path = a)
    (rest : h.Comes (next a) outcome made) :
    h.Comes (.ask (.read path) next) outcome (.read path :: made) :=
  .ask (fun s => congrArg (·, s.log (.read path)) answer) rest

theorem call {c : Callback} {next : Except Text Content → Process} {a : Except Text Content}
    (answer : h.call c = a) (rest : h.Comes (next a) outcome made) :
    h.Comes (.ask (.call c) next) outcome (.call c :: made) :=
  .ask (fun s => congrArg (·, s.log (.call c)) answer) rest

theorem bind {k : Outcome → Process} (first : h.Comes p outcome made)
    (second : h.Comes (k outcome) outcome' more) : h.Comes (p.bind k) outcome' (made ++ more) := by
  intro s
  have both : (h.run (p.bind k)).run s =
      (h.run (k ((h.run p).run s).1)).run ((h.run p).run s).2 := by
    unfold Host.run
    rw [Process.run_bind]
    rfl
  rw [both, first s, second, List.append_assoc]

/-- Processes that run one after the other, none of which has a fault. -/
theorem inTurn {ι : Type} {ps : ι → Process} {cs : ι → Option Content} {parts : ι → List Request}
    {names : List ι} {k : List (Option Content) → Process}
    (each : ∀ n ∈ names, h.Comes (ps n) (.ok (cs n)) (parts n))
    (rest : h.Comes (k (names.map cs)) outcome more) :
    h.Comes (.inTurn (names.map ps) k) outcome (names.flatMap parts ++ more) := by
  induction names generalizing k with
  | nil => exact rest
  | cons n names ih =>
    have first := each n (by simp)
    have others := ih (k := fun xs => k (cs n :: xs)) (fun m mem => each m (by simp [mem])) rest
    rw [List.flatMap_cons, List.append_assoc]
    exact first.bind others

/-- What a process comes to by itself is what it comes to at any time. -/
theorem alone_eq {c : Option Content} (comes : h.Comes p (.ok c) made) :
    h.alone p = { text := c.bind Content.text?, problems := problemsOf made } := by
  unfold alone
  rw [comes (.start [])]
  rfl

end Comes

end Host

/-! ### Lenient options -/

/-- No problem ends a composition, slots are resolved one after the other, and
    no cache is used. -/
structure Options.IsLenient (o : Options) : Prop where
  /-- An outlet without a slot value ends nothing. -/
  missing : o.onMissingSlot ≠ .error
  /-- A source that cannot be read counts as empty. -/
  source : o.onFileError = .warnEmpty
  /-- Slots are resolved one after the other. -/
  sequential : o.parallel = false
  /-- There is no cache. -/
  uncached : o.cache = none

/-- The text `t` is obtained for a body, and its outlets are resolved at the
    position `inside`. -/
inductive Obtained (h : Host Id) (o : Options) :
    (body : Body) → (here : Position) → (t : Text) → (inside : Position) → Prop
  /-- The body is the text. -/
  | text (t : Text) (here : Position) : Obtained h o (.text t) here t here
  /-- The source may join the chain, and the host has a text for it. -/
  | source {path source t : Text} {here : Position} {tracker : Tracker}
      (means : Engine.sourcePath h.resolve o path here.document = source)
      (joins : here.tracker.push source = .ok tracker) (present : h.probe source = .ok true)
      (read : h.read source = .ok t) :
      Obtained h o (.source path) here t { tracker, document := some source }

/-- What becomes of the outlets of a name: what their slot value comes to by
    itself. Without a slot value the marker stays or is removed, and a problem
    is noted. -/
def Host.share (h : Host Id) (o : Options) (values : List (Scalar × Slot)) (here : Position)
    (name : Text) : Share :=
  match values.lookup (.text name) with
  | some value => h.alone (Engine.slot h.resolve o value here)
  | none =>
    { text := if o.onMissingSlot = .keep then none else some []
      problems := [.missingSlot name here.document] }

section engine

variable {h : Host Id} {o : Options} (lenient : o.IsLenient)

include lenient

/-! ### Sources -/

theorem sourceFailed_comes (fault : SourceFault) :
    h.Comes (Engine.sourceFailed (.ofOptions o) fault) (.ok none)
      [.note (.problem (.source fault))] := by
  have goes_on : (Rules.ofOptions o).endsWithoutSource = false := by
    simp [Rules.ofOptions, lenient.source]
  unfold Engine.sourceFailed
  rw [goes_on]
  exact .note (.done _)

theorem rules_cache : (Rules.ofOptions o).cache = .none := by
  simp [Rules.ofOptions, lenient.uncached]

theorem load_eq_fetch (path : Text) :
    Engine.load (.ofOptions o) path = Engine.fetch (.ofOptions o) path := by
  unfold Engine.load
  rw [rules_cache lenient]

/-- A source that the host has is probed and read. -/
theorem load_comes_text {path t : Text} (present : h.probe path = .ok true)
    (read : h.read path = .ok t) :
    h.Comes (Engine.load (.ofOptions o) path) (.ok (some (.text t))) [.probe path, .read path] := by
  have kept : Engine.keep (.ofOptions o) path t = .text t := by
    unfold Engine.keep
    rw [rules_cache lenient]
  rw [load_eq_fetch lenient]
  refine .probe present (.read read ?_)
  show h.Comes (Engine.keep (.ofOptions o) path t) _ _
  rw [kept]
  exact .done _

/-- A source has a text, or counts as empty. -/
theorem load_comes (path : Text) :
    ∃ (content : Option Text) (made : List Request),
      h.Comes (Engine.load (.ofOptions o) path) (.ok (content.map .text)) made := by
  have failed (fault : SourceFault) := sourceFailed_comes (h := h) lenient fault
  match probed : (h.probe path : Except ProviderFault Bool) with
  | .error fault =>
    rw [load_eq_fetch lenient]
    exact ⟨none, _, .probe probed (failed _)⟩
  | .ok false =>
    rw [load_eq_fetch lenient]
    exact ⟨none, _, .probe probed (failed _)⟩
  | .ok true =>
    match read : (h.read path : Except ProviderFault Text) with
    | .error fault =>
      rw [load_eq_fetch lenient]
      exact ⟨none, _, .probe probed (.read read (failed _))⟩
    | .ok t => exact ⟨some t, _, load_comes_text lenient probed read⟩

omit lenient in
/-- A source that joins the chain, and has a text, is entered, used and left. -/
theorem withSource_comes {source t : Text} {here : Position} {tracker : Tracker}
    (joins : here.tracker.push source = .ok tracker) {loading : List Request}
    (loaded : h.Comes (Engine.load (.ofOptions o) source) (.ok (some (.text t))) loading)
    (inSlot : Bool) {use : Content → Position → Process} {outcome : Outcome} {made : List Request}
    (used : h.Comes (use (.text t) { tracker, document := some source }) outcome made) :
    h.Comes (Engine.withSource (.ofOptions o) source here inSlot use) outcome
      (.note (.entered source tracker.depth) :: (loading ++ made ++
        [.note (.left source here.tracker.depth)])) := by
  unfold Engine.withSource
  rw [joins]
  exact .note ((loaded.bind used).bind (.note (.done outcome)))

/-- A source has a text if its text has one wherever it is used. Something
    stands in for a source that is refused or has no text. -/
theorem withSource_hasText (source : Text) (here : Position) (inSlot : Bool)
    {use : Content → Position → Process} (used : ∀ t inside, h.HasText (use (.text t) inside)) :
    h.HasText (Engine.withSource (.ofOptions o) source here inSlot use) := by
  cases pushed : here.tracker.push source with
  | error problem =>
    have goes_on : ¬ (inSlot && (Rules.ofOptions o).onMissingSlot = .error) = true := by
      simp [Rules.ofOptions, lenient.missing]
    unfold Engine.withSource
    rw [pushed]
    simp only [if_neg goes_on]
    exact ⟨_, _, .note (.done _)⟩
  | ok tracker =>
    obtain ⟨content, loading, loaded⟩ := load_comes (h := h) lenient source
    cases content with
    | none =>
      unfold Engine.withSource
      rw [pushed]
      have empty : h.Comes (.text []) (.ok (some (.text []))) [] := .done _
      exact ⟨[], _, .note (.bind (.bind loaded empty) (.note (.done _)))⟩
    | some t =>
      obtain ⟨u, made, comes⟩ := used t { tracker, document := some source }
      exact ⟨u, _, withSource_comes pushed loaded inSlot comes⟩

/-! ### Slots -/

/-- A function has a text, or something stands in for it. -/
theorem invoke_hasText (c : Callback) (here : Position) :
    h.HasText (Engine.invoke (.ofOptions o) c here) := by
  have failed (fault : CallbackFault) :
      h.Comes (Engine.callFailed (.ofOptions o) fault here) (.ok (some (.text [])))
        [.note (.problem (.callback fault here.document))] := by
    have no_marker : (Rules.ofOptions o).marksFailedCall = false := by
      simp [Rules.ofOptions, lenient.source]
    unfold Engine.callFailed
    rw [no_marker]
    exact .note (.done _)
  match called : (h.call c : Except Text Content) with
  | .ok (.text t) => exact ⟨t, _, .call called (.done _)⟩
  | .ok (.other kindName) => exact ⟨[], _, .call called (failed _)⟩
  | .error reason => exact ⟨[], _, .call called (failed _)⟩

/-- The process for the outlets of a name. -/
def Host.slotOf (h : Host Id) (o : Options) (values : List (Scalar × Slot)) (name : Text) :
    Option Engine.SlotProcess :=
  (values.lookup (.text name)).map (Engine.slot h.resolve o)

variable {values : List (Scalar × Slot)}

/-- Without a slot value, the outlets of a name come to their share. -/
theorem missing_comes (here : Position) {name : Text}
    (missing : values.lookup (.text name) = none) :
    h.Comes (Engine.missing (.ofOptions o) name here)
      (.ok ((h.share o values here name).text.map .text))
      [.note (.problem (.missingSlot name here.document))] := by
  unfold Engine.missing Host.share
  rw [missing]
  refine .note ?_
  cases policy : o.onMissingSlot with
  | error => exact absurd policy lenient.missing
  | ignore =>
    simp only [Rules.ofOptions, policy]
    exact .done _
  | keep =>
    simp only [Rules.ofOptions, policy]
    exact .done _

/-- The outlets of a name come to their share. -/
theorem resolveOutlet_comes (here : Position) (name : Text)
    (each : ∀ value, values.lookup (.text name) = some value →
      h.HasText (Engine.slot h.resolve o value here)) :
    ∃ made, h.Comes (Engine.resolveOutlet (.ofOptions o) (h.slotOf o values) here name)
        (.ok ((h.share o values here name).text.map .text)) made ∧
      problemsOf made = (h.share o values here name).problems := by
  unfold Engine.resolveOutlet Host.slotOf
  cases found : values.lookup (.text name) with
  | none =>
    refine ⟨_, .note ((missing_comes lenient here found).bind (.note (.done _))), ?_⟩
    simp only [Host.share, found]
    rfl
  | some value =>
    obtain ⟨u, made, comes⟩ := each value found
    have share_eq : h.share o values here name =
        { text := some u, problems := problemsOf made } := by
      simp only [Host.share, found]
      exact comes.alone_eq
    rw [share_eq]
    refine ⟨_, .note (comes.bind (.note (.done _))), ?_⟩
    -- To enter and to leave an outlet is no problem.
    have split : .note (.opened name) :: (made ++ [.note (.closed name)]) =
        [.note (.opened name)] ++ (made ++ [Request.note (.closed name)]) := rfl
    rw [split, problemsOf_append, problemsOf_append]
    exact List.append_nil _

/-! ### Texts -/

omit lenient in
/-- The result for a name is found among the results for all names. -/
theorem resultOf_map (cs : Text → Option Content) {names : List Text} {name : Text}
    (mem : name ∈ names) : Engine.resultOf names (names.map cs) name = cs name := by
  unfold Engine.resultOf
  induction names with
  | nil => simp at mem
  | cons first names ih =>
    simp only [List.map_cons, List.zip_cons_cons, List.lookup_cons]
    by_cases here : name = first
    · rw [here, beq_self_eq_true]
      rfl
    · have other : (name == first) = false := by simpa using here
      rw [other]
      exact ih ((List.mem_cons.mp mem).resolve_left here)

omit lenient in
/-- Only the names of a template matter to what it is filled with. -/
theorem fill_congr (template : Template) {given given' : Text → Option Text}
    (same : ∀ name ∈ template.names, given name = given' name) :
    template.fill given = template.fill given' := by
  have same_outlets : ∀ outlet ∈ template.outlets, given outlet.name = given' outlet.name := by
    intro outlet mem
    apply same
    rw [Template.names, mem_distinct]
    exact List.mem_map_of_mem mem
  unfold Template.fill
  generalize template.outlets = outlets at same_outlets ⊢
  induction outlets with
  | nil => rfl
  | cons outlet outlets ih =>
    have first := same_outlets outlet (by simp)
    have rest := ih fun other mem => same_outlets other (by simp [mem])
    rw [List.foldr_cons, List.foldr_cons, rest, first]

omit lenient in
/-- Texts that are put in the place of outlets fit. -/
theorem splice_texts (template : Template) {given : Text → Option Content}
    {texts : Text → Option Text}
    (same : ∀ name ∈ template.names, given name = (texts name).map .text) :
    Engine.splice template given = .text (template.fill texts) := by
  have no_other : (template.outlets.reverse.findSome? fun outlet =>
      (given outlet.name).bind Content.otherKind?) = none := by
    apply List.findSome?_eq_none_iff.mpr
    intro outlet mem
    have named : outlet.name ∈ template.names := by
      rw [Template.names, mem_distinct]
      exact List.mem_map_of_mem (List.mem_reverse.mp mem)
    rw [same _ named]
    cases texts outlet.name with
    | none => rfl
    | some t => rfl
  unfold Engine.splice
  rw [no_other]
  refine congrArg Process.text (fill_congr template fun name mem => ?_)
  rw [same name mem]
  cases texts name with
  | none => rfl
  | some t => rfl

/-- The text of a document is filled with the shares of its outlets. -/
theorem fillText_gives (here : Position) (t : Text)
    (each : ∀ name value, values.lookup name = some value →
      h.HasText (Engine.slot h.resolve o value here)) :
    h.Gives (Engine.fillText (.ofOptions o) (h.slotOf o values) t here)
      ((Template.ofText t).fill fun name => (h.share o values here name).text)
      ((Template.ofText t).names.flatMap fun name => (h.share o values here name).problems) := by
  unfold Engine.fillText
  by_cases no_outlet : (Template.ofText t).outlets = []
  · have no_name : (Template.ofText t).names = [] := by
      rw [Template.names, no_outlet]
      rfl
    rw [if_pos no_outlet, no_name]
    refine ⟨[], ?_, rfl⟩
    unfold Template.fill
    rw [no_outlet]
    exact .done _
  · rw [if_neg no_outlet]
    -- The outlets come to their shares one after the other.
    choose made comes problems using fun name =>
      resolveOutlet_comes lenient here name fun value => each (.text name) value
    have sequential : (Rules.ofOptions o).parallel = false := lenient.sequential
    let results := (Template.ofText t).names.map fun name =>
      (h.share o values here name).text.map Content.text
    have finish : Engine.splice (Template.ofText t)
          (Engine.resultOf (Template.ofText t).names results) =
        .text ((Template.ofText t).fill fun name => (h.share o values here name).text) :=
      splice_texts _ fun name mem => resultOf_map _ mem
    refine ⟨(Template.ofText t).names.flatMap made, ?_, ?_⟩
    · unfold Process.gather
      rw [sequential, ← List.append_nil (List.flatMap _ _)]
      refine .inTurn (fun name _ => comes name) ?_
      rw [finish]
      exact .done _
    · rw [problemsOf_flatMap]
      exact congrArg (List.flatMap · _) (funext problems)

/-! ### Documents -/

omit lenient in
theorem compose_text (t : Text) (here : Position) (inSlot : Bool) :
    Engine.compose h.resolve o (.text t) (Engine.slots h.resolve o values) here inSlot =
      Engine.fillText (.ofOptions o) (h.slotOf o values) t here := by
  simp only [Engine.compose, Engine.lookup_slots]
  rfl

omit lenient in
theorem compose_source (path : Text) (here : Position) (inSlot : Bool) :
    Engine.compose h.resolve o (.source path) (Engine.slots h.resolve o values) here inSlot =
      Engine.withSource (.ofOptions o) (Engine.sourcePath h.resolve o path here.document) here
        inSlot (Engine.fill (.ofOptions o) (h.slotOf o values)) := by
  simp only [Engine.compose, Engine.lookup_slots]
  rfl

/-- Every slot value has a text, wherever it is resolved. -/
theorem slot_hasText (value : Slot) (here : Position) :
    h.HasText (Engine.slot h.resolve o value here) := by
  induction value using Slot.induct generalizing here with
  | literal t =>
    unfold Engine.slot
    exact ⟨t, _, .done _⟩
  | source path =>
    unfold Engine.slot
    exact withSource_hasText lenient _ here true fun t inside => ⟨t, _, .done _⟩
  | callback c =>
    unfold Engine.slot
    exact invoke_hasText lenient c here
  | document body values ih =>
    have filled (t : Text) (inside : Position) :
        h.HasText (Engine.fillText (.ofOptions o) (h.slotOf o values) t inside) := by
      obtain ⟨made, comes, -⟩ := fillText_gives lenient inside t
        fun name value found => ih name value found inside
      exact ⟨_, _, comes⟩
    unfold Engine.slot
    cases body with
    | text t =>
      rw [compose_text]
      exact filled t here
    | source path =>
      rw [compose_source]
      exact withSource_hasText lenient _ here true filled

/-- Around the outlets of a text that was obtained nothing is a problem. -/
theorem compose_comes {body : Body} {here : Position} {t : Text} {inside : Position}
    (obtained : Obtained h o body here t inside) (inSlot : Bool) :
    ∃ before after, problemsOf before = [] ∧ problemsOf after = [] ∧
      ∀ values outcome made,
        h.Comes (Engine.fillText (.ofOptions o) (h.slotOf o values) t inside) outcome made →
        h.Comes (Engine.compose h.resolve o body (Engine.slots h.resolve o values) here inSlot)
          outcome (before ++ made ++ after) := by
  cases obtained with
  | text =>
    refine ⟨[], [], rfl, rfl, fun values outcome made comes => ?_⟩
    rw [compose_text, List.nil_append, List.append_nil]
    exact comes
  | @source path source t here tracker means joins present read =>
    refine ⟨[.note (.entered source tracker.depth), .probe source, .read source],
      [.note (.left source here.tracker.depth)], rfl, rfl, fun values outcome made comes => ?_⟩
    rw [compose_source, means]
    exact withSource_comes joins (load_comes_text lenient present read) inSlot comes

/-- What becomes of a document whose text was obtained. -/
theorem compose_gives {body : Body} {here : Position} {t : Text} {inside : Position}
    (obtained : Obtained h o body here t inside) (values : List (Scalar × Slot)) (inSlot : Bool) :
    h.Gives (Engine.compose h.resolve o body (Engine.slots h.resolve o values) here inSlot)
      ((Template.ofText t).fill fun name => (h.share o values inside name).text)
      ((Template.ofText t).names.flatMap fun name => (h.share o values inside name).problems) := by
  obtain ⟨before, after, before_quiet, after_quiet, comes_around⟩ :=
    compose_comes lenient obtained inSlot
  obtain ⟨made, comes, problems⟩ := fillText_gives lenient inside t
    fun _ value _ => slot_hasText (h := h) lenient value inside
  refine ⟨_, comes_around values _ made comes, ?_⟩
  rw [problemsOf_append, problemsOf_append, before_quiet, after_quiet, List.nil_append,
    List.append_nil, problems]

omit lenient in
/-- Slot values for other names than those of the outlets make no difference. -/
theorem fillText_congr {t : Text} {values' : List (Scalar × Slot)}
    (same : ∀ name ∈ (Template.ofText t).names,
      values.lookup (.text name) = values'.lookup (.text name)) (here : Position) :
    Engine.fillText (.ofOptions o) (h.slotOf o values) t here =
      Engine.fillText (.ofOptions o) (h.slotOf o values') t here := by
  have processes : (Template.ofText t).names.map
        (Engine.resolveOutlet (.ofOptions o) (h.slotOf o values) here) =
      (Template.ofText t).names.map
        (Engine.resolveOutlet (.ofOptions o) (h.slotOf o values') here) := by
    apply List.map_congr_left
    intro name mem
    unfold Engine.resolveOutlet Host.slotOf
    rw [same name mem]
  simp only [Engine.fillText, processes]

/-- Whether it stands in a slot makes no difference to a document. -/
theorem compose_inSlot (body : Body) (here : Position) (inSlot : Bool) :
    Engine.compose h.resolve o body (Engine.slots h.resolve o values) here inSlot =
      Engine.compose h.resolve o body (Engine.slots h.resolve o values) here true := by
  cases body with
  | text t => rw [compose_text, compose_text]
  | source path =>
    have goes_on (inSlot : Bool) :
        (inSlot && (Rules.ofOptions o).onMissingSlot = .error) = false := by
      simp [Rules.ofOptions, lenient.missing]
    rw [compose_source, compose_source]
    unfold Engine.withSource
    rw [goes_on, goes_on]

end engine

/-- The composition of a document that gives a text and problems. -/
theorem Host.Gives.composeDocument {h : Host Id} {o : Options} {d : Document} {t : Text}
    {problems : List Problem} (gives : h.Gives (Engine.document h.resolve o d) t problems)
    (shared : Cache) :
    (h.composeDocument d o shared).1 = .ok { text := t, errors := problems.map Problem.record } := by
  obtain ⟨made, comes, rfl⟩ := gives
  have run_eq := comes (.start (CacheChoice.initial o.cache shared))
  show Composition.ofRun
    ((h.run (Engine.document h.resolve o d)).run (.start (CacheChoice.initial o.cache shared))).1
    ((h.run (Engine.document h.resolve o d)).run
      (.start (CacheChoice.initial o.cache shared))).2 = _
  rw [run_eq]
  rfl

/-! ### The whole and its parts -/

/-- How a document compares with its slot values resolved by themselves. -/
structure DocumentIsSum (h : Host Id) (o : Options) : Prop where
  /-- Wherever a slot value is resolved, and whatever was asked before, it comes
      to the text and the problems that it comes to by itself. -/
  value : ∀ value here, ∃ t, (h.alone (Engine.slot h.resolve o value here)).text = some t ∧
    h.Gives (Engine.slot h.resolve o value here) t
      (h.alone (Engine.slot h.resolve o value here)).problems
  /-- A document whose text was obtained comes to this text with the shares of
      its outlets put in, and to their problems in the order of the names. -/
  document : ∀ body values here t inside inSlot, Obtained h o body here t inside →
    h.Gives (Engine.compose h.resolve o body (Engine.slots h.resolve o values) here inSlot)
      ((Template.ofText t).fill fun name => (h.share o values inside name).text)
      ((Template.ofText t).names.flatMap fun name => (h.share o values inside name).problems)
  /-- Slot values that no outlet of the text asks for make no difference to the
      run. -/
  unused : ∀ body values values' here t inside inSlot, Obtained h o body here t inside →
    (∀ name ∈ (Template.ofText t).names,
      values.lookup (.text name) = values'.lookup (.text name)) →
    ∀ s : Session,
      (h.run (Engine.compose h.resolve o body (Engine.slots h.resolve o values) here inSlot)).run s =
        (h.run (Engine.compose h.resolve o body (Engine.slots h.resolve o values') here inSlot)).run s
  /-- In a document that is a text, the share of a document that is given for an
      outlet is the text and the problems of a composition of its own. -/
  parts : ∀ values name body slots shared, values.lookup (.text name) = some (.document body slots) →
    ∃ text, (h.share o values (.root (.whole o.maxDepth)) name).text = some text ∧
      (h.composeDocument { body, slots } o shared).1 = .ok
        { text
          errors := (h.share o values (.root (.whole o.maxDepth)) name).problems.map Problem.record }
  /-- The composition of a document has the text and the errors of the outermost
      document. -/
  whole : ∀ (d : Document) t inside shared,
    Obtained h o d.body (.root (.whole o.maxDepth)) t inside →
      (h.composeDocument d o shared).1 = .ok
        { text := (Template.ofText t).fill fun name => (h.share o d.slots inside name).text
          errors := (Template.ofText t).names.flatMap fun name =>
            (h.share o d.slots inside name).problems.map Problem.record }

/-- A document is the sum of its slot values, and of nothing else. -/
theorem document_is_sum (h : Host Id) (o : Options) (lenient : o.IsLenient) : DocumentIsSum h o := by
  constructor
  case value =>
    intro value here
    obtain ⟨t, made, comes⟩ := slot_hasText (h := h) lenient value here
    rw [comes.alone_eq]
    exact ⟨t, rfl, made, comes, rfl⟩
  case document =>
    intro body values here t inside inSlot obtained
    exact compose_gives lenient obtained values inSlot
  case unused =>
    intro body values values' here t inside inSlot obtained same s
    obtain ⟨before, after, -, -, comes_around⟩ := compose_comes lenient obtained inSlot
    obtain ⟨made, comes, -⟩ := fillText_gives lenient inside t
      fun _ value _ => slot_hasText (h := h) lenient value inside
    have same_process := fillText_congr (h := h) (o := o) same inside
    rw [comes_around values _ made comes s, comes_around values' _ made (same_process ▸ comes) s]
  case parts =>
    intro values name body slots shared found
    obtain ⟨t, made, comes⟩ := slot_hasText (h := h) lenient (.document body slots)
      (.root (.whole o.maxDepth))
    have share_eq : h.share o values (.root (.whole o.maxDepth)) name =
        { text := some t, problems := problemsOf made } := by
      unfold Host.share
      rw [found]
      exact comes.alone_eq
    have outermost : h.Gives (Engine.document h.resolve o { body, slots }) t (problemsOf made) := by
      refine ⟨made, ?_, rfl⟩
      unfold Engine.document
      rw [compose_inSlot lenient]
      exact comes
    rw [share_eq]
    exact ⟨t, rfl, outermost.composeDocument shared⟩
  case whole =>
    intro d t inside shared obtained
    have gives := compose_gives (h := h) lenient obtained d.slots false
    rw [Host.Gives.composeDocument gives shared, List.map_flatMap]

/-- A slot value that looks like a marker is put in as it stands, although there
    is a slot value for it. -/
theorem document_is_sum_marker :
    let h : Host Id :=
      { resolve := fun path _ _ => path
        probe := fun _ => .ok false
        read := fun path => .error (.source (.missing path))
        call := fun _ => .ok (.text []) }
    let d : Document :=
      { body := .text "<!-- outlet: a -->, <!-- outlet: c -->".toList
        slots := [(.text "a".toList, .literal "<!-- outlet: b -->".toList),
          (.text "b".toList, .literal "B".toList)] }
    Options.IsLenient {} ∧ DocumentIsSum h {} ∧ (h.composeDocument d {} []).1.toOption = some
      { text := "<!-- outlet: b -->, <!-- outlet: c -->".toList
        errors := [⟨.missingSlot, "Missing slot: c".toList, none⟩] } := by
  intro h d
  have lenient : Options.IsLenient {} := ⟨by decide, rfl, rfl, rfl⟩
  exact ⟨lenient, document_is_sum h {} lenient, by decide +kernel⟩

end MarkdownOutlets
