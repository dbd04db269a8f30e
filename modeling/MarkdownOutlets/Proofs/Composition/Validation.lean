import MarkdownOutlets.Proofs.Composition.CheckedInput
import MarkdownOutlets.Proofs.Process.Reporting

/-! # Checks come first

  A composition begins with a check of the document and of the options. Input
  that is refused has no effects, and input that is accepted leaves nothing to
  refuse.

  The main statement, `checks_first`, has three parts. A composition that is
  refused as malformed asked for nothing. One that goes on has the process that
  it would have without any checks, and ends with a text, or with one of the
  problems that the policies let end it. And what the provider and the functions
  of the caller raise on the way, whatever it is, is noted as a problem of a
  source or of a function, never as anything else.

  Two things are no part of this. A call that does not let the caller wait is
  turned away where a loop runs, by neither of the checks; and what is raised is
  noted in its own words, so that it must have some (`accepted_without_result`).
-/

namespace MarkdownOutlets

open Process

namespace Options

variable (o : Options)

/-- The problem may end a composition. -/
def MayEnd : Problem → Prop
  | .missingSlot .. | .cycle .. | .depth .. => o.onMissingSlot = .error
  | .source _ => o.onFileError = .throw
  | .callback .. => False

/-- The outcome is no value of the wrong kind, and no problem but one that may
    end a composition. -/
def EndsWell : Outcome → Prop
  | .ok content => content.bind Content.otherKind? = none
  | .error (.problem p) => o.MayEnd p
  | .error (.mismatch _) => False

/-- The process is careful, and ends well if `texts` says that there are only
    texts in the cache. -/
def Reports (texts : Prop) (due : Problem → Prop) (p : Process) : Prop :=
  Careful texts (fun outcome => texts → o.EndsWell outcome) due p

end Options

section engine

variable {o : Options} {texts : Prop} {due : Problem → Prop}

/-! ### Sources -/

theorem content_reports (settled : Settled due) {c : Content}
    (is_text : texts → c.otherKind? = none) : o.Reports texts due (.content c) :=
  .done settled is_text

theorem text_reports (settled : Settled due) (t : Text) : o.Reports texts due (.text t) :=
  content_reports settled fun _ => rfl

theorem sourceFailed_reports {fault : SourceFault} (is_due : due (.source fault)) :
    o.Reports texts due (Engine.sourceFailed (.ofOptions o) fault) := by
  apply Careful.report is_due
  by_cases throws : o.onFileError = .throw
  · rw [if_pos (by simp [Rules.ofOptions, throws])]
    exact .done settled_nothing fun _ => throws
  · rw [if_neg (by simp [Rules.ofOptions, throws])]
    exact .done settled_nothing fun _ => rfl

/-- Checked options use the cache as a mapping, or not at all. -/
theorem cache_of_rules (o : Options) :
    (Rules.ofOptions o).cache = .mapping ∨ (Rules.ofOptions o).cache = .none := by
  show (if o.cache.isSome = true then CacheUse.mapping else .none) = .mapping ∨
    (if o.cache.isSome = true then CacheUse.mapping else .none) = .none
  by_cases cached : o.cache.isSome = true
  · exact .inl (if_pos cached)
  · exact .inr (if_neg cached)

theorem keep_reports (path t : Text) :
    o.Reports texts nothing (Engine.keep (.ofOptions o) path t) := by
  unfold Engine.keep
  rcases cache_of_rules o with cache_eq | cache_eq
  · rw [cache_eq]
    exact .request (by simp) fun _ _ => text_reports (settled_remember path t) t
  · rw [cache_eq]
    exact text_reports settled_nothing t

theorem fetch_reports (path : Text) :
    o.Reports texts nothing (Engine.fetch (.ofOptions o) path) := by
  apply Careful.request (by simp)
  intro answer _
  match answer with
  | .error fault => exact sourceFailed_reports (.probe path fault)
  | .ok false => exact sourceFailed_reports (.absent path)
  | .ok true =>
    have present : Settled (Fails (.probe path) (.ok true)) := by
      intro problem fails
      cases fails
    apply Careful.idle present
    apply Careful.request (by simp)
    intro answer _
    match answer with
    | .error fault => exact sourceFailed_reports (.read path fault)
    | .ok t =>
      have is_read : Settled (Fails (.read path) (.ok t)) := by
        intro problem fails
        cases fails
      exact .idle is_read (keep_reports path t)

theorem load_reports (path : Text) :
    o.Reports texts nothing (Engine.load (.ofOptions o) path) := by
  unfold Engine.load
  rcases cache_of_rules o with cache_eq | cache_eq
  · rw [cache_eq]
    apply Careful.request (by simp)
    intro answer expected
    apply Careful.idle (settled_lookUp path answer)
    match answer with
    | none => exact fetch_reports path
    | some v =>
      apply Careful.note (by simp)
      cases v.isNull with
      | true => exact .done settled_nothing fun _ => rfl
      | false =>
        apply content_reports settled_nothing
        intro is_texts
        obtain ⟨t, rfl⟩ := expected is_texts v rfl
        rfl
  · rw [cache_eq]
    exact fetch_reports path

/-- A source that may not join the chain ends a composition only if slots must
    not be missing. -/
theorem refused_reports {t : Tracker} {source : Text} {problem : Problem}
    (refused : t.push source = .error problem) (inSlot : Bool) :
    o.Reports texts nothing (.note (.problem problem) <|
      if inSlot && (Rules.ofOptions o).onMissingSlot = .error then .fail (.problem problem)
      else .text (errorMarker problem.message)) := by
  have of_chain : ¬ problem.OfHost ∧ (o.onMissingSlot = .error → o.MayEnd problem) := by
    rcases Tracker.push_eq_error.mp refused with ⟨-, rfl⟩ | ⟨-, -, rfl⟩
    · exact ⟨by simp [Problem.OfHost, Problem.kind], id⟩
    · exact ⟨by simp [Problem.OfHost, Problem.kind], id⟩
  apply Careful.problem of_chain.1
  split
  · rename_i hard
    have strict : o.onMissingSlot = .error := of_decide_eq_true (Bool.and_eq_true_iff.mp hard).2
    exact .done settled_nothing fun _ => of_chain.2 strict
  · exact text_reports settled_nothing _

theorem withSource_reports (source : Text) (here : Position) (inSlot : Bool)
    {use : Content → Position → Process}
    (used : ∀ content : Content, (texts → content.otherKind? = none) → ∀ here,
      o.Reports texts nothing (use content here)) :
    o.Reports texts nothing (Engine.withSource (.ofOptions o) source here inSlot use) := by
  unfold Engine.withSource
  cases pushed : here.tracker.push source with
  | error problem => exact refused_reports pushed inSlot
  | ok tracker =>
    apply Careful.note (by simp)
    refine Careful.bind (Careful.bind (load_reports source) ?inside) ?left
    case inside =>
      intro outcome ends_well
      rcases outcome with fault | _ | content
      · exact .done settled_nothing ends_well
      · exact text_reports settled_nothing []
      · exact used content ends_well _
    case left =>
      intro outcome ends_well
      exact .note (by simp) (.done settled_nothing ends_well)

/-! ### Slots -/

theorem missing_reports (name : Text) (here : Position) :
    o.Reports texts nothing (Engine.missing (.ofOptions o) name here) := by
  apply Careful.problem (by simp [Problem.OfHost, Problem.kind])
  cases policy : (Rules.ofOptions o).onMissingSlot with
  | error => exact .done settled_nothing fun _ => policy
  | ignore => exact text_reports settled_nothing []
  | keep => exact .done settled_nothing fun _ => rfl

theorem callFailed_reports {fault : CallbackFault} {here : Position}
    (is_due : due (.callback fault here.document)) :
    o.Reports texts due (Engine.callFailed (.ofOptions o) fault here) := by
  apply Careful.report is_due
  split
  · exact text_reports settled_nothing _
  · exact text_reports settled_nothing []

theorem invoke_reports (c : Callback) (here : Position) :
    o.Reports texts nothing (Engine.invoke (.ofOptions o) c here) := by
  apply Careful.request (by simp)
  intro answer _
  match answer with
  | .ok (.text t) =>
    have is_text : Settled (Fails (.call c) (.ok (.text t))) := by
      intro problem fails
      cases fails
    exact text_reports is_text t
  | .ok (.other kindName) => exact callFailed_reports (.notText c kindName here.document)
  | .error reason => exact callFailed_reports (.call c reason here.document)

/-! ### Texts with outlets -/

/-- What became of the outlets of a name is one of the results. -/
theorem mem_of_resultOf {names : List Text} {results : List (Option Content)} {name : Text}
    {content : Content} (found : Engine.resultOf names results name = some content) :
    some content ∈ results := by
  unfold Engine.resultOf at found
  have among := Option.join_eq_some_iff.mp found
  obtain ⟨front, back, eq, -⟩ := List.lookup_eq_some_iff.mp among
  have mem : (name, some content) ∈ names.zip results := by simp [eq]
  exact (List.of_mem_zip mem).2

/-- Results that are texts fit in the place of outlets. -/
theorem splice_reports (template : Template) {results : List (Option Content)}
    (each : ∀ c ∈ results, texts → o.EndsWell (.ok c)) :
    o.Reports texts nothing
      (Engine.splice template (Engine.resultOf template.names results)) := by
  unfold Engine.splice
  cases found : template.outlets.reverse.findSome? fun outlet =>
      (Engine.resultOf template.names results outlet.name).bind Content.otherKind? with
  | none => exact text_reports settled_nothing _
  | some kindName =>
    apply Careful.done settled_nothing
    intro is_texts
    -- One of the results would be of another kind.
    obtain ⟨outlet, -, other⟩ := List.exists_of_findSome?_eq_some found
    obtain ⟨content, result, other⟩ := Option.bind_eq_some_iff.mp other
    have is_text : content.otherKind? = none := each _ (mem_of_resultOf result) is_texts
    rw [is_text] at other
    cases other

variable {slotOf : Text → Option Engine.SlotProcess}

theorem resolveOutlet_reports
    (slots : ∀ name process, slotOf name = some process → ∀ here,
      o.Reports texts nothing (process here)) (here : Position) (name : Text) :
    o.Reports texts nothing (Engine.resolveOutlet (.ofOptions o) slotOf here name) := by
  unfold Engine.resolveOutlet
  apply Careful.note (by simp)
  refine Careful.bind ?resolved ?closed
  case resolved =>
    cases found : slotOf name with
    | some process => exact slots name process found here
    | none => exact missing_reports name here
  case closed =>
    intro outcome ends_well
    exact .note (by simp) (.done settled_nothing ends_well)

theorem fill_reports
    (slots : ∀ name process, slotOf name = some process → ∀ here,
      o.Reports texts nothing (process here))
    {content : Content} (is_text : texts → content.otherKind? = none) (here : Position) :
    o.Reports texts nothing (Engine.fill (.ofOptions o) slotOf content here) := by
  cases content with
  | other kindName =>
    apply Careful.done settled_nothing
    intro is_texts
    exact absurd (is_text is_texts) (by simp [Content.otherKind?])
  | text t =>
    show o.Reports texts nothing (Engine.fillText (.ofOptions o) slotOf t here)
    unfold Engine.fillText
    by_cases no_outlet : (Template.ofText t).outlets = []
    · rw [if_pos no_outlet]
      exact text_reports settled_nothing t
    · rw [if_neg no_outlet]
      apply Careful.gather
      · intro p mem
        obtain ⟨name, -, rfl⟩ := List.mem_map.mp mem
        exact resolveOutlet_reports slots here name
      · intro results each
        exact splice_reports _ each

/-! ### Documents -/

variable {resolve : Resolver}

theorem compose_reports (body : Body) {values : List (Scalar × Slot)}
    (each : ∀ name value, values.lookup name = some value → ∀ here,
      o.Reports texts nothing (Engine.slot resolve o value here))
    (here : Position) (inSlot : Bool) :
    o.Reports texts nothing
      (Engine.compose resolve o body (Engine.slots resolve o values) here inSlot) := by
  have slots (name : Text) (process : Engine.SlotProcess)
      (found : (Engine.slots resolve o values).lookup (.text name) = some process)
      (here : Position) : o.Reports texts nothing (process here) := by
    rw [Engine.lookup_slots] at found
    obtain ⟨value, given, rfl⟩ := Option.map_eq_some_iff.mp found
    exact each _ value given here
  unfold Engine.compose
  cases body with
  | text t => exact fill_reports slots (fun _ => rfl) here
  | source path =>
    apply withSource_reports
    intro content is_text here
    exact fill_reports slots is_text here

theorem slot_reports (value : Slot) (here : Position) :
    o.Reports texts nothing (Engine.slot resolve o value here) := by
  induction value using Slot.induct generalizing here with
  | literal t =>
    unfold Engine.slot
    exact text_reports settled_nothing t
  | source path =>
    unfold Engine.slot
    apply withSource_reports
    intro content is_text _
    exact content_reports settled_nothing is_text
  | callback c =>
    unfold Engine.slot
    exact invoke_reports c here
  | document body values ih =>
    unfold Engine.slot
    exact compose_reports body ih here true

/-- The composition of a document reports what fails, and ends well. -/
theorem document_reports (d : Document) :
    o.Reports texts nothing (Engine.document resolve o d) := by
  unfold Engine.document
  apply compose_reports d.body
  intro _ value _ here
  exact slot_reports value here

/-- All its branches end well when there are only texts in the cache. -/
theorem document_ends (d : Document) : Ends True o.EndsWell (Engine.document resolve o d) := by
  have careful : o.Reports True nothing (Engine.document resolve o d) := document_reports d
  unfold Options.Reports at careful
  simp only [true_imp_iff] at careful
  exact careful.ends

end engine

/-! ### Input that is accepted -/

/-- What a composition does with input that was accepted as a document and
    options. -/
structure AfterChecks {σ : Type} (h : Host (StateM σ)) (node options : Value) (shared : Cache)
    (d : Document) (o : Options) : Prop where
  /-- Without any checks, the records that stand for the input have the same
      process and the same composition. -/
  unchecked : ∀ r, Unchecked.Extends r h.resolve → Unchecked.NeedsNoChecks h r node options d o
  /-- No branch ends but with a text, a marker that stays or a problem that may
      end a composition. -/
  branches : Ends True o.EndsWell (Engine.document h.resolve o d)
  /-- In whatever order the branches go on, the composition comes to an end like
      that. -/
  ends : ∀ host : σ, AlwaysEnds h.serve (fun outcome _ => o.EndsWell outcome)
    (Engine.document h.resolve o d) (.start (CacheChoice.initial o.cache shared), host)
  /-- All that callers see of a composition without a result is a failure of the
      class of such a problem. -/
  failure : ∀ host refusal aftermath host',
    (h.composeValues node options shared).run host = ((.error refusal, aftermath), host') →
      ∃ problem, refusal.failure = .ok problem.failure ∧
        problem.failure.cls = .composition problem.kind ∧ o.MayEnd problem
  /-- An answer that fails is noted next, as a problem of a source or of a
      function. -/
  reported : ∀ es e q, Branch (Engine.document h.resolve o d) (es ++ [e]) q →
    ∀ problem, Fails e.request e.answer problem →
      ∃ noted next, q = .ask (.note (.problem noted)) next ∧ Fails e.request e.answer noted ∧
        noted.kind = failureKind e.request
  /-- So is whatever is raised in some words in the place of an answer, also a failure
      of another class. -/
  raised : ∀ es e q, Branch (Engine.document h.resolve o d) (es ++ [e]) q →
    ∀ raised : Raised, raised.Instead e.request e.answer →
      ∃ noted next, q = .ask (.note (.problem noted)) next ∧ Fails e.request e.answer noted ∧
        noted.kind = failureKind e.request
  /-- Problems of sources and functions are noted at no other time. -/
  founded : ∀ es problem next,
    Branch (Engine.document h.resolve o d) es (.ask (.note (.problem problem)) next) →
      problem.OfHost → ∃ before e, es = before ++ [e] ∧ Fails e.request e.answer problem

section accepted

variable {σ : Type} {h : Host (StateM σ)} {node options : Value} {shared : Cache} {d : Document}
  {o : Options}

/-- A composition without a result ended with a fault. -/
theorem composeValues_fault (accepted : Host.checkInput node options = .ok (d, o))
    {host host' : σ} {refusal : Refusal} {aftermath : Aftermath}
    (refused : (h.composeValues node options shared).run host =
      ((.error refusal, aftermath), host')) :
    ∃ f, refusal = .fault f ∧
      (h.finish (Engine.document h.resolve o d)
        (.start (CacheChoice.initial o.cache shared)) host).1 = .error f := by
  have result_eq : ((h.composeValues node options shared).run host).1.1 =
      (Composition.ofRun
        (h.finish (Engine.document h.resolve o d)
          (.start (CacheChoice.initial o.cache shared)) host).1
        (h.finish (Engine.document h.resolve o d)
          (.start (CacheChoice.initial o.cache shared)) host).2.1).mapError .fault := by
    unfold Host.composeValues
    rw [accepted]
    rfl
  rw [refused] at result_eq
  cases ended : (h.finish (Engine.document h.resolve o d)
      (.start (CacheChoice.initial o.cache shared)) host).1 with
  | ok content =>
    rw [ended] at result_eq
    cases result_eq
  | error f =>
    rw [ended] at result_eq
    exact ⟨f, Except.error.inj result_eq, rfl⟩

/-- It ended with a problem that may end it. -/
theorem composeValues_failure (accepted : Host.checkInput node options = .ok (d, o))
    (textual : (CacheChoice.initial o.cache shared).IsTextual)
    {host host' : σ} {refusal : Refusal} {aftermath : Aftermath}
    (refused : (h.composeValues node options shared).run host =
      ((.error refusal, aftermath), host')) :
    ∃ problem, refusal.failure = .ok problem.failure ∧
      problem.failure.cls = .composition problem.kind ∧ o.MayEnd problem := by
  obtain ⟨f, rfl, ended⟩ := composeValues_fault accepted refused
  have ends_well : o.EndsWell (.error f) := by
    rw [← ended]
    exact (document_ends d).finish _ host fun _ => textual
  cases f with
  | problem p => exact ⟨p, rfl, Failure.cls_make .., ends_well⟩
  | mismatch m => exact absurd ends_well id

theorem afterChecks (accepted : Host.checkInput node options = .ok (d, o))
    (textual : (CacheChoice.initial o.cache shared).IsTextual) :
    AfterChecks h node options shared d o := by
  have careful : o.Reports False nothing (Engine.document h.resolve o d) := document_reports d
  constructor
  case unchecked => exact fun r same => Unchecked.needsNoChecks same accepted
  case branches => exact document_ends d
  case ends =>
    intro host
    exact (document_ends d).always _ host fun _ => textual
  case failure =>
    intro host refusal aftermath host' refused
    exact composeValues_failure accepted textual refused
  case reported =>
    intro es e q branch problem fails
    exact careful.reported (fun _ => False.elim) branch fails
  case raised =>
    intro es e q branch raised instead
    obtain ⟨problem, fails⟩ := instead.fails
    exact careful.reported (fun _ => False.elim) branch fails
  case founded =>
    intro es problem next branch of_host
    exact careful.founded (fun _ => False.elim) branch of_host

end accepted

/-! ### All input -/

/-- How a composition treats the input that a caller gives it. -/
structure ChecksFirst {σ : Type} (h : Host (StateM σ)) (node options : Value) (shared : Cache) :
    Prop where
  /-- Input that the checks refuse has no effects. -/
  refused : ∀ reason, Host.checkInput node options = .error reason →
    h.composeValues node options shared =
      pure (.error (.invalid reason), { shared, journal := [] })
  /-- A call that does not let the caller wait is the same composition, where no loop runs
      or the checks refuse the input. -/
  call : ∀ inLoop, inLoop = false ∨ (∃ reason, Host.checkInput node options = .error reason) →
    h.composeCall inLoop node options shared =
      (fun ended => (ended.1.mapError .refusal, ended.2)) <$> h.composeValues node options shared
  /-- Where a loop runs, input that the checks accept has no effects either. -/
  turnedAway : ∀ d o, Host.checkInput node options = .ok (d, o) →
    h.composeCall true node options shared = pure (.error .insideLoop, { shared, journal := [] })
  /-- When callers see a failure for malformed input, nothing was asked, and
      cache and host are as before. -/
  malformed : ∀ host refusal aftermath host' failure,
    (h.composeValues node options shared).run host = ((.error refusal, aftermath), host') →
      refusal.failure = .ok failure → failure.cls = .validation →
        aftermath.journal = [] ∧ aftermath.shared = shared ∧ host' = host
  /-- Input that the checks accept leaves no other failures than those of a
      composition. -/
  accepted : ∀ d o, Host.checkInput node options = .ok (d, o) →
    AfterChecks h node options shared d o

/-- The checks are complete, and come before anything else. -/
theorem checks_first {σ : Type} (h : Host (StateM σ)) (node options : Value) (shared : Cache)
    (textual : ∀ d o, Host.checkInput node options = .ok (d, o) →
      (CacheChoice.initial o.cache shared).IsTextual) :
    ChecksFirst h node options shared := by
  have refused (reason : Invalid) (unfit : Host.checkInput node options = .error reason) :
      h.composeValues node options shared =
        pure (.error (.invalid reason), { shared, journal := [] }) := by
    unfold Host.composeValues
    rw [unfit]
  constructor
  case refused => exact refused
  case call =>
    intro inLoop same
    unfold Host.composeCall
    cases checked : Host.checkInput node options with
    | error reason => cases inLoop <;> rfl
    | ok both =>
      rcases same with rfl | ⟨reason, unfit⟩
      · rfl
      · cases checked.symm.trans unfit
  case turnedAway =>
    intro d o checked
    unfold Host.composeCall
    rw [checked]
  case malformed =>
    intro host refusal aftermath host' failure run_eq failure_eq is_validation
    cases checked : Host.checkInput node options with
    | error reason =>
      rw [refused reason checked] at run_eq
      cases run_eq
      exact ⟨rfl, rfl, rfl⟩
    | ok both =>
      -- The failure would be one of a composition.
      obtain ⟨d, o⟩ := both
      obtain ⟨problem, problem_eq, cls_eq, -⟩ :=
        composeValues_failure checked (textual d o checked) run_eq
      obtain rfl := Except.ok.inj (problem_eq.symm.trans failure_eq)
      rw [cls_eq] at is_validation
      cases is_validation
  case accepted =>
    intro d o checked
    exact afterChecks checked (textual d o checked)

/-- A function and a provider that raise a failure for malformed input. -/
theorem checks_first_raised :
    let raised : Raised := .failure (.make .validation "no".toList [] none)
    let h : Host (StateM Unit) :=
      { resolve := fun path _ _ => path
        probe := fun _ => pure (.error (raised.fault "no".toList))
        read := fun _ => pure (.error (raised.fault "no".toList))
        call := fun _ => pure (.error "no".toList) }
    let node : Value :=
      .document (.text "<!-- outlet: a -->, <!-- outlet: b -->".toList) .null
        (.dict [(.text "a".toList, .callback (.callable ⟨0⟩)),
          (.text "b".toList, .source (.text "b.md".toList))])
    (∀ d o, Host.checkInput node .null = .ok (d, o) →
      (CacheChoice.initial o.cache []).IsTextual) ∧
    ChecksFirst h node .null [] ∧
    ((h.composeValues node .null []).run ()).1.1.toOption = some
      { text := ", ".toList
        errors := [⟨.callback, "Function execution failed: no".toList, none⟩,
          ⟨.source, "Failed to read file b.md: no".toList, some "b.md".toList⟩] } := by
  intro raised h node
  have textual (d : Document) (o : Options) (accepted : Host.checkInput node .null = .ok (d, o)) :
      (CacheChoice.initial o.cache []).IsTextual := by
    obtain ⟨_, _, accepted⟩ := ok_of_bind accepted
    obtain ⟨standard, standard_eq, accepted⟩ := ok_of_bind accepted
    obtain ⟨-, rfl⟩ := Prod.mk.inj (Except.ok.inj accepted)
    -- Standard options have no cache.
    obtain rfl := Except.ok.inj standard_eq
    intro path v found
    cases found
  exact ⟨textual, checks_first h node .null [] textual, by decide +kernel⟩

/-- A document with one slot, which is a function. -/
def calling : Value :=
  .document (.text "<!-- slot: x -->".toList) .null
    (.dict [(.text ['x'], .callback (.callable ⟨0⟩))])

/-- A host whose functions raise what cannot be put into words. -/
def speechless : Host (ExceptT Unit Id) where
  resolve path _ _ := path
  probe _ := pure (.ok false)
  read _ := pure (.ok [])
  call _ := throw ()

/-- Input that the checks accept may have no result and yet no failure of a
    composition. Where a loop runs, the call is turned away. And what a function raises
    without words is noted by nobody: it ends the composition as it is. -/
theorem accepted_without_result :
    (∃ d o, Host.checkInput calling .null = .ok (d, o)) ∧
    (speechless.composeCall true calling .null []).run =
      .ok (.error .insideLoop, { shared := [], journal := [] }) ∧
    (speechless.composeValues calling .null []).run = .error () := by
  refine ⟨⟨_, _, rfl⟩, rfl, ?_⟩
  have no_result : (speechless.composeValues calling .null []).run.isOk = false := by
    decide +kernel
  cases ended : (speechless.composeValues calling .null []).run with
  | error e => rfl
  | ok result =>
    rw [ended] at no_result
    cases no_result

end MarkdownOutlets
