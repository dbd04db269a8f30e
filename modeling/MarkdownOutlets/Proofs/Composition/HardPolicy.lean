import MarkdownOutlets.Composition.Compose
import MarkdownOutlets.Proofs.Process.Cut

/-! # Strict and soft policies

  Two policies say which problems end a composition. Under soft ones none does;
  something stands in for the content, and the composition goes on. Under
  strict ones a composition ends with the first problem that is hard for it.

  The main statement, `strict_cuts_soft`, says that nothing else depends on
  the policies: a strict composition is the soft one up to its first hard
  problem, request by request. What stands in for content makes no difference
  to what is asked later, since it is put in a text whose outlets are known
  already. Whatever sources and functions raise has a wording here, as the
  answers of a host say.
-/

namespace MarkdownOutlets

namespace Options

/-- The options with slots one after the other. -/
def sequential (o : Options) : Options := { o with parallel := false }

/-- The options under which no problem ends a composition, and markers of
    missing slots stay or are removed. -/
def soft (o : Options) (keeps : Bool) : Options :=
  { o with
    onMissingSlot := if keeps then .keep else .ignore
    onFileError := .warnEmpty
    parallel := false }

/-- The problem ends a composition, when so many outlets are open. Sources that
    may not join the chain do so within a slot only, and functions never. -/
def Hard (o : Options) (openOutlets : Nat) : Problem → Prop
  | .missingSlot .. => o.onMissingSlot = .error
  | .cycle .. => 0 < openOutlets ∧ o.onMissingSlot = .error
  | .depth .. => 0 < openOutlets ∧ o.onMissingSlot = .error
  | .source _ => o.onFileError = .throw
  | .callback .. => False

end Options

open Process

section engine

variable {o : Options} {keeps : Bool} {texts : Prop}

/-! ### Sources -/

/-- What comes out of a source in both compositions: the same, and no value of
    another kind if the cache only holds texts. -/
def Loaded (texts : Prop) (soft strict : Outcome) : Prop :=
  soft = strict ∧ ∃ c, soft = .ok c ∧ (texts → c.bind Content.otherKind? = none)

theorem sourceFailed_cut (count : Nat) (fault : SourceFault) :
    Cut o.Hard texts (Loaded texts) count count
      (Engine.sourceFailed (.ofOptions (o.soft keeps)) fault)
      (Engine.sourceFailed (.ofOptions o.sequential) fault) := by
  unfold Engine.sourceFailed
  by_cases throws : o.onFileError = .throw
  · refine .hardProblem _ throws ?_
    rw [if_pos (by simp [Rules.ofOptions, Options.sequential, throws])]
    exact .done
  · refine .problem throws ?_
    rw [if_neg (by simp [Rules.ofOptions, Options.soft]),
      if_neg (by simp [Rules.ofOptions, Options.sequential, throws])]
    exact .done ⟨rfl, none, rfl, fun _ => rfl⟩

theorem keep_cut (count : Nat) (path t : Text) :
    Cut o.Hard texts (Loaded texts) count count
      (Engine.keep (.ofOptions (o.soft keeps)) path t)
      (Engine.keep (.ofOptions o.sequential) path t) := by
  have ended : Cut o.Hard texts (Loaded texts) count count (.text t) (.text t) :=
    .done ⟨rfl, some (.text t), rfl, fun _ => rfl⟩
  have cache_eq : (Rules.ofOptions o.sequential).cache =
      (Rules.ofOptions (o.soft keeps)).cache := rfl
  unfold Engine.keep
  rw [cache_eq]
  simp only [Rules.ofOptions]
  by_cases cached : (o.soft keeps).cache.isSome
  · rw [if_pos cached]
    exact .ask (by simp) fun _ _ => ended
  · rw [if_neg cached]
    exact ended

theorem fetch_cut (count : Nat) (path : Text) :
    Cut o.Hard texts (Loaded texts) count count
      (Engine.fetch (.ofOptions (o.soft keeps)) path)
      (Engine.fetch (.ofOptions o.sequential) path) := by
  refine .ask (by simp) fun answer _ => ?_
  match answer with
  | .error fault => exact sourceFailed_cut count _
  | .ok false => exact sourceFailed_cut count _
  | .ok true =>
    refine .ask (by simp) fun answer _ => ?_
    match answer with
    | .error fault => exact sourceFailed_cut count _
    | .ok t => exact keep_cut count path t

theorem load_cut (count : Nat) (path : Text) :
    Cut o.Hard texts (Loaded texts) count count
      (Engine.load (.ofOptions (o.soft keeps)) path)
      (Engine.load (.ofOptions o.sequential) path) := by
  have cache_eq : (Rules.ofOptions o.sequential).cache =
      (Rules.ofOptions (o.soft keeps)).cache := rfl
  unfold Engine.load
  rw [cache_eq]
  by_cases cached : (o.soft keeps).cache.isSome
  · have mapping : (Rules.ofOptions (o.soft keeps)).cache = .mapping := by
      simp [Rules.ofOptions, cached]
    rw [mapping]
    refine .ask (by simp) fun answer expected => ?_
    match answer with
    | none => exact fetch_cut count path
    | some v =>
      refine .note (by simp) ?_
      cases v.isNull with
      | true => exact .done ⟨rfl, none, rfl, fun _ => rfl⟩
      | false =>
        refine .done ⟨rfl, some (.ofValue v), rfl, fun is_texts => ?_⟩
        obtain ⟨t, rfl⟩ := expected is_texts v rfl
        rfl
  · have unused : (Rules.ofOptions (o.soft keeps)).cache = .none := by
      simp [Rules.ofOptions, cached]
    rw [unused]
    exact fetch_cut count path

/-- A source that joins the chain, if it may, and is used. -/
theorem withSource_cut {count : Nat} {inSlot : Bool} (inSlot_iff : inSlot = true ↔ 0 < count)
    (source : Text) (here : Position) {use use' : Content → Position → Process}
    (used : ∀ content : Content, (texts → content.otherKind? = none) → ∀ here,
      Cut o.Hard texts (Similar texts) count count (use content here) (use' content here)) :
    Cut o.Hard texts (Similar texts) count count
      (Engine.withSource (.ofOptions (o.soft keeps)) source here inSlot use)
      (Engine.withSource (.ofOptions o.sequential) source here inSlot use') := by
  unfold Engine.withSource
  cases pushed : here.tracker.push source with
  | error problem =>
    -- A refused source is a problem of the chain, which is hard within slots only.
    have hard_iff : o.Hard count problem ↔ inSlot = true ∧ o.onMissingSlot = .error := by
      rw [inSlot_iff]
      rcases Tracker.push_eq_error.mp pushed with ⟨-, rfl⟩ | ⟨-, -, rfl⟩
      · exact Iff.rfl
      · exact Iff.rfl
    have soft_goes_on : (inSlot && (Rules.ofOptions (o.soft keeps)).onMissingSlot = .error) ≠ true := by
      cases keeps <;> simp [Rules.ofOptions, Options.soft]
    dsimp only
    rw [if_neg soft_goes_on]
    by_cases is_hard : inSlot = true ∧ o.onMissingSlot = .error
    · refine .hardProblem _ (hard_iff.mpr is_hard) ?_
      rw [if_pos (by simp [Rules.ofOptions, Options.sequential, is_hard])]
      exact .done
    · refine .problem (fun h => is_hard (hard_iff.mp h)) ?_
      have strict_goes_on :
          (inSlot && (Rules.ofOptions o.sequential).onMissingSlot = .error) ≠ true := by
        rw [Ne, Bool.and_eq_true, decide_eq_true_eq]
        exact is_hard
      rw [if_neg strict_goes_on]
      exact .done (.of_texts _ _)
  | ok tracker =>
    refine .note (by simp) (Cut.bind (E := Similar texts) (m := count) ?_ ?_ ?_)
    · refine (load_cut count source).bind (fun soft strict loaded => ?_) fun _ => .done
      obtain ⟨rfl, c, rfl, no_other⟩ := loaded
      match c with
      | none => exact .done (.of_texts _ _)
      | some content => exact used content no_other _
    · intro soft strict similar
      exact .note (by simp) (.done similar)
    · intro problem
      exact .note trivial .done

/-! ### Slots -/

/-- An outlet without a slot value. -/
theorem missing_cut (count : Nat) (name : Text) (here : Position) :
    Cut o.Hard texts (Similar texts) count count
      (Engine.missing (.ofOptions (o.soft keeps)) name here)
      (Engine.missing (.ofOptions o.sequential) name here) := by
  unfold Engine.missing
  -- Under any policy but `error` both go on, perhaps with another stand-in.
  cases policy : o.onMissingSlot with
  | error =>
    refine .hardProblem _ policy ?_
    simp only [Rules.ofOptions, Options.sequential, policy]
    exact .done
  | ignore =>
    refine .problem (by simp [Options.Hard, policy]) ?_
    simp only [Rules.ofOptions, Options.sequential, Options.soft, policy]
    cases keeps <;> exact .done (.ok ⟨rfl, fun _ => rfl⟩)
  | keep =>
    refine .problem (by simp [Options.Hard, policy]) ?_
    simp only [Rules.ofOptions, Options.sequential, Options.soft, policy]
    cases keeps <;> exact .done (.ok ⟨rfl, fun _ => rfl⟩)

/-- A function that is called. What stands in for its text may differ. -/
theorem invoke_cut (count : Nat) (c : Callback) (here : Position) :
    Cut o.Hard texts (Similar texts) count count
      (Engine.invoke (.ofOptions (o.soft keeps)) c here)
      (Engine.invoke (.ofOptions o.sequential) c here) := by
  have failed (fault : CallbackFault) : Cut o.Hard texts (Similar texts) count count
      (Engine.callFailed (.ofOptions (o.soft keeps)) fault here)
      (Engine.callFailed (.ofOptions o.sequential) fault here) := by
    -- The problem is never hard, so only the texts that stand in can differ.
    refine .problem id ?_
    split
    · split
      · exact .done (.of_texts _ _)
      · exact .done (.of_texts _ _)
    · split
      · exact .done (.of_texts _ _)
      · exact .done (.of_texts _ _)
  refine .ask (by simp) fun answer _ => ?_
  match answer with
  | .ok (.text t) => exact .done (.of_texts t t)
  | .ok (.other kindName) => exact failed _
  | .error reason => exact failed _

/-! ### Texts with outlets -/

/-- The results of the outlets of a name make no difference if none of the
    results does. -/
theorem resultOf_like {names : List Text} {cs cs' : List (Option Content)}
    (likes : List.Forall₂ (Like texts) cs cs') (name : Text) :
    Like texts (Engine.resultOf names cs name) (Engine.resultOf names cs' name) := by
  unfold Engine.resultOf
  induction likes generalizing names with
  | nil => exact ⟨by simp, by simp⟩
  | @cons c c' cs cs' like likes ih =>
    cases names with
    | nil => exact ⟨by simp, by simp⟩
    | cons first names =>
      simp only [List.zip_cons_cons, List.lookup_cons]
      cases name == first with
      | true => exact like
      | false => exact ih

/-- To put contents in the place of outlets makes no difference if none of the
    contents does. -/
theorem splice_cut (count : Nat) (template : Template) {given given' : Text → Option Content}
    (likes : ∀ name, Like texts (given name) (given' name)) :
    Cut o.Hard texts (Similar texts) count count (Engine.splice template given)
      (Engine.splice template given') := by
  -- Only contents of another kind decide how this ends, and they are the same.
  have kinds : (fun outlet : Occurrence => (given outlet.name).bind Content.otherKind?) =
      fun outlet => (given' outlet.name).bind Content.otherKind? :=
    funext fun outlet => (likes outlet.name).kind
  unfold Engine.splice
  rw [← kinds]
  cases found : template.outlets.reverse.findSome?
      fun outlet => (given outlet.name).bind Content.otherKind? with
  | none => exact .done (.of_texts _ _)
  | some kindName =>
    refine .done (.mismatch _ fun is_texts => ?_)
    obtain ⟨outlet, -, kind⟩ := List.exists_of_findSome?_eq_some found
    rw [(likes outlet.name).text is_texts] at kind
    exact absurd kind (by simp)

/-- The outlets of some content, when those of the slot values below are cut
    short. -/
theorem fill_cut {resolve : Resolver} {slots : List (Scalar × Slot)}
    (below : ∀ name value, slots.lookup name = some value → ∀ count, 0 < count → ∀ here,
      Cut o.Hard texts (Similar texts) count count
        (Engine.slot resolve (o.soft keeps) value here)
        (Engine.slot resolve o.sequential value here))
    (count : Nat) (content : Content) (no_other : texts → content.otherKind? = none)
    (here : Position) :
    Cut o.Hard texts (Similar texts) count count
      (Engine.fill (.ofOptions (o.soft keeps))
        (fun name => (slots.lookup (.text name)).map (Engine.slot resolve (o.soft keeps)))
        content here)
      (Engine.fill (.ofOptions o.sequential)
        (fun name => (slots.lookup (.text name)).map (Engine.slot resolve o.sequential))
        content here) := by
  have outlet (name : Text) : Cut o.Hard texts (Similar texts) count count
      (Engine.resolveOutlet (.ofOptions (o.soft keeps))
        (fun name => (slots.lookup (.text name)).map (Engine.slot resolve (o.soft keeps))) here name)
      (Engine.resolveOutlet (.ofOptions o.sequential)
        (fun name => (slots.lookup (.text name)).map (Engine.slot resolve o.sequential)) here name) := by
    refine .note (by simp) (Cut.bind (E := Similar texts) (m := count + 1) ?_ ?_ ?_)
    · dsimp only
      cases found : slots.lookup (.text name) with
      | some value => exact below _ value found (count + 1) (Nat.succ_pos count) here
      | none => exact missing_cut (count + 1) name here
    · intro soft strict similar
      exact .note (by simp) (.done similar)
    · intro problem
      exact .note trivial .done
  cases content with
  | other kindName =>
    refine .done (.mismatch _ fun is_texts => ?_)
    exact absurd (no_other is_texts) (by simp [Content.otherKind?])
  | text text =>
    simp only [Engine.fill, Engine.fillText]
    split
    · exact .done (.of_texts text text)
    · refine Cut.inTurn (fun name _ => outlet name) fun cs cs' likes => ?_
      exact splice_cut count _ (resultOf_like likes)

/-! ### Documents -/

theorem compose_cut (resolve : Resolver) (body : Body) {slots : List (Scalar × Slot)}
    (below : ∀ name value, slots.lookup name = some value → ∀ count, 0 < count → ∀ here,
      Cut o.Hard texts (Similar texts) count count
        (Engine.slot resolve (o.soft keeps) value here)
        (Engine.slot resolve o.sequential value here))
    {count : Nat} {inSlot : Bool} (inSlot_iff : inSlot = true ↔ 0 < count) (here : Position) :
    Cut o.Hard texts (Similar texts) count count
      (Engine.compose resolve (o.soft keeps) body (Engine.slots resolve (o.soft keeps) slots)
        here inSlot)
      (Engine.compose resolve o.sequential body (Engine.slots resolve o.sequential slots)
        here inSlot) := by
  simp only [Engine.compose, Engine.lookup_slots]
  cases body with
  | text t => exact fill_cut below count (.text t) (fun _ => rfl) here
  | source path =>
    exact withSource_cut inSlot_iff _ here fun content no_other here =>
      fill_cut below count content no_other here

theorem slot_cut (resolve : Resolver) (value : Slot) {count : Nat} (within : 0 < count)
    (here : Position) :
    Cut o.Hard texts (Similar texts) count count
      (Engine.slot resolve (o.soft keeps) value here)
      (Engine.slot resolve o.sequential value here) := by
  have inSlot_iff (count : Nat) (within : 0 < count) : true = true ↔ 0 < count :=
    ⟨fun _ => within, fun _ => rfl⟩
  induction value using Slot.induct generalizing count here with
  | literal t => exact .done (.of_texts t t)
  | source path =>
    simp only [Engine.slot]
    refine withSource_cut (inSlot_iff count within) _ here fun content no_other here => ?_
    exact .done (.ok ⟨rfl, no_other⟩)
  | callback c => exact invoke_cut count c here
  | document body slots ih =>
    exact compose_cut resolve body (fun name value found count within here =>
      ih name value found within here) (inSlot_iff count within) here

theorem document_cut (resolve : Resolver) (d : Document) :
    Cut o.Hard texts (Similar texts) 0 0 (Engine.document resolve (o.soft keeps) d)
      (Engine.document resolve o.sequential d) :=
  compose_cut resolve d.body (fun _ value _ _ within here => slot_cut resolve value within here)
    (by simp) _

end engine

/-! ### Strict and soft compositions -/

/-- The request is answered by the host. -/
def Request.isForHost : Request → Bool
  | .probe _ => true
  | .read _ => true
  | .call _ => true
  | _ => false

/-- What the host was asked. -/
def asked (journal : List Request) : List Request := journal.filter Request.isForHost

/-- How many outlets are open after some requests. -/
def openOutlets (journal : List Request) : Nat := journal.foldl openAfter 0

/-- Some problem that was noted ends a composition under the options. -/
def MeetsHard (o : Options) (journal : List Request) : Prop :=
  ∃ before problem after, journal = before ++ .note (.problem problem) :: after ∧
    o.Hard (openOutlets before) problem

/-- The outcome of a composition, with the session and the state of the host at
    its end. -/
def Host.composed {σ : Type} (h : Host (StateM σ)) (d : Document) (o : Options) (shared : Cache)
    (host : σ) : Outcome × Session × σ :=
  h.finish (Engine.document h.resolve o d) (.start (CacheChoice.initial o.cache shared)) host

section policies

variable {σ : Type} (h : Host (StateM σ)) (d : Document) (o : Options) (keeps : Bool)
  (shared : Cache) (host : σ)

/-- How a composition under the given policies compares with the one under soft
    policies, from the same cache and state of the host. -/
structure CutsSoft : Prop where
  /-- The soft one has a text. -/
  returns : (CacheChoice.initial o.cache shared).IsTextual →
    ∃ content, (h.composed d (o.soft keeps) shared host).1 = .ok content
  /-- If the soft one meets a hard problem, the strict one ends with the first
      of them as its fault. Its problems and what it asked the host are those
      of the soft one up to this problem. -/
  cut : MeetsHard o (h.composed d (o.soft keeps) shared host).2.1.journal →
    ∃ before problem after,
      (h.composed d (o.soft keeps) shared host).2.1.journal =
        before ++ .note (.problem problem) :: after ∧
      ¬ MeetsHard o before ∧ o.Hard (openOutlets before) problem ∧
      (h.composed d o.sequential shared host).1 = .error (.problem problem) ∧
      (h.composed d o.sequential shared host).2.1.problems = problemsOf before ++ [problem] ∧
      asked (h.composed d o.sequential shared host).2.1.journal = asked before
  /-- If not, both are the same but for what stands in for contents, and the
      strict one has a text as well. -/
  same : ¬ MeetsHard o (h.composed d (o.soft keeps) shared host).2.1.journal →
    (h.composed d o.sequential shared host).2 = (h.composed d (o.soft keeps) shared host).2 ∧
      ((CacheChoice.initial o.cache shared).IsTextual →
        ∃ content, (h.composed d o.sequential shared host).1 = .ok content)
  /-- No function that fails ends a composition. -/
  callback : ∀ fault document,
    (h.composed d o.sequential shared host).1 ≠ .error (.problem (.callback fault document))
  /-- Neither does a source that is nested too deep, other than within a
      slot. -/
  depth : ∀ chain limit path,
    (h.composed d o.sequential shared host).1 = .error (.problem (.depth chain limit path)) →
      ∃ before after,
        (h.composed d (o.soft keeps) shared host).2.1.journal =
          before ++ .note (.problem (.depth chain limit path)) :: after ∧ 0 < openOutlets before
  /-- It makes no difference to the requests whether markers stay. -/
  markers : ∀ keeps', (h.composed d (o.soft keeps') shared host).2 =
    (h.composed d (o.soft keeps) shared host).2

variable {h d o keeps shared host}

/-- To leave sources and outlets is no problem and asks the host nothing. -/
theorem problemsOf_leaving {leaving : List Request} (leaves : ∀ request ∈ leaving, Leaves request) :
    problemsOf leaving = [] ∧ asked leaving = [] := by
  induction leaving with
  | nil => exact ⟨rfl, rfl⟩
  | cons request leaving ih =>
    obtain ⟨problems, asked_eq⟩ := ih fun r mem => leaves r (by simp [mem])
    have first := leaves request (by simp)
    match request, first with
    | .note (.left ..), _ => exact ⟨problems, asked_eq⟩
    | .note (.closed _), _ => exact ⟨problems, asked_eq⟩

/-- A strict run that met a hard problem ended with the first one. -/
theorem cut_of_meets {texts : Prop} {soft strict : Outcome × Session × σ}
    (short : CutShort o.Hard (Similar texts) 0 [] soft strict)
    (meets : MeetsHard o soft.2.1.journal) :
    ∃ before problem after, soft.2.1.journal = before ++ .note (.problem problem) :: after ∧
      ¬ MeetsHard o before ∧ o.Hard (openOutlets before) problem ∧
      strict.1 = .error (.problem problem) ∧
      strict.2.1.problems = problemsOf before ++ [problem] ∧
      asked strict.2.1.journal = asked before := by
  cases short with
  | same made journal_eq easy ends =>
    rw [List.nil_append] at journal_eq
    exact absurd (journal_eq ▸ meets) easy
  | short before problem after leaving soft_journal easy is_hard strict_journal leaves =>
    rw [List.nil_append] at soft_journal strict_journal
    obtain ⟨no_problems, not_asked⟩ := problemsOf_leaving leaves
    refine ⟨before, problem, after, soft_journal, easy, is_hard, rfl, ?_, ?_⟩
    · have split : before ++ .note (.problem problem) :: leaving =
          before ++ ([.note (.problem problem)] ++ leaving) := rfl
      rw [Session.problems, strict_journal, split, problemsOf_append, problemsOf_append,
        no_problems, List.append_nil]
      rfl
    · have split : before ++ .note (.problem problem) :: leaving =
          before ++ ([.note (.problem problem)] ++ leaving) := rfl
      unfold asked at not_asked ⊢
      rw [strict_journal, split, List.filter_append, List.filter_append, not_asked,
        List.append_nil]
      exact List.append_nil _

/-- A strict run that met no hard problem is the soft one. -/
theorem same_of_not_meets {texts : Prop} {soft strict : Outcome × Session × σ}
    (short : CutShort o.Hard (Similar texts) 0 [] soft strict)
    (meets : ¬ MeetsHard o soft.2.1.journal) :
    strict.2 = soft.2 ∧ Similar texts soft.1 strict.1 := by
  cases short with
  | same made journal_eq easy ends => exact ⟨rfl, ends⟩
  | short before problem after leaving soft_journal easy is_hard strict_journal leaves =>
    exact absurd ⟨before, problem, after, soft_journal, is_hard⟩ meets

/-- A strict run that ended with a problem met it. -/
theorem hard_of_error {texts : Prop} {soft strict : Outcome × Session × σ}
    (short : CutShort o.Hard (Similar texts) 0 [] soft strict) {problem : Problem}
    (ended : strict.1 = .error (.problem problem)) :
    ∃ before after, soft.2.1.journal = before ++ .note (.problem problem) :: after ∧
      o.Hard (openOutlets before) problem := by
  by_cases meets : MeetsHard o soft.2.1.journal
  · obtain ⟨before, first, after, journal_eq, -, is_hard, outcome, -⟩ := cut_of_meets short meets
    rw [outcome] at ended
    obtain rfl := Fault.problem.inj (Except.error.inj ended)
    exact ⟨before, after, journal_eq, is_hard⟩
  · obtain ⟨-, similar⟩ := same_of_not_meets short meets
    rw [ended] at similar
    generalize soft.1 = outcome at similar
    cases similar

/-- Similar outcomes are texts if the cache only holds texts. -/
theorem ok_of_similar {texts : Prop} {soft strict : Outcome} (similar : Similar texts soft strict)
    (is_texts : texts) : (∃ c, soft = .ok c) ∧ ∃ c, strict = .ok c := by
  cases similar with
  | ok like => exact ⟨⟨_, rfl⟩, ⟨_, rfl⟩⟩
  | mismatch m not_texts => exact absurd is_texts not_texts

theorem composed_cutShort (h : Host (StateM σ)) (d : Document) (o : Options) (keeps : Bool)
    (shared : Cache) (host : σ) :
    CutShort o.Hard (Similar (CacheChoice.initial o.cache shared).IsTextual) 0 []
      (h.composed d (o.soft keeps) shared host) (h.composed d o.sequential shared host) :=
  (document_cut h.resolve d).finish (.start (CacheChoice.initial o.cache shared)) host id

/-- Under soft policies no problem is hard, and what becomes of markers makes no
    difference to the requests. -/
theorem soft_alike (h : Host (StateM σ)) (d : Document) (o : Options) (keeps keeps' : Bool)
    (shared : Cache) (host : σ) :
    (h.composed d (o.soft keeps') shared host).2 = (h.composed d (o.soft keeps) shared host).2 ∧
      Similar (CacheChoice.initial o.cache shared).IsTextual
        (h.composed d (o.soft keeps) shared host).1 (h.composed d (o.soft keeps') shared host).1 := by
  refine same_of_not_meets (composed_cutShort h d (o.soft keeps') keeps shared host) ?_
  -- No kind of problem is hard under policies that are soft.
  rintro ⟨before, problem, after, -, is_hard⟩
  cases problem <;> cases keeps' <;> simp [Options.Hard, Options.soft] at is_hard

end policies

/-- A composition is the one under soft policies, cut at its first hard
    problem. -/
theorem strict_cuts_soft {σ : Type} (h : Host (StateM σ)) (d : Document) (o : Options)
    (keeps : Bool) (shared : Cache) (host : σ) : CutsSoft h d o keeps shared host := by
  have short := composed_cutShort h d o keeps shared host
  -- The soft run is compared with the strict one, and with another soft one.
  constructor
  case returns =>
    intro textual
    exact (ok_of_similar (soft_alike h d o keeps keeps shared host).2 textual).1
  case cut => exact cut_of_meets short
  case same =>
    intro meets
    obtain ⟨session_eq, similar⟩ := same_of_not_meets short meets
    exact ⟨session_eq, fun textual => (ok_of_similar similar textual).2⟩
  case callback =>
    intro fault document ended
    obtain ⟨before, after, -, is_hard⟩ := hard_of_error short ended
    exact is_hard
  case depth =>
    intro chain limit path ended
    obtain ⟨before, after, journal_eq, is_hard⟩ := hard_of_error short ended
    exact ⟨before, after, journal_eq, is_hard.1⟩
  case markers => exact fun keeps' => (soft_alike h d o keeps keeps' shared host).1

end MarkdownOutlets
