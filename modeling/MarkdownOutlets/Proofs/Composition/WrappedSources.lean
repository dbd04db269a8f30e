import MarkdownOutlets.Proofs.Composition.Additions
import MarkdownOutlets.Proofs.Composition.EnteredOutlets
import MarkdownOutlets.Proofs.Composition.HardPolicy
import MarkdownOutlets.Proofs.Composition.ListedOutlets
import MarkdownOutlets.Proofs.Composition.LiveSlots

/-! # Sources as documents

  A slot value that is a source and a document of this source without slots of
  its own say nearly the same. The text of the source is obtained in the same
  way for both, but only that of the document is searched for outlets. If
  markers of missing slots stay, nothing comes of the search but a problem for
  each name.

  The main statement, `wrapped_sources`, says that there is no other difference:
  to wrap sources of a tree as documents leaves its text, or the fault, as it is,
  and so all that is asked of the host and of the cache. The chain, a source that
  is refused and one that cannot be read are the same for both.
-/

namespace MarkdownOutlets

/-! ### Wrapped sources -/

mutual

/-- The second slot value is the first one, some sources of which were wrapped as documents
    without slot values of their own. -/
inductive Slot.Wraps : Slot → Slot → Prop
  /-- A text stays. -/
  | literal (t : Text) : Slot.Wraps (.literal t) (.literal t)
  /-- A function stays. -/
  | callback (c : Callback) : Slot.Wraps (.callback c) (.callback c)
  /-- A source may stay. -/
  | kept (path : Text) : Slot.Wraps (.source path) (.source path)
  /-- A source may be wrapped. -/
  | wrapped (path : Text) : Slot.Wraps (.source path) (.document (.source path) [])
  /-- A document has the same body. -/
  | document (body : Body) {slots slots' : List (Scalar × Slot)} (below : Slots.Wrap slots slots') :
      Slot.Wraps (.document body slots) (.document body slots')

/-- The second slot values are the first ones, some sources of which were wrapped. -/
inductive Slots.Wrap : List (Scalar × Slot) → List (Scalar × Slot) → Prop
  /-- There are none. -/
  | nil : Slots.Wrap [] []
  /-- Each of them has the same key. -/
  | cons (key : Scalar) {value value' : Slot} {rest rest' : List (Scalar × Slot)}
      (first : Slot.Wraps value value') (others : Slots.Wrap rest rest') :
      Slots.Wrap ((key, value) :: rest) ((key, value') :: rest')

end

/-- The second document is the first one, some sources of which were wrapped. -/
structure Document.Wraps (d d' : Document) : Prop where
  /-- The body is the same. -/
  body : d'.body = d.body
  /-- Sources are wrapped among the slot values. -/
  slots : Slots.Wrap d.slots d'.slots

/-- A key has a slot value in both or in none. -/
theorem Slots.Wrap.lookup {slots slots' : List (Scalar × Slot)} (wrap : Slots.Wrap slots slots')
    (key : Scalar) :
    (slots.lookup key = none ∧ slots'.lookup key = none) ∨
      ∃ value value', slots.lookup key = some value ∧ slots'.lookup key = some value' ∧
        value.Wraps value' := by
  induction slots generalizing slots' with
  | nil =>
    cases wrap
    exact .inl ⟨rfl, rfl⟩
  | cons entry rest ih =>
    cases wrap with
    | cons first_key first others =>
      rw [List.lookup_cons, List.lookup_cons]
      cases key == first_key with
      | true => exact .inr ⟨_, _, rfl, rfl, first⟩
      | false => exact ih others

/-- The slot value is a source. -/
def Slot.isSource : Slot → Bool
  | .source _ => true
  | _ => false

/-- The slot value is a document. -/
def Slot.isDocument : Slot → Bool
  | .document .. => true
  | _ => false

namespace Setting

section additions

variable (x : Setting) (d d' : Document)

/-- There is a source at the place, which is a document in the second tree. -/
def isWrapped (names : List Text) : Bool :=
  (x.place d names).value.any Slot.isSource && (x.place d' names).value.any Slot.isDocument

/-- The text that is seen of a source, if any. -/
def textOf? (path : Text) : Option Text :=
  match x.view path with
  | .ok content => content.bind Content.text?
  | .error _ => none

/-- The path and the text of the source at a place, if it was wrapped and is about to be left,
    and its text was obtained. -/
def wrapped? (names : List Text) : Request → Option (Text × Text)
  | .note (.left ..) =>
    if x.isWrapped d d' names then
      ((x.place d names).source? x.host.resolve x.options).bind fun path =>
        (x.textOf? path).map fun t => (path, t)
    else none
  | _ => none

/-- The problems of a source that was wrapped, before it is left: no outlet of its text has a
    slot value. -/
def missed (names : List Text) (request : Request) : List Problem :=
  match x.wrapped? d d' names request with
  | some (path, t) => (Template.ofText t).names.map (Problem.missingSlot · (some path))
  | none => []

/-- The requests of a source that was wrapped, before it is left. -/
def searches (names : List Text) (request : Request) : List Request :=
  match x.wrapped? d d' names request with
  | some (path, t) => (Template.ofText t).names.flatMap (Slots.requestsOf [] (some path))
  | none => []

variable {x d d'}

theorem problemsOf_searches (names : List Text) (request : Request) :
    problemsOf (x.searches d d' names request) = x.missed d d' names request := by
  unfold searches missed
  cases x.wrapped? d d' names request with
  | none => rfl
  | some found =>
    have all (outlets : List Text) : Slots.lacking [] outlets = outlets :=
      List.filter_eq_self.mpr fun _ _ => rfl
    rw [Slots.problemsOf_requestsOf, all]

/-- Nothing is added where no source was wrapped. -/
theorem searches_of_not_isWrapped {names : List Text} (other : x.isWrapped d d' names = false)
    (source : Text) (depth : Nat) : x.searches d d' names (.note (.left source depth)) = [] := by
  unfold searches wrapped?
  rw [other]
  rfl

section wrapped

variable {names : List Text} {source : Text} (wrapped : x.isWrapped d d' names = true)
  (own : (x.place d names).source? x.host.resolve x.options = some source)

include wrapped own

/-- What is added to a source that was wrapped depends on its text. -/
theorem wrapped?_left (depth : Nat) :
    x.wrapped? d d' names (.note (.left source depth)) =
      (x.textOf? source).map fun t => (source, t) := by
  unfold wrapped?
  rw [wrapped, own]
  rfl

theorem searches_of_seen {t : Text} (seen : x.textOf? source = some t) (depth : Nat) :
    x.searches d d' names (.note (.left source depth)) =
      (Template.ofText t).names.flatMap (Slots.requestsOf [] (some source)) := by
  rw [searches, wrapped?_left wrapped own, seen]
  rfl

theorem searches_of_unseen (unseen : x.textOf? source = none) (depth : Nat) :
    x.searches d d' names (.note (.left source depth)) = [] := by
  rw [searches, wrapped?_left wrapped own, unseen]
  rfl

end wrapped

end additions

/-! ### Sources -/

section engine

variable {x : Setting} {d d' : Document} {σ : Type}
  {call : Callback → StateM σ (Except Text Content)} {names : List Text}

/-- The second process adds the searches of wrapped sources to the first one. Both end in the
    outlets in which they start. -/
abbrev AddsSearches (x : Setting) (call : Callback → StateM σ (Except Text Content))
    (d d' : Document) (names : List Text) (p q : Process) : Prop :=
  x.Adds call (x.searches d d') names names (fun _ => True) p q

/-- The request is one of those by which the text of a source is obtained. -/
inductive Seeks (path : Text) : Request → Prop
  /-- The cache is asked. -/
  | lookUp : Seeks path (.lookUp path)
  /-- The cache had an entry. -/
  | recalled : Seeks path (.note (.recalled path))
  /-- The host is asked whether there is a source. -/
  | probe : Seeks path (.probe path)
  /-- The host is asked for the text. -/
  | read : Seeks path (.read path)
  /-- The cache is given the text. -/
  | remember (t : Text) : Seeks path (.remember path t)
  /-- There is no text. -/
  | failed (fault : SourceFault) : Seeks path (.note (.problem (.source fault)))

section seeking

variable {P : Process → Prop} {path : Text}
  (done : P (.done (x.loadAccount path).outcome))
  (ask : ∀ (request : Request) (next : request.Answer → Process), Seeks path request →
    x.Honest request → (∀ answer, x.May request answer → P (next answer)) →
    P (.ask request next))

include done

theorem done_induct {outcome : Outcome} (seen : (x.loadAccount path).outcome = outcome) :
    P (.done outcome) :=
  seen ▸ done

include ask

theorem failed_induct {fault : SourceFault} (view : x.view path = .error fault) :
    P (Engine.sourceFailed (.ofOptions x.options) fault) := by
  have account := loadAccount_of_fault fault view
  refine ask _ _ (.failed fault) trivial fun _ _ => ?_
  by_cases strict : x.options.onFileError = .throw
  · rw [if_pos (by simp [Rules.ofOptions, strict])]
    exact done_induct done (by simp [account, strict])
  · rw [if_neg (by simp [Rules.ofOptions, strict])]
    exact done_induct done (by simp [account, strict])

theorem keep_induct {t : Text} (isNew : x.IsNew path) (text : x.text? path = some t) :
    P (Engine.keep (.ofOptions x.options) path t) := by
  have passed_on : P (.text t) := done_induct done (by rw [loadAccount_of_text isNew text])
  unfold Engine.keep
  simp only [Rules.ofOptions]
  by_cases cached : x.options.cache.isSome
  · simp only [cached, if_true]
    exact ask _ _ (.remember t) ⟨isNew, text⟩ fun _ _ => passed_on
  · simp only [cached]
    exact passed_on

theorem fetch_induct (isNew : x.IsNew path) : P (Engine.fetch (.ofOptions x.options) path) := by
  have recalled : x.cache.held? path = none := isNew
  refine ask _ _ .probe trivial fun answer may => ?_
  obtain rfl : answer = x.probed path := may
  -- One case for each pair of answers, as in `view`.
  cases probed : x.probed path with
  | error fault => exact failed_induct done ask (by simp [view, recalled, probed])
  | ok present =>
    cases present with
    | false => exact failed_induct done ask (by simp [view, recalled, probed])
    | true =>
      refine ask _ _ .read trivial fun answer may => ?_
      obtain rfl : answer = x.read path := may
      cases read : x.read path with
      | error fault => exact failed_induct done ask (by simp [view, recalled, probed, read])
      | ok t => exact keep_induct done ask isNew (text?_eq_some.mpr ⟨probed, read⟩)

/-- Induction over the process that loads a source: it seeks the text of the source, and ends with
    what is seen of it. -/
theorem load_induct : P (Engine.load (.ofOptions x.options) path) := by
  cases choice : x.options.cache with
  | none =>
    -- Without a cache every path is new.
    have isNew : x.IsNew path := by simp [IsNew, cache, choice, CacheChoice.initial]
    have uncached : (Rules.ofOptions x.options).cache = .none := by simp [Rules.ofOptions, choice]
    simp only [Engine.load, uncached]
    exact fetch_induct done ask isNew
  | some cache =>
    have cached : (Rules.ofOptions x.options).cache = .mapping := by simp [Rules.ofOptions, choice]
    simp only [Engine.load, cached]
    refine ask _ _ .lookUp trivial fun answer may => ?_
    cases (may : x.MayHold path answer) with
    | nothing isNew => exact fetch_induct done ask isNew
    | @initial v found =>
      refine ask _ _ .recalled trivial fun _ _ => ?_
      cases null : v.isNull with
      | true => exact done_induct done (by simp [loadAccount, view, found, null])
      | false => exact done_induct done (by simp [loadAccount, view, found, null])
    | added isNew text =>
      refine ask _ _ .recalled trivial fun _ _ => ?_
      exact done_induct done (by rw [loadAccount_of_text isNew text]; rfl)

end seeking

/-- A source is loaded in the same way in both. -/
theorem load_adds (path : Text) :
    x.Adds call (x.searches d d') names names (fun outcome => outcome = (x.loadAccount path).outcome)
      (Engine.load (.ofOptions x.options) path) (Engine.load (.ofOptions x.options) path) := by
  refine load_induct (P := fun p => x.Adds call (x.searches d d') names names _ p p) (.done rfl) ?_
  intro request next seeks honest rest
  cases seeks <;> exact .ask rfl honest rest

/-- What is seen of a source is a text if the cache only holds texts. -/
theorem exists_text_of_view (textual : x.cache.IsTextual) {path : Text} {content : Content}
    (seen : x.view path = .ok (some content)) : ∃ t, content = .text t ∧ x.textOf? path = some t := by
  unfold textOf?
  rw [seen]
  unfold view at seen
  cases found : x.cache.held? path with
  | some v =>
    obtain ⟨t, rfl⟩ := textual path v found
    rw [found] at seen
    obtain rfl : Content.text t = content := Option.some.inj (Except.ok.inj seen)
    exact ⟨t, rfl, rfl⟩
  | none =>
    rw [found] at seen
    cases probed : x.probed path with
    | error fault => simp [probed] at seen
    | ok present =>
      cases present with
      | false => simp [probed] at seen
      | true =>
        cases read : x.read path with
        | error fault => simp [probed, read] at seen
        | ok t =>
          obtain rfl : Content.text t = content := by simpa [probed, read] using seen
          exact ⟨t, rfl, rfl⟩

/-- There is no text to be searched if nothing is loaded. -/
theorem textOf?_eq_none {path : Text}
    (unseen : ∀ content, (x.loadAccount path).outcome ≠ .ok (some content)) :
    x.textOf? path = none := by
  unfold textOf?
  cases seen : x.view path with
  | error fault => rfl
  | ok content =>
    cases content with
    | none => rfl
    | some content => exact absurd (by simp [loadAccount, seen]) (unseen content)

variable (sequential : x.options.parallel = false) (keeps : x.options.onMissingSlot = .keep)
  (textual : x.cache.IsTextual)

/-- A source that was not wrapped is left. -/
theorem closing_adds {source : Text} {depth : Nat} {p q : Process}
    (other : x.isWrapped d d' names = false) (same : x.AddsSearches call d d' names p q) :
    x.AddsSearches call d d' names
      (p.bind fun outcome => .note (.left source depth) (.done outcome))
      (q.bind fun outcome => .note (.left source depth) (.done outcome)) :=
  same.bind fun _ _ => .note (searches_of_not_isWrapped other _ _) (.done trivial)

include keeps textual in
/-- A source joins the chain in both, or is refused in both. What follows its text is left to
    those who use it. -/
theorem withSource_adds {source : Text} {here : Position} {inSlot : Bool}
    {use use' : Content → Position → Process}
    (unused : x.textOf? source = none →
      ∀ depth, x.searches d d' names (.note (.left source depth)) = [])
    (used : ∀ tracker t, x.textOf? source = some t →
      x.AddsSearches call d d' names
        ((use (.text t) { tracker, document := some source }).bind
          fun outcome => .note (.left source here.tracker.depth) (.done outcome))
        ((use' (.text t) { tracker, document := some source }).bind
          fun outcome => .note (.left source here.tracker.depth) (.done outcome))) :
    x.AddsSearches call d d' names
      (Engine.withSource (.ofOptions x.options) source here inSlot use)
      (Engine.withSource (.ofOptions x.options) source here inSlot use') := by
  unfold Engine.withSource
  cases pushed : here.tracker.push source with
  | error problem =>
    -- A refused source would only end the composition if slots must not be missing.
    have goes_on : ¬ (inSlot && (Rules.ofOptions x.options).onMissingSlot = .error) = true := by
      simp [Rules.ofOptions, keeps]
    dsimp only
    rw [if_neg goes_on]
    exact .note rfl (.done trivial)
  | ok tracker =>
    refine .note rfl ?_
    rw [Process.bind_assoc, Process.bind_assoc]
    refine (load_adds source).bind fun outcome loaded => ?_
    -- Nothing is added unless the source has a text.
    have left {outcome : Outcome}
        (unseen : ∀ content, (x.loadAccount source).outcome ≠ .ok (some content)) :
        x.AddsSearches call d d' names
          (.note (.left source here.tracker.depth) (.done outcome))
          (.note (.left source here.tracker.depth) (.done outcome)) :=
      .note (unused (textOf?_eq_none unseen) _) (.done trivial)
    rcases outcome with fault | _ | content
    · exact left (by simp [← loaded])
    · exact left (by simp [← loaded])
    · obtain ⟨t, rfl, seen⟩ := exists_text_of_view textual (view_of_loadAccount loaded.symm)
      exact used tracker t seen

/-! ### Slot values -/

include keeps in
/-- The text of a source that was wrapped is searched before the source is left, and stays as it
    is. -/
theorem search_adds (wrapped : x.isWrapped d d' names = true) {source t : Text}
    (own : (x.place d names).source? x.host.resolve x.options = some source)
    (seen : x.textOf? source = some t) (tracker : Tracker) (depth : Nat) :
    x.AddsSearches call d d' names
      (.note (.left source depth) (.done (.ok (some (.text t)))))
      ((Engine.fillText (.ofOptions x.options) ((x.hostWith call).processOf x.options []) t
          { tracker, document := some source }).bind
        fun outcome => .note (.left source depth) (.done outcome)) := by
  have no_texts : Slots.AreTexts [] := fun _ mem => absurd mem List.not_mem_nil
  have lenient : x.options.onMissingSlot ≠ .error := by simp [keeps]
  have stays : (Template.ofText t).fill (Slots.textOf [] x.options.onMissingSlot) = t := by
    have nothing : Slots.textOf [] x.options.onMissingSlot = fun _ => none := by
      funext name
      simp [Slots.textOf, keeps]
    rw [nothing]
    exact (Template.ofText t).fill_none
  have quiet := fillText_quiet (h := x.hostWith call) (o := x.options) no_texts
    { tracker, document := some source } (t := t) (.inl lenient)
  rw [stays, ← searches_of_seen wrapped own seen depth] at quiet
  exact .addition (k := .done) quiet (.done trivial)

/-- An outlet without a slot value is missed in both. -/
theorem missing_adds (name : Text) (here : Position) :
    x.AddsSearches call d d' names
      (Engine.missing (.ofOptions x.options) name here)
      (Engine.missing (.ofOptions x.options) name here) := by
  refine .note rfl ?_
  cases (Rules.ofOptions x.options).onMissingSlot <;> exact .done trivial

/-- A function is called in both. -/
theorem invoke_adds (c : Callback) (here : Position) :
    x.AddsSearches call d d' names
      (Engine.invoke (.ofOptions x.options) c here)
      (Engine.invoke (.ofOptions x.options) c here) := by
  have failed (fault : CallbackFault) :
      x.AddsSearches call d d' names
        (Engine.callFailed (.ofOptions x.options) fault here)
        (Engine.callFailed (.ofOptions x.options) fault here) := by
    refine .note rfl ?_
    split
    · exact .done trivial
    · exact .done trivial
  refine .ask rfl trivial fun answer _ => ?_
  match answer with
  | .ok (.text t) => exact .done trivial
  | .ok (.other kindName) => exact failed _
  | .error reason => exact failed _

/-- An outlet is entered and left. -/
theorem outlet_adds {name : Text} {p q : Process}
    (inside : x.AddsSearches call d d' (names ++ [name]) p q) :
    x.AddsSearches call d d' names
      (.note (.opened name) (p.bind fun outcome => .note (.closed name) (.done outcome)))
      (.note (.opened name) (q.bind fun outcome => .note (.closed name) (.done outcome))) := by
  have closed : outletsAfter (names ++ [name]) (.note (.closed name)) = names :=
    List.dropLast_concat
  refine .note rfl (inside.bind fun outcome _ => .note rfl ?_)
  rw [closed]
  exact .done trivial

/-- A process is at a place of the tree, where there is the slot value: the innermost source around
    it is that of the place. -/
structure Stands (x : Setting) (d : Document) (names : List Text) (value : Slot)
    (here : Position) : Prop where
  /-- The slot value of the place. -/
  value : (x.place d names).value = some value
  /-- The innermost source. -/
  document : here.document = (x.place d names).around.getLast?

theorem place_concat (x : Setting) (d : Document) (names : List Text) (name : Text) :
    x.place d (names ++ [name]) = (x.place d names).down x.host.resolve x.options name := by
  unfold place Document.place
  rw [List.foldl_append]
  rfl

/-- The slot value of an outlet is that of its name. -/
theorem value_concat {body : Body} {slots : List (Scalar × Slot)}
    (value : (x.place d names).value = some (.document body slots)) (name : Text) :
    (x.place d (names ++ [name])).value = slots.lookup (.text name) := by
  rw [place_concat, Place.down, Place.slots, value]

/-- The slot values of a document add what is added where they are. -/
def SlotsAdd (x : Setting) (call : Callback → StateM σ (Except Text Content)) (d d' : Document)
    (slots slots' : List (Scalar × Slot)) : Prop :=
  ∀ name value value', slots.lookup name = some value → slots'.lookup name = some value' →
    value.Wraps value' → ∀ (names : List Text) (here : Position),
      x.Stands d names value here → (x.place d' names).value = some value' →
        x.AddsSearches call d d' names
          (Engine.slot x.host.resolve x.options value here)
          (Engine.slot x.host.resolve x.options value' here)

section document

variable {body : Body} {slots slots' : List (Scalar × Slot)}
  (value' : (x.place d' names).value = some (.document body slots'))
  (wrap : Slots.Wrap slots slots') (below : x.SlotsAdd call d d' slots slots')

include sequential value' wrap below

/-- The outlets of a text are resolved in turn, each in its place. -/
theorem fill_adds (value : (x.place d names).value = some (.document body slots)) (t : Text)
    {here : Position}
    (inner : here.document = ((x.place d names).inner x.host.resolve x.options).getLast?) :
    x.AddsSearches call d d' names
      (Engine.fill (.ofOptions x.options)
        (fun name => (slots.lookup (.text name)).map (Engine.slot x.host.resolve x.options))
        (.text t) here)
      (Engine.fill (.ofOptions x.options)
        (fun name => (slots'.lookup (.text name)).map (Engine.slot x.host.resolve x.options))
        (.text t) here) := by
  have outlet (name : Text) : x.AddsSearches call d d' names
      (Engine.resolveOutlet (.ofOptions x.options)
        (fun name => (slots.lookup (.text name)).map (Engine.slot x.host.resolve x.options)) here name)
      (Engine.resolveOutlet (.ofOptions x.options)
        (fun name => (slots'.lookup (.text name)).map (Engine.slot x.host.resolve x.options)) here
        name) := by
    unfold Engine.resolveOutlet
    rcases wrap.lookup (.text name) with ⟨found, found'⟩ | ⟨v, v', found, found', wraps⟩
    · simp only [found, found']
      exact outlet_adds (missing_adds name here)
    · simp only [found, found']
      have around : (x.place d (names ++ [name])).around =
          (x.place d names).inner x.host.resolve x.options := by
        rw [place_concat]
        rfl
      have stands : x.Stands d (names ++ [name]) v here :=
        ⟨(value_concat value name).trans found, around ▸ inner⟩
      have at_place := (value_concat value' name).trans found'
      exact outlet_adds (below _ v v' found found' wraps _ here stands at_place)
  simp only [Engine.fill, Engine.fillText]
  split
  · exact .done trivial
  · have in_turn : (Rules.ofOptions x.options).parallel = false := sequential
    rw [Process.gather, in_turn]
    refine .inTurn (fun name _ => outlet name) fun results => ?_
    obtain ⟨outcome, splice_eq⟩ := Engine.splice_done (Template.ofText t)
      (Engine.resultOf (Template.ofText t).names results)
    rw [splice_eq]
    exact .done trivial

include keeps textual

/-- A document is composed in both. -/
theorem compose_adds {here : Position} (stands : x.Stands d names (.document body slots) here)
    (inSlot : Bool) :
    x.AddsSearches call d d' names
      (Engine.compose x.host.resolve x.options body
        (Engine.slots x.host.resolve x.options slots) here inSlot)
      (Engine.compose x.host.resolve x.options body
        (Engine.slots x.host.resolve x.options slots') here inSlot) := by
  have value := stands.value
  simp only [Engine.compose, Engine.lookup_slots]
  cases body with
  | text t =>
    refine fill_adds sequential value' wrap below value t ?_
    rw [stands.document, Place.inner, Place.own, value, List.append_nil]
  | source path =>
    have other : x.isWrapped d d' names = false := by simp [isWrapped, value, Slot.isSource]
    refine withSource_adds keeps textual (fun _ => searches_of_not_isWrapped other _)
      fun tracker t _ => closing_adds other (fill_adds sequential value' wrap below value t ?_)
    rw [Place.inner, Place.own, value, List.getLast?_concat, stands.document]

end document

include keeps textual

/-- A slot value that is a source, or was one, is resolved in both. -/
theorem source_adds {path : Text} {value' : Slot} (wraps : (Slot.source path).Wraps value')
    {here : Position} (stands : x.Stands d names (.source path) here)
    (at_place : (x.place d' names).value = some value') :
    x.AddsSearches call d d' names
      (Engine.slot x.host.resolve x.options (.source path) here)
      (Engine.slot x.host.resolve x.options value' here) := by
  cases wraps with
  | kept =>
    have other : x.isWrapped d d' names = false := by
      simp [isWrapped, at_place, Slot.isDocument]
    rw [Engine.slot]
    exact withSource_adds keeps textual (fun _ => searches_of_not_isWrapped other _)
      fun tracker t _ => closing_adds other (.done trivial)
  | wrapped =>
    have wrapped : x.isWrapped d d' names = true := by
      simp [isWrapped, stands.value, at_place, Slot.isSource, Slot.isDocument]
    have own : (x.place d names).source? x.host.resolve x.options =
        some (Engine.sourcePath x.host.resolve x.options path here.document) := by
      rw [Place.source?, Place.own, stands.value, stands.document]
      rfl
    -- Both load the same source; then one is left at once, and the other one is searched first.
    simp only [Engine.slot, Engine.compose, Engine.lookup_slots]
    exact withSource_adds keeps textual (searches_of_unseen wrapped own)
      fun tracker t seen => search_adds keeps wrapped own seen tracker _

include sequential

/-- A slot value adds what is added where it is, and below. -/
theorem slot_adds (value value' : Slot) (wraps : value.Wraps value') (names : List Text)
    (here : Position) (stands : x.Stands d names value here)
    (at_place : (x.place d' names).value = some value') :
    x.AddsSearches call d d' names
      (Engine.slot x.host.resolve x.options value here)
      (Engine.slot x.host.resolve x.options value' here) := by
  induction value using Slot.induct generalizing value' names here with
  | literal t =>
    cases wraps
    exact .done trivial
  | source path => exact source_adds keeps textual wraps stands at_place
  | callback c =>
    cases wraps
    exact invoke_adds c here
  | document body slots ih =>
    cases wraps with
    | @document _ _ slots' wrap =>
      have below : x.SlotsAdd call d d' slots slots' :=
        fun name value value' found _ wraps names here => ih name value found value' wraps names here
      exact compose_adds sequential keeps textual at_place wrap below stands true

/-- So does a whole document. -/
theorem document_adds (wraps : d.Wraps d') :
    x.AddsSearches call d d' []
      (Engine.document x.host.resolve x.options d) (Engine.document x.host.resolve x.options d') := by
  have root : x.Stands d [] (.document d.body d.slots) (.root (.whole x.options.maxDepth)) :=
    ⟨rfl, rfl⟩
  have root' : (x.place d' []).value = some (.document d.body d'.slots) := by
    rw [← wraps.body]
    rfl
  have below : x.SlotsAdd call d d' d.slots d'.slots :=
    fun _ value value' _ _ wraps names here =>
      slot_adds sequential keeps textual value value' wraps names here
  unfold Engine.document
  rw [wraps.body]
  exact compose_adds sequential keeps textual root' wraps.slots below root false

end engine

end Setting

/-! ### Compositions -/

/-- A request is a note. -/
def Request.isNote : Request → Bool
  | .note _ => true
  | _ => false

namespace Setting

section compositions

variable (x : Setting) {σ : Type} (call : Callback → StateM σ (Except Text Content))
  (d d' : Document) (host : σ)

/-- The outcome of a composition, with the session and the state of the functions at its end. -/
def composedWith : Outcome × Session × σ :=
  (x.hostWith call).composed d x.options x.shared host

/-- How the composition of a document with wrapped sources compares with that of the document
    itself. -/
structure DiffersBySearches : Prop where
  /-- The text is the same, or the fault. -/
  outcome : (x.composedWith call d' host).1 = (x.composedWith call d host).1
  /-- The problems are those of the document, and before a wrapped source is left those of its
      text. -/
  problems : (x.composedWith call d' host).2.1.problems =
    (withOutlets [] (x.composedWith call d host).2.1.journal).flatMap fun entry =>
      x.missed d d' entry.1 entry.2 ++ problemsOf [entry.2]
  /-- All problems of other kinds are the same. -/
  others : (x.composedWith call d' host).2.1.problems.filter (·.kind ≠ .missingSlot) =
    (x.composedWith call d host).2.1.problems.filter (·.kind ≠ .missingSlot)
  /-- All that is asked of the host and of the cache is the same. -/
  requests : (x.composedWith call d' host).2.1.journal.filter (!·.isNote) =
    (x.composedWith call d host).2.1.journal.filter (!·.isNote)
  /-- The cache is the same in the end. -/
  cache : (x.composedWith call d' host).2.1.cache = (x.composedWith call d host).2.1.cache
  /-- So is the state of the functions. -/
  functions : (x.composedWith call d' host).2.2 = (x.composedWith call d host).2.2

variable {x call d d' host}

/-- To search a text is to take notes. -/
theorem isNote_of_mem_searches {names : List Text} {request added : Request}
    (mem : added ∈ x.searches d d' names request) : added.isNote = true := by
  unfold searches at mem
  cases found : x.wrapped? d d' names request with
  | none => simp [found] at mem
  | some source =>
    rw [found] at mem
    obtain ⟨name, -, mem⟩ := List.mem_flatMap.mp mem
    simp only [Slots.requestsOf, List.lookup_nil, if_true] at mem
    simp only [List.mem_cons, List.not_mem_nil, or_false] at mem
    rcases mem with rfl | rfl | rfl <;> rfl

/-- The problems of a text that is searched are missing slots. -/
theorem kind_of_mem_missed {names : List Text} {request : Request} {problem : Problem}
    (mem : problem ∈ x.missed d d' names request) : problem.kind = .missingSlot := by
  unfold missed at mem
  cases found : x.wrapped? d d' names request with
  | none => simp [found] at mem
  | some source =>
    rw [found] at mem
    obtain ⟨name, -, rfl⟩ := List.mem_map.mp mem
    rfl

/-- The problems of a journal with additions. -/
theorem problemsOf_withAdditions (names : List Text) (journal : List Request) :
    problemsOf (withAdditions (x.searches d d') names journal) =
      (withOutlets names journal).flatMap fun entry =>
        x.missed d d' entry.1 entry.2 ++ problemsOf [entry.2] := by
  rw [withAdditions, problemsOf_flatMap]
  refine List.flatMap_congr fun entry _ => ?_
  rw [problemsOf_append, problemsOf_searches]

/-- The problems of a journal are those of its requests. -/
theorem problemsOf_withOutlets (names : List Text) (journal : List Request) :
    (withOutlets names journal).flatMap (fun entry => problemsOf [entry.2]) = problemsOf journal := by
  induction journal generalizing names with
  | nil => rfl
  | cons request rest ih =>
    rw [withOutlets, List.flatMap_cons, ih, ← problemsOf_append]
    rfl

end compositions

end Setting

/-- Sources and documents of them without slot values differ only by the missing slots of their
    texts, if slots are resolved in turn and their markers stay. The host's sources do not change,
    and what its functions give may depend on everything that was called before. -/
theorem wrapped_sources (x : Setting) (d d' : Document) {σ : Type}
    (call : Callback → StateM σ (Except Text Content)) (host : σ)
    (sequential : x.options.parallel = false) (keeps : x.options.onMissingSlot = .keep)
    (textual : x.cache.IsTextual) (wraps : d.Wraps d') : x.DiffersBySearches call d d' host := by
  -- Both runs start with the same cache, and nothing was asked before.
  have adds : x.AddsSearches call d d' []
      (Engine.document x.host.resolve x.options d) (Engine.document x.host.resolve x.options d') :=
    Setting.document_adds sequential keeps textual wraps
  have ends : x.EndsAlike (x.searches d d') [] [] (fun _ => True) (.start x.cache) (.start x.cache)
      (x.composedWith call d host) (x.composedWith call d' host) :=
    adds (.start x.cache) (.start x.cache) host Setting.proper_start rfl
  have journal : (x.composedWith call d' host).2.1.journal =
      withAdditions (x.searches d d') [] (x.composedWith call d host).2.1.journal := by
    obtain ⟨made, old, new, -⟩ := ends.journal
    have started : (x.composedWith call d host).2.1.journal = made := old
    rw [started]
    exact new
  have problems : (x.composedWith call d' host).2.1.problems =
      (withOutlets [] (x.composedWith call d host).2.1.journal).flatMap fun entry =>
        x.missed d d' entry.1 entry.2 ++ problemsOf [entry.2] := by
    rw [Session.problems, journal, Setting.problemsOf_withAdditions]
  constructor
  case outcome => exact ends.outcome
  case problems => exact problems
  case others =>
    rw [problems, List.filter_flatMap, Session.problems,
      ← Setting.problemsOf_withOutlets [] (x.composedWith call d host).2.1.journal, List.filter_flatMap]
    refine List.flatMap_congr fun entry _ => ?_
    have nothing : (x.missed d d' entry.1 entry.2).filter (·.kind ≠ .missingSlot) = [] :=
      List.filter_eq_nil_iff.mpr fun problem mem => by simp [Setting.kind_of_mem_missed mem]
    rw [List.filter_append, nothing, List.nil_append]
  case requests =>
    rw [journal]
    exact filter_withAdditions _ (fun _ _ _ mem => by simp [Setting.isNote_of_mem_searches mem]) _ _
  case cache => exact ends.cache
  case functions => exact ends.host

/-- A source whose text has two outlets is wrapped, and another one is not. -/
theorem wrapped_sources_searched :
    let x : Setting :=
      { host :=
          { resolve := fun path _ _ => path
            probe := fun _ => .ok true
            read := fun _ => .ok "<!-- slot: u -->, <!-- slot: v -->, <!-- slot: u -->".toList
            call := fun _ => .ok (.text []) }
        options := { cache := some (.own []) }
        shared := [] }
    let call : Callback → StateM Unit (Except Text Content) := fun _ => pure (.ok (.text []))
    let body : Body := .text "<!-- slot: a --> and <!-- slot: b -->".toList
    let d : Document :=
      { body
        slots := [(.text "a".toList, .source "s".toList), (.text "b".toList, .source "s".toList)] }
    let d' : Document :=
      { body
        slots := [(.text "a".toList, .source "s".toList),
          (.text "b".toList, .document (.source "s".toList) [])] }
    x.options.parallel = false ∧ x.options.onMissingSlot = .keep ∧ x.cache.IsTextual ∧ d.Wraps d' ∧
      x.DiffersBySearches call d d' () ∧
      (x.composedWith call d ()).2.1.problems = [] ∧
      (x.composedWith call d' ()).2.1.problems =
        [.missingSlot "u".toList (some "s".toList), .missingSlot "v".toList (some "s".toList)] := by
  intro x call body d d'
  have textual : x.cache.IsTextual := fun path v found => by cases found
  have wraps : d.Wraps d' := ⟨rfl, .cons _ (.kept _) (.cons _ (.wrapped _) .nil)⟩
  have differs := wrapped_sources x d d' call () rfl rfl textual wraps
  exact ⟨rfl, rfl, textual, wraps, differs, by decide +kernel, by decide +kernel⟩

end MarkdownOutlets
