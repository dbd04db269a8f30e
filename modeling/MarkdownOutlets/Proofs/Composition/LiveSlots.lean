import MarkdownOutlets.Proofs.Composition.Dues
import MarkdownOutlets.Proofs.Composition.LivePlaces

/-! # Live slots are resolved once

  The main statement, `live_slots_once`, says that a place that is reached is
  dealt with once, however often its outlet occurs: its function is called, or
  its source is read unless the text comes from the cache. Nothing is called or
  read for any other place. A fault in one of several slots that are resolved
  side by side does not keep the functions of others from being called.

  The requests for the places that are reached are due (`Setting.document_owes`);
  what is left of them in the end is known from `Setting.Owes.ended`.
-/

namespace MarkdownOutlets

/-! ### Requests for places -/

/-- The requests that are made for a place itself, if it is reached. -/
def Place.requests (resolve : Resolver) (o : Options) (p : Place) : List Request :=
  p.function?.toList.map .call ++ (p.source? resolve o).toList.map .read

namespace Setting

variable (x : Setting) (d : Document)

/-- The requests for several places. -/
def duesOf (places : List (List Text)) : Multiset Request :=
  (places.flatMap fun names => (x.place d names).requests x.host.resolve x.options : List Request)

variable {x d}

theorem duesOf_nil : x.duesOf d [] = 0 := rfl

theorem duesOf_cons (names : List Text) (places : List (List Text)) :
    x.duesOf d (names :: places) =
      ((x.place d names).requests x.host.resolve x.options : List Request) + x.duesOf d places := by
  simp only [duesOf, List.flatMap_cons, Multiset.coe_add]

theorem duesOf_append (first second : List (List Text)) :
    x.duesOf d (first ++ second) = x.duesOf d first + x.duesOf d second := by
  simp only [duesOf, List.flatMap_append, Multiset.coe_add]

theorem duesOf_flatMap {ι : Type} (ns : List ι) (f : ι → List (List Text)) :
    x.duesOf d (ns.flatMap f) = (ns.map fun n => x.duesOf d (f n)).sum := by
  induction ns with
  | nil => rfl
  | cons n ns ih => rw [List.flatMap_cons, duesOf_append, ih, List.map_cons, List.sum_cons]

/-! ### What a source owes -/

/-- A source that is loaded comes to what is seen of it, and is read at most
    once. -/
def Loaded (x : Setting) (path : Text) (outcome : Outcome) (left : Multiset Request) : Prop :=
  outcome = (x.loadAccount path).outcome ∧ NoCalls left

theorem failed_owes {path : Text} {fault : SourceFault} (view : x.view path = .error fault)
    {due : Multiset Request} (no_calls : NoCalls due) :
    x.Owes (x.Loaded path) due (Engine.sourceFailed (.ofOptions x.options) fault) := by
  refine .note ?_
  have account := loadAccount_of_fault fault view
  by_cases strict : x.options.onFileError = .throw
  · simpa [Rules.ofOptions, strict] using! Owes.done ⟨by simp [account, strict], no_calls⟩
  · simpa [Rules.ofOptions, strict] using! Owes.done ⟨by simp [account, strict], no_calls⟩

/-- The text of a source is passed on when it was found or read. -/
theorem text_owes {path t : Text} (isNew : x.IsNew path) (text : x.text? path = some t)
    {due : Multiset Request} (no_calls : NoCalls due) :
    x.Owes (x.Loaded path) due (.text t) :=
  .done ⟨by rw [loadAccount_of_text isNew text], no_calls⟩

theorem keep_owes {path t : Text} (isNew : x.IsNew path) (text : x.text? path = some t) :
    x.Owes (x.Loaded path) 0 (Engine.keep (.ofOptions x.options) path t) := by
  have passed_on := text_owes isNew text noCalls_zero
  unfold Engine.keep
  simp only [Rules.ofOptions]
  by_cases cached : x.options.cache.isSome
  · simp only [cached, if_true]
    exact .other rfl ⟨isNew, text⟩ fun _ _ => passed_on
  · simp only [cached]
    exact passed_on

theorem fetch_owes {path : Text} (isNew : x.IsNew path) :
    x.Owes (x.Loaded path) {.read path} (Engine.fetch (.ofOptions x.options) path) := by
  have recalled : x.cache.held? path = none := isNew
  refine .other rfl trivial fun answer may => ?_
  obtain rfl : answer = x.probed path := may
  -- One case for each pair of answers, as in `view`.
  cases probed : x.probed path with
  | error fault => exact failed_owes (by simp [view, recalled, probed]) (noCalls_read path)
  | ok present =>
    cases present with
    | false => exact failed_owes (by simp [view, recalled, probed]) (noCalls_read path)
    | true =>
      refine .due rfl fun answer may => ?_
      obtain rfl : answer = x.read path := may
      cases read : x.read path with
      | error fault => exact failed_owes (by simp [view, recalled, probed, read]) noCalls_zero
      | ok t => exact keep_owes isNew (text?_eq_some.mpr ⟨probed, read⟩)

theorem load_owes (path : Text) :
    x.Owes (x.Loaded path) {.read path} (Engine.load (.ofOptions x.options) path) := by
  cases choice : x.options.cache with
  | none =>
    -- Without a cache every path is new.
    have isNew : x.IsNew path := by simp [IsNew, cache, choice, CacheChoice.initial]
    simpa [Engine.load, Rules.ofOptions, choice] using! fetch_owes isNew
  | some cache =>
    have cached : (Rules.ofOptions x.options).cache = .mapping := by simp [Rules.ofOptions, choice]
    simp only [Engine.load, cached]
    refine .other rfl trivial fun answer may => ?_
    cases (may : x.MayHold path answer) with
    | nothing isNew => exact fetch_owes isNew
    | @initial v found =>
      have account : (x.loadAccount path).outcome = .ok (if v.isNull then none else some (.ofValue v)) := by
        simp [loadAccount, view, found]
      refine .note ?_
      cases null : v.isNull with
      | true => exact .done ⟨by simp [account, null], noCalls_read path⟩
      | false => exact .done ⟨by simp [account, null], noCalls_read path⟩
    | added isNew text => exact .note (text_owes isNew text (noCalls_read path))

/-- What comes out of a source is what is seen of it. -/
theorem view_of_loadAccount {path : Text} {content : Content}
    (outcome : (x.loadAccount path).outcome = .ok (some content)) :
    x.view path = .ok (some content) := by
  unfold loadAccount at outcome
  cases view : x.view path with
  | ok seen => simpa [view] using outcome
  | error fault =>
    simp only [view] at outcome
    split at outcome
    · cases outcome
    · cases outcome

/-- A source may be read when it joins the chain. The requests of whoever uses
    its content are due if there is any. -/
theorem withSource_owes {source : Text} {here : Position} {inSlot : Bool}
    {use : Content → Position → Process} {more : Multiset Request}
    (unused : (∀ tracker content, here.tracker.push source = .ok tracker →
      x.view source ≠ .ok (some content)) → NoCalls more)
    (used : ∀ tracker content, here.tracker.push source = .ok tracker →
      x.view source = .ok (some content) →
        x.Owes x.Settles more (use content { tracker, document := some source })) :
    x.Owes x.Settles ({.read source} + more)
      (Engine.withSource (.ofOptions x.options) source here inSlot use) := by
  unfold Engine.withSource
  cases pushed : here.tracker.push source with
  | error problem =>
    have no_calls := (noCalls_read source).add (unused (by simp [pushed]))
    refine .note ?_
    split
    · exact .done (.inr no_calls)
    · exact .done (.inr no_calls)
  | ok tracker =>
    refine .note ?_
    refine Owes.closing ((load_owes source).bind ?_)
    rintro outcome left ⟨outcome_eq, no_calls⟩
    have no_more (ne : ∀ content, outcome ≠ .ok (some content)) : NoCalls (left + more) :=
      no_calls.add (unused fun _ content _ view => ne content (by simp [outcome_eq, loadAccount, view]))
    rcases outcome with fault | _ | content
    · exact .done (.inr (no_more (by simp)))
    · exact .done (.inr (no_more (by simp)))
    · exact (used tracker content pushed (view_of_loadAccount outcome_eq.symm)).spare no_calls

/-! ### What a slot owes -/

theorem missing_owes (name : Text) (here : Position) :
    x.Owes x.Settles 0 (Engine.missing (.ofOptions x.options) name here) := by
  refine .note ?_
  cases (Rules.ofOptions x.options).onMissingSlot <;> exact .done (.inr noCalls_zero)

theorem invoke_owes (c : Callback) (here : Position) :
    x.Owes x.Settles {.call c} (Engine.invoke (.ofOptions x.options) c here) := by
  have failed (fault : CallbackFault) :
      x.Owes x.Settles 0 (Engine.callFailed (.ofOptions x.options) fault here) := by
    refine .note ?_
    split
    · exact .done (.inr noCalls_zero)
    · exact .done (.inr noCalls_zero)
  refine .due rfl fun answer _ => ?_
  match answer with
  | .ok (.text t) => exact .done (.inr noCalls_zero)
  | .ok (.other kindName) => exact failed _
  | .error reason => exact failed _

/-- The branch is about to resolve a value which is reached: it owes what the
    places at and below the value do. -/
def OwesBelow (x : Setting) (d : Document) (above : List Text) (p : Process) : Prop :=
  ∃ places, x.Covers d above places ∧ x.Owes x.Settles (x.duesOf d places) p

/-- The values of a document owe what is due for them, at every place that is
    reached. -/
def SlotsOwe (x : Setting) (d : Document) (slots : List (Scalar × Slot)) : Prop :=
  ∀ name value, slots.lookup name = some value → ∀ {w : Whereabouts} {here : Position},
    w.At x.host.resolve x.options d (some value) here → x.Reached d w.outlets →
      x.OwesBelow d w.outlets (Engine.slot x.host.resolve x.options value here)

/-- The outlets of a text owe what is due for the places below. -/
theorem fill_owes {w : Whereabouts} {slots : List (Scalar × Slot)} {here : Position} {t : Text}
    (within : w.Within x.host.resolve x.options d slots here) (reached : x.Reached d w.outlets)
    (obtains : x.Obtains (x.place d w.outlets) t) (slots_owe : x.SlotsOwe d slots) :
    ∃ places, x.Covers d w.outlets (w.outlets :: places) ∧
      x.Owes x.Settles (x.duesOf d places)
        (Engine.fill (.ofOptions x.options)
          (fun name => (slots.lookup (.text name)).map (Engine.slot x.host.resolve x.options))
          (.text t) here) := by
  have outlet (name : Text) (mem : name ∈ (Template.ofText t).names) :
      x.OwesBelow d (w.outlets ++ [name]) (Engine.resolveOutlet (.ofOptions x.options)
        (fun name => (slots.lookup (.text name)).map (Engine.slot x.host.resolve x.options))
        here name) := by
    have at_value := within.opened name
    simp only [Engine.resolveOutlet]
    cases found : slots.lookup (.text name) with
    | some value =>
      rw [found] at at_value
      have value_eq : (x.place d (w.outlets ++ [name])).value = some value := by
        simp only [at_value.place]
      obtain ⟨places, covers, owes⟩ :=
        slots_owe _ value found at_value (.slot reached obtains mem value_eq)
      exact ⟨places, covers, .note owes.closing⟩
    | none =>
      -- A name without a slot value owes nothing.
      rw [found] at at_value
      have value_eq : (x.place d (w.outlets ++ [name])).value = none := by
        simp only [at_value.place]
      exact ⟨[], covers_missing value_eq, .note (missing_owes name here).closing⟩
  choose! below covers owes using outlet
  refine ⟨_, covers_outlets reached obtains covers, ?_⟩
  rw [duesOf_flatMap]
  simp only [Engine.fill, Engine.fillText]
  split
  · rename_i no_outlets
    have no_names : (Template.ofText t).names = [] := by simp [Template.names, no_outlets, distinct]
    rw [no_names]
    exact .done (.inr noCalls_zero)
  · refine .gather owes fun results => ?_
    obtain ⟨outcome, splice_eq⟩ := Engine.splice_done (Template.ofText t)
      (Engine.resultOf (Template.ofText t).names results)
    rw [splice_eq]
    exact .done (.inr noCalls_zero)

/-- The source of a document has a text just when it may join the chain, and a
    text is seen of it. -/
theorem obtains_source_iff {w : Whereabouts} {here : Position} {path t : Text}
    {slots : List (Scalar × Slot)}
    (at_value : w.At x.host.resolve x.options d (some (.document (.source path) slots)) here) :
    x.Obtains (x.place d w.outlets) t ↔
      (∃ tracker, here.tracker.push (Engine.sourcePath x.host.resolve x.options path here.document) =
        .ok tracker) ∧
      x.view (Engine.sourcePath x.host.resolve x.options path here.document) = .ok (some (.text t)) := by
  have place : x.place d w.outlets = _ := at_value.place
  have own : (x.place d w.outlets).own x.host.resolve x.options =
      [Engine.sourcePath x.host.resolve x.options path here.document] := by
    rw [place, at_value.document]
    rfl
  have may_join : (∃ tracker, here.tracker.push
        (Engine.sourcePath x.host.resolve x.options path here.document) = .ok tracker) ↔
      Engine.sourcePath x.host.resolve x.options path here.document ∉ (x.place d w.outlets).around ∧
        (x.place d w.outlets).around.length < x.options.maxDepth := by
    simp only [at_value.tracker, Tracker.push_eq_ok, exists_and_left, exists_eq, and_true,
      at_value.limit, Limit.reached_whole, decide_eq_false_iff_not, not_le, Tracker.depth, place]
    exact and_comm
  rw [may_join]
  constructor
  · intro obtains
    cases obtains with
    | given value => simp [place] at value
    | seen value own' not_around room view =>
      obtain rfl : _ = _ := List.singleton_inj.mp (own.symm.trans own')
      exact ⟨⟨not_around, room⟩, view⟩
  · rintro ⟨⟨not_around, room⟩, view⟩
    have value : (x.place d w.outlets).value = some (.document (.source path) slots) := by rw [place]
    exact .seen value own not_around room view

section document

variable {slots : List (Scalar × Slot)} {w : Whereabouts} {here : Position}

/-- A document of a text makes no request for its own place. -/
theorem textDocument_owes {t : Text}
    (at_value : w.At x.host.resolve x.options d (some (.document (.text t) slots)) here)
    (reached : x.Reached d w.outlets) (slots_owe : x.SlotsOwe d slots) :
    x.OwesBelow d w.outlets (Engine.fill (.ofOptions x.options)
      (fun name => (slots.lookup (.text name)).map (Engine.slot x.host.resolve x.options))
      (.text t) here) := by
  have place : x.place d w.outlets = _ := at_value.place
  have obtains : x.Obtains (x.place d w.outlets) t := .given (by rw [place])
  have requests : (x.place d w.outlets).requests x.host.resolve x.options = [] := by
    rw [place]
    rfl
  have within : w.Within x.host.resolve x.options d slots here :=
    ⟨at_value.toSound, by rw [at_value.place]; rfl,
      by rw [at_value.place]; simp [Place.inner, Place.own]⟩
  obtain ⟨places, covers, owes⟩ := fill_owes within reached obtains slots_owe
  refine ⟨_, covers, ?_⟩
  rw [duesOf_cons, requests]
  simpa using owes

/-- A document of a source owes what is due below it only if it has a text. -/
theorem sourceDocument_owes {path : Text} {inSlot : Bool}
    (at_value : w.At x.host.resolve x.options d (some (.document (.source path) slots)) here)
    (reached : x.Reached d w.outlets) (slots_owe : x.SlotsOwe d slots) :
    x.OwesBelow d w.outlets (Engine.withSource (.ofOptions x.options)
      (Engine.sourcePath x.host.resolve x.options path here.document) here inSlot
      (Engine.fill (.ofOptions x.options)
        fun name => (slots.lookup (.text name)).map (Engine.slot x.host.resolve x.options))) := by
  have place : x.place d w.outlets = _ := at_value.place
  have obtains_iff (t : Text) := obtains_source_iff (t := t) at_value
  have requests : (x.place d w.outlets).requests x.host.resolve x.options =
      [.read (Engine.sourcePath x.host.resolve x.options path here.document)] := by
    rw [place, at_value.document]
    rfl
  by_cases has_text : ∃ t, x.Obtains (x.place d w.outlets) t
  · obtain ⟨t, obtains⟩ := has_text
    obtain ⟨⟨tracker, pushed⟩, view⟩ := (obtains_iff t).mp obtains
    have entered := at_value.tracker ▸ pushed
    obtain ⟨-, -, tracker_eq⟩ := Tracker.push_eq_ok.mp entered
    have within : ({ w with tracker } : Whereabouts).Within x.host.resolve x.options d slots
        { tracker, document := some (Engine.sourcePath x.host.resolve x.options path here.document) } :=
      ⟨at_value.toSound.entered entered, by simp only [at_value.place]; rfl,
        by simp [at_value.place, Place.inner, Place.own, tracker_eq, at_value.document]⟩
    obtain ⟨places, covers, owes⟩ := fill_owes within reached obtains slots_owe
    refine ⟨_, covers, ?_⟩
    rw [duesOf_cons, requests]
    refine withSource_owes (fun unused => absurd view (unused tracker _ pushed)) ?_
    intro tracker' content pushed' view'
    obtain rfl : tracker = tracker' := by simpa [pushed] using pushed'
    obtain rfl : content = .text t := by simpa [view] using view'.symm
    exact owes
  · -- Content that is no text has no outlets.
    refine ⟨_, covers_leaf reached fun t obtains => has_text ⟨t, obtains⟩, ?_⟩
    rw [duesOf_cons, requests, duesOf_nil]
    refine withSource_owes (fun _ => noCalls_zero) ?_
    intro tracker content pushed view
    cases content with
    | text t => exact absurd ⟨t, (obtains_iff t).mpr ⟨⟨tracker, pushed⟩, view⟩⟩ has_text
    | other kindName => exact .done (.inr noCalls_zero)

/-- A document owes what is due for its place and those below. -/
theorem compose_owes {body : Body}
    (at_value : w.At x.host.resolve x.options d (some (.document body slots)) here)
    (reached : x.Reached d w.outlets) (slots_owe : x.SlotsOwe d slots) (inSlot : Bool) :
    x.OwesBelow d w.outlets (Engine.compose x.host.resolve x.options body
      (Engine.slots x.host.resolve x.options slots) here inSlot) := by
  simp only [Engine.compose, Engine.lookup_slots]
  cases body with
  | text t => exact textDocument_owes at_value reached slots_owe
  | source path => exact sourceDocument_owes at_value reached slots_owe

end document

/-- There is nothing below a slot value that is no document. -/
theorem covers_plain {above : List Text} {value : Slot} (reached : x.Reached d above)
    (value_eq : (x.place d above).value = some value)
    (plain : ∀ body slots, value ≠ .document body slots) : x.Covers d above [above] := by
  refine covers_leaf reached fun t obtains => ?_
  cases obtains with
  | given document => exact plain _ _ (Option.some.inj (value_eq.symm.trans document))
  | seen document => exact plain _ _ (Option.some.inj (value_eq.symm.trans document))

/-- A slot value owes what is due for its place and those below. -/
theorem slot_owes (value : Slot) {w : Whereabouts} {here : Position}
    (at_value : w.At x.host.resolve x.options d (some value) here) (reached : x.Reached d w.outlets) :
    x.OwesBelow d w.outlets (Engine.slot x.host.resolve x.options value here) := by
  induction value using Slot.induct generalizing w here with
  | literal t =>
    have place : x.place d w.outlets = _ := at_value.place
    refine ⟨_, covers_plain reached (by rw [place]) (by simp), ?_⟩
    rw [duesOf_cons, place]
    exact .done (.inr noCalls_zero)
  | source path =>
    have place : x.place d w.outlets = _ := at_value.place
    have requests : (x.place d w.outlets).requests x.host.resolve x.options =
        [.read (Engine.sourcePath x.host.resolve x.options path here.document)] := by
      rw [place, at_value.document]
      rfl
    refine ⟨_, covers_plain reached (by rw [place]) (by simp), ?_⟩
    rw [duesOf_cons, requests, duesOf_nil, Engine.slot]
    exact withSource_owes (fun _ => noCalls_zero) fun _ _ _ _ => .done (.inr noCalls_zero)
  | callback c =>
    have place : x.place d w.outlets = _ := at_value.place
    refine ⟨_, covers_plain reached (by rw [place]) (by simp), ?_⟩
    rw [duesOf_cons, place]
    exact invoke_owes c here
  | document body slots ih =>
    rw [Engine.slot]
    exact compose_owes at_value reached (fun name value found _ _ => ih name value found) true

/-- The whole composition owes what is due for the places that are reached. -/
theorem document_owes (x : Setting) (d : Document) :
    x.OwesBelow d [] (Engine.document x.host.resolve x.options d) := by
  have at_root : ({ outlets := [], tracker := .empty (.whole x.options.maxDepth) } : Whereabouts).At
      x.host.resolve x.options d (some d.toSlot) (.root (.whole x.options.maxDepth)) :=
    ⟨⟨rfl, rfl, rfl, List.nodup_nil, Nat.zero_le _⟩, rfl⟩
  exact compose_owes at_root .root (fun name value _ w here => slot_owes value) false

/-! ### What was asked in the end -/

theorem map_filter_isSome {α β : Type} (f : α → Option β) (as : List α) :
    (as.filter fun a => (f a).isSome).map f = (as.filterMap f).map some := by
  rw [List.map_filterMap_some_eq_filter_map_isSome, List.filter_map]
  rfl

/-- A part of a list with as many values has all entries with a value. -/
theorem filter_isSome_eq {α β : Type} {f : α → Option β} {part whole : List α}
    (sub : part.Sublist whole)
    (lengths : (part.filterMap f).length = (whole.filterMap f).length) :
    (part.filter fun a => (f a).isSome) = whole.filter fun a => (f a).isSome := by
  have values (as : List α) : (as.filter fun a => (f a).isSome).length = (as.filterMap f).length := by
    simpa using congrArg List.length (map_filter_isSome f as)
  refine (sub.filter _).eq_of_length ?_
  rw [values, values, lengths]

/-- Among the places that are reached, those for which requests of one sort were
    made. A place makes one of them at most. -/
theorem exists_asked {β : Type} (pick : Request → Option β) {given : Place → Option β}
    (pick_counted : ∀ request, (pick request).isSome → request.isCounted)
    (pick_requests : ∀ p : Place,
      (p.requests x.host.resolve x.options).filterMap pick = (given p).toList)
    {places : List (List Text)} (covers : x.Covers d [] places) {journal : List Request}
    {left : Multiset Request} (due : x.duesOf d places = counted journal + left) :
    ∃ asked : List (List Text), asked.Nodup ∧ (∀ names ∈ asked, x.Reached d names) ∧
      (asked.map fun names => given (x.place d names)).Perm ((journal.filterMap pick).map some) ∧
      ((∀ request ∈ left, pick request = none) →
        ∀ names, x.Reached d names → (given (x.place d names)).isSome → names ∈ asked) := by
  -- What the places would ask for is what was asked and what is left.
  have whole : (places.filterMap fun names => given (x.place d names) : Multiset β) =
      (journal.filterMap pick : List β) + left.filterMap pick := by
    have both := congrArg (Multiset.filterMap pick) due
    rw [Multiset.filterMap_add, filterMap_counted pick_counted] at both
    rw [← both, duesOf, Multiset.filterMap_coe, List.filterMap_flatMap]
    simp only [pick_requests, List.filterMap_eq_flatMap_toList]
  have asked_due : (journal.filterMap pick).Subperm (places.filterMap fun names => given (x.place d names)) :=
    Multiset.coe_le.mp (whole ▸ Multiset.le_add_right _ _)
  obtain ⟨_, perm, sub⟩ := asked_due
  obtain ⟨chosen, chosen_sub, rfl⟩ := List.sublist_filterMap_iff.mp sub
  refine ⟨chosen.filter fun names => (given (x.place d names)).isSome,
    (covers.nodup.sublist chosen_sub).filter _, fun names mem => ?_, ?_, ?_⟩
  · exact ((covers.mem names).mp (chosen_sub.subset (List.mem_of_mem_filter mem))).2
  · rw [map_filter_isSome]
    exact perm.map some
  · intro none_left names reached present
    have no_more : left.filterMap pick = 0 := by
      rw [Multiset.eq_zero_iff_forall_notMem]
      intro b mem
      obtain ⟨request, mem, picked⟩ := (Multiset.mem_filterMap _ _).mp mem
      simp [none_left request mem] at picked
    rw [no_more, add_zero, Multiset.coe_eq_coe] at whole
    -- With nothing left, every place with a value was chosen.
    rw [filter_isSome_eq chosen_sub (perm.length_eq.trans whole.length_eq.symm)]
    exact List.mem_filter.mpr ⟨(covers.mem names).mpr ⟨List.nil_prefix, reached⟩, present⟩

variable (x d)

/-- What was asked for, when a composition ends with the outcome. -/
structure ResolvedOnce (outcome : Outcome) (journal : List Request) : Prop where
  /-- The functions that were called are those of live slot values, none of them
      called twice. -/
  calls : ∃ called : List (List Text), called.Nodup ∧ (∀ names ∈ called, x.Live d names) ∧
    (called.map fun names => (x.place d names).function?).Perm ((callsOf journal).map some) ∧
    -- Only a fault that ends a composition with one slot after the other leaves some out.
    (x.options.parallel = true ∨ outcome.isOk →
      ∀ names, x.Live d names → (x.place d names).function?.isSome → names ∈ called)
  /-- The sources that were read are those of places which are reached, none of
      them read twice. -/
  reads : ∃ read : List (List Text), read.Nodup ∧ (∀ names ∈ read, x.Reached d names) ∧
    (read.map fun names => (x.place d names).source? x.host.resolve x.options).Perm
      ((readsOf journal).map some)
  /-- There are not more of them than the tree has sources. -/
  bound : (readsOf journal).length ≤ d.toSlot.sourcePlaces.length

variable {x d}

theorem requests_calls (p : Place) :
    (p.requests x.host.resolve x.options).filterMap Request.call? = p.function?.toList := by
  unfold Place.requests
  cases p.function? <;> cases p.source? x.host.resolve x.options <;> rfl

theorem requests_reads (p : Place) :
    (p.requests x.host.resolve x.options).filterMap Request.read? =
      (p.source? x.host.resolve x.options).toList := by
  unfold Place.requests
  cases p.function? <;> cases p.source? x.host.resolve x.options <;> rfl

/-- There is no function for the outermost document. -/
theorem Reached.live {names : List Text} (reached : x.Reached d names)
    (present : (x.place d names).function?.isSome) : x.Live d names := by
  refine ⟨?_, reached⟩
  rintro rfl
  cases present

/-- Different places of the tree with a source are not more than it has. -/
theorem length_le_sourcePlaces {read : List (List Text)} (nodup : read.Nodup)
    (each : ∀ names ∈ read, ((x.place d names).source? x.host.resolve x.options).isSome) :
    read.length ≤ d.toSlot.sourcePlaces.length := by
  have keys_nodup : (read.map fun names => names.map Scalar.text).Nodup :=
    nodup.map (List.map_injective_iff.mpr fun _ _ same => Scalar.text.inj same)
  have keys_mem : (read.map fun names => names.map Scalar.text) ⊆ d.toSlot.sourcePlaces := by
    intro keys mem
    obtain ⟨names, is_read, rfl⟩ := List.mem_map.mp mem
    obtain ⟨value, value_eq, mem⟩ := Place.mem_sourcePlaces (each names is_read)
    obtain rfl : d.toSlot = value := Option.some.inj value_eq
    exact mem
  simpa using (List.subperm_of_subset keys_nodup keys_mem).length_le

/-- At the end of an interleaving each live slot value was resolved once. -/
theorem resolvedOnce {left : Multiset Request} {outcome : Outcome} {journal : List Request}
    {places : List (List Text)} (covers : x.Covers d [] places)
    (settles : x.Settles outcome left) (due_eq : x.duesOf d places = counted journal + left) :
    x.ResolvedOnce d outcome journal := by
  have present {β : Type} {given : Place → Option β} {asked : List (List Text)} {answers : List β}
      (perm : (asked.map fun names => given (x.place d names)).Perm (answers.map some)) :
      ∀ names ∈ asked, (given (x.place d names)).isSome := by
    intro names mem
    have mem := perm.subset (List.mem_map_of_mem mem)
    obtain ⟨b, -, eq⟩ := List.mem_map.mp mem
    rw [← eq]
    rfl
  obtain ⟨read, read_nodup, read_reached, read_perm, -⟩ :=
    exists_asked Request.read? (by rintro ⟨⟩ <;> simp [Request.read?, Request.isCounted])
      requests_reads covers due_eq
  obtain ⟨called, called_nodup, called_reached, called_perm, complete⟩ :=
    exists_asked Request.call? (by rintro ⟨⟩ <;> simp [Request.call?, Request.isCounted])
      requests_calls covers due_eq
  refine ⟨⟨called, called_nodup, ?_, called_perm, ?_⟩, ⟨read, read_nodup, read_reached, read_perm⟩, ?_⟩
  · exact fun names mem => (called_reached names mem).live (present called_perm names mem)
  · intro through names live
    refine complete (fun request mem => ?_) names live.2
    -- Nothing that is left is a call.
    have no_calls : NoCalls left := settles.resolve_left (by
      rintro ⟨sequential, fault⟩
      rcases through with parallel | ok
      · simp [sequential] at parallel
      · simp [fault] at ok)
    cases request with
    | call c => exact absurd mem (no_calls c)
    | _ => rfl
  · have lengths := read_perm.length_eq
    rw [List.length_map, List.length_map] at lengths
    exact lengths ▸ length_le_sourcePlaces read_nodup (present read_perm)

end Setting

end MarkdownOutlets
