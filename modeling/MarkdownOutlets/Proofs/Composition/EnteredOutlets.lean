import MarkdownOutlets.Proofs.Composition.ActiveChain

/-! # Outlets that are entered

  A monitor says which requests are made, but not how a process goes on after
  one of them. `Monitor.Continues` does: it follows the structure of a process
  as `Monitor.Accepts` does, and holds then on the line of every branch.

  The main statement, `entered_outlet`, is about the outlets of a document. A
  branch that enters an outlet goes on with the process of the slot value at its
  place, and then notes that it leaves the outlet.
-/

namespace MarkdownOutlets

theorem Process.bind_assoc (p : Process) (j k : Outcome → Process) :
    (p.bind j).bind k = p.bind fun outcome => (j outcome).bind k := by
  induction p using Process.rec (motive_2 := fun _ => True) with
  | done outcome => rfl
  | ask request next ih => simp only [bind, ih]
  | all branches next _ ih => simp only [bind, ih]
  | nil => trivial
  | cons => trivial

/-! ### How a process goes on -/

namespace Monitor

variable {ω : Type} (M : Monitor ω) (duty : ω → Request → Process → Prop)

/-- From the state `w` on, the process goes on after each of its requests as the
    duty tells, given the state behind the request. So do its branches. -/
inductive Continues : ω → Process → Prop
  /-- The end. -/
  | done {w : ω} (outcome : Outcome) : Continues w (.done outcome)
  /-- A request. -/
  | ask {w : ω} {request : Request} {next : request.Answer → Process}
      (on : ∀ answer, duty (M.next w request answer) request (next answer))
      (rest : ∀ answer, Continues (M.next w request answer) (next answer)) :
      Continues w (.ask request next)
  /-- Branches side by side. -/
  | all {w : ω} {branches : List Process} {next : List Outcome → Process}
      (each : ∀ b ∈ branches, Continues w b) (rest : ∀ outcomes, Continues w (next outcomes)) :
      Continues w (.all branches next)

/-- The duty does not depend on what follows in the end. -/
def Stable : Prop := ∀ w request p k, duty w request p → duty w request (p.bind k)

variable {M duty}

namespace Continues

variable {w : ω}

theorem note {n : Note} {p : Process} (on : duty (M.next w (.note n) ()) (.note n) p)
    (rest : M.Continues duty (M.next w (.note n) ()) p) : M.Continues duty w (.note n p) :=
  .ask (fun _ => on) fun _ => rest

/-- Goes on after a process that restores the state. -/
theorem after (stable : Stable duty) {p : Process} {k : Outcome → Process}
    (first : M.Continues duty w p) (restores : M.Restores w p)
    (second : ∀ outcome, M.Continues duty w (k outcome)) : M.Continues duty w (p.bind k) := by
  -- The state changes along the process, and is `start` again at its end.
  suffices general : ∀ {w start : ω} {p : Process}, M.Continues duty w p →
      M.Accepts (fun w' _ => w' = start) w p → (∀ outcome, M.Continues duty start (k outcome)) →
        M.Continues duty w (p.bind k) from general first restores second
  intro w start p first accepts second
  induction first with
  | done outcome =>
    cases accepts with
    | done restored => exact restored ▸ second outcome
  | ask on _ ih =>
    cases accepts with
    | ask _ rest =>
      exact .ask (fun answer => stable _ _ _ _ (on answer)) fun answer => ih answer (rest answer)
  | all each _ _ ih =>
    cases accepts with
    | all _ _ rest => exact .all each fun outcomes => ih outcomes (rest outcomes)

theorem gather (stable : Stable duty) {parallel : Bool} {ps : List Process}
    {k : List (Option Content) → Process} (each : ∀ p ∈ ps, M.Continues duty w p)
    (restores : ∀ p ∈ ps, M.Restores w p) (rest : ∀ cs, M.Continues duty w (k cs)) :
    M.Continues duty w (.gather parallel ps k) := by
  cases parallel with
  | true =>
    refine .all each fun outcomes => ?_
    cases Process.settle outcomes with
    | error f => exact .done _
    | ok cs => exact rest cs
  | false =>
    induction ps generalizing k with
    | nil => exact rest []
    | cons p ps ih =>
      have first := each p List.mem_cons_self
      refine first.after stable (restores p List.mem_cons_self) fun outcome => ?_
      match outcome with
      | .error f => exact .done _
      | .ok c =>
        exact ih (fun q mem => each q (List.mem_cons_of_mem p mem))
          (fun q mem => restores q (List.mem_cons_of_mem p mem)) fun cs => rest (c :: cs)

theorem line {p q : Process} {es : List Process.Exchange} (h : M.Continues duty w p)
    (line : Process.Line p es q) : M.Continues duty (M.replay w es) q := by
  induction line with
  | here => exact h
  | ask _ answer ih =>
    cases ih with
    | ask _ rest =>
      rw [replay_append]
      exact rest answer
  | join _ outcomes ih =>
    cases ih with
    | all _ rest => exact rest outcomes

/-- On the line of a branch, the branch goes on as the duty tells. -/
theorem branch {p q : Process} {es : List Process.Exchange} (h : M.Continues duty w p)
    (branch : Process.Branch p es q) : M.Continues duty (M.replay w es) q := by
  induction branch with
  | line line => exact h.line line
  | fork _ mem line ih =>
    cases ih with
    | all each _ =>
      rw [replay_append]
      exact (each _ mem).line line

end Continues

end Monitor

section outlets

variable (resolve : Resolver) (o : Options) (d : Document)

/-- The process of an outlet of the name: that of its slot value, or that of an
    outlet without one. -/
def Engine.outlet (name : Text) (value : Option Slot) (here : Position) : Process :=
  match value with
  | some value => slot resolve o value here
  | none => missing (.ofOptions o) name here

/-- What is left to do for a branch in an outlet of the name, that was entered just
    now: to resolve what is at its place, to leave it, and whatever follows. -/
def Whereabouts.Resolves (w : Whereabouts) (name : Text) (rest : Process) : Prop :=
  ∃ (value : Option Slot) (here : Position) (k : Outcome → Process), w.At resolve o d value here ∧
    rest = (Engine.outlet resolve o name value here).bind fun outcome =>
      .note (.closed name) (k outcome)

/-- Whoever enters an outlet resolves it. -/
def outletDuty (w : Whereabouts) (request : Request) (rest : Process) : Prop :=
  ∀ name, request = .note (.opened name) → w.Resolves resolve o d name rest

variable {resolve o d}

theorem outletDuty_stable : Monitor.Stable (outletDuty resolve o d) := by
  intro w request p k on name opened
  obtain ⟨value, here, j, at_value, rfl⟩ := on name opened
  refine ⟨value, here, fun outcome => (j outcome).bind k, at_value, ?_⟩
  rw [Process.bind_assoc]
  rfl

/-- A branch that enters no outlet has no duty. -/
theorem outletDuty_of_ne {w : Whereabouts} {request : Request} {rest : Process}
    (other : ∀ name, request ≠ .note (.opened name)) : outletDuty resolve o d w request rest :=
  fun name opened => absurd opened (other name)

/-- Outlets are resolved by the process. -/
abbrev Whereabouts.Enters (resolve : Resolver) (o : Options) (d : Document) (w : Whereabouts)
    (p : Process) : Prop :=
  (chainMonitor resolve o d).Continues (outletDuty resolve o d) w p

/-- No outlet is entered to obtain the text of a source. -/
theorem load_enters (w : Whereabouts) (rules : Rules) (path : Text) :
    w.Enters resolve o d (Engine.load rules path) := by
  -- The state differs from one request to the next, but no request enters an outlet.
  have failed (w : Whereabouts) (fault : SourceFault) :
      w.Enters resolve o d (Engine.sourceFailed rules fault) := by
    refine .note (outletDuty_of_ne (by simp)) ?_
    split
    · exact .done _
    · exact .done _
  have kept (w : Whereabouts) (t : Text) : w.Enters resolve o d (Engine.keep rules path t) := by
    unfold Engine.keep
    split
    · exact .done _
    · exact .ask (fun _ => outletDuty_of_ne (by simp)) fun _ => .done _
    · exact .done _
  have fetched (w : Whereabouts) : w.Enters resolve o d (Engine.fetch rules path) := by
    refine .ask (fun _ => outletDuty_of_ne (by simp)) fun answer => ?_
    match answer with
    | .error fault => exact failed _ _
    | .ok false => exact failed _ _
    | .ok true =>
      refine .ask (fun _ => outletDuty_of_ne (by simp)) fun answer => ?_
      match answer with
      | .error fault => exact failed _ _
      | .ok t => exact kept _ t
  unfold Engine.load
  split
  · exact fetched w
  · refine .ask (fun _ => outletDuty_of_ne (by simp)) fun answer => ?_
    match answer with
    | none => exact fetched _
    | some v =>
      refine .note (outletDuty_of_ne (by simp)) ?_
      split
      · exact .done _
      · exact .done _
  · split
    · exact .done _
    · exact fetched w

/-- Outlets below a source are resolved while it is in the chain. -/
theorem withSource_enters {w : Whereabouts} {value : Option Slot} {here : Position}
    (at_value : w.At resolve o d value here) {source : Text}
    (own : (d.place resolve o w.outlets).own resolve o = [source]) {rules : Rules} {inSlot : Bool}
    {use : Content → Position → Process}
    (used : ∀ tracker, w.tracker.push source = .ok tracker → ∀ content,
      (chainMonitor resolve o d).Restores { w with tracker }
        (use content { tracker, document := some source }))
    (enters : ∀ tracker, w.tracker.push source = .ok tracker → ∀ content,
      ({ w with tracker } : Whereabouts).Enters resolve o d
        (use content { tracker, document := some source })) :
    w.Enters resolve o d (Engine.withSource rules source here inSlot use) := by
  unfold Engine.withSource
  rw [at_value.tracker]
  cases pushed : w.tracker.push source with
  | error problem =>
    refine .note (outletDuty_of_ne (by simp)) ?_
    split
    · exact .done _
    · exact .done _
  | ok tracker =>
    have after_entered : (chainMonitor resolve o d).next w
        (.note (.entered source tracker.depth)) () = { w with tracker } := by
      simp only [chainMonitor, Whereabouts.next, pushed]
    have loaded := entered_load_restores at_value own pushed rules
    refine .note (outletDuty_of_ne (by simp)) ?_
    rw [after_entered]
    -- What is done with the source in the chain restores the state, so that it can be left.
    refine .after outletDuty_stable ?_ (used_restores at_value own pushed rules (used tracker pushed))
      fun outcome => .note (outletDuty_of_ne (by simp)) (.done _)
    refine (load_enters _ rules source).after outletDuty_stable loaded fun outcome => ?_
    cases outcome with
    | error fault => exact .done _
    | ok content =>
      cases content with
      | none => exact .done _
      | some content => exact enters tracker pushed content

/-- The slot values below a document are resolved with what is below them. -/
def SlotsEnter (resolve : Resolver) (o : Options) (d : Document)
    (slots : List (Scalar × Slot)) : Prop :=
  ∀ name value, slots.lookup name = some value → ∀ {w : Whereabouts} {here : Position},
    w.At resolve o d (some value) here → w.Enters resolve o d (Engine.slot resolve o value here)

section document

variable {w : Whereabouts} {slots : List (Scalar × Slot)} {here : Position}

/-- An outlet of some content is resolved when it is entered. -/
theorem outlet_enters (within : w.Within resolve o d slots here)
    (below : SlotsEnter resolve o d slots) (name : Text) :
    w.Enters resolve o d (Engine.resolveOutlet (.ofOptions o)
      (fun name => (slots.lookup (.text name)).map (Engine.slot resolve o)) here name) := by
  have at_value := within.opened name
  have unfolded : Engine.resolveOutlet (.ofOptions o)
      (fun name => (slots.lookup (.text name)).map (Engine.slot resolve o)) here name =
        .note (.opened name) ((Engine.outlet resolve o name (slots.lookup (.text name)) here).bind
          fun outcome => .note (.closed name) (.done outcome)) := by
    simp only [Engine.resolveOutlet]
    cases slots.lookup (.text name) <;> rfl
  -- That the state is restored is needed for the note that the outlet is left.
  have resolved : ({ w with outlets := w.outlets ++ [name] } : Whereabouts).Enters resolve o d
      (Engine.outlet resolve o name (slots.lookup (.text name)) here) ∧
      (chainMonitor resolve o d).Restores { w with outlets := w.outlets ++ [name] }
        (Engine.outlet resolve o name (slots.lookup (.text name)) here) := by
    cases found : slots.lookup (.text name) with
    | some value =>
      rw [found] at at_value
      exact ⟨below _ value found at_value, slot_restores value at_value⟩
    | none =>
      refine ⟨.note (outletDuty_of_ne (by simp)) ?_, .note (at_value.allows ⟨by simp, ?_⟩) ?_⟩
      · cases (Rules.ofOptions o).onMissingSlot <;> exact .done _
      · exact (around_eq at_value).symm
      · cases (Rules.ofOptions o).onMissingSlot <;> exact .done rfl
  rw [unfolded]
  refine .note (fun entered same => ?_) ?_
  · obtain rfl : name = entered := by simpa using same
    exact ⟨_, here, .done, at_value, rfl⟩
  · exact resolved.1.after outletDuty_stable resolved.2 fun outcome =>
      .note (outletDuty_of_ne (by simp)) (.done _)

/-- So are the outlets of some content. -/
theorem fill_enters (within : w.Within resolve o d slots here)
    (below : SlotsEnter resolve o d slots) (content : Content) :
    w.Enters resolve o d (Engine.fill (.ofOptions o)
      (fun name => (slots.lookup (.text name)).map (Engine.slot resolve o)) content here) := by
  cases content with
  | other kindName => exact .done _
  | text text =>
    simp only [Engine.fill, Engine.fillText]
    split
    · exact .done _
    · refine .gather outletDuty_stable (fun p mem => ?_) (fun p mem => ?_) fun results => ?_
      · obtain ⟨name, -, rfl⟩ := List.mem_map.mp mem
        exact outlet_enters within below name
      · obtain ⟨name, -, rfl⟩ := List.mem_map.mp mem
        exact outlet_restores within (fun _ value _ _ _ => slot_restores value) name
      · obtain ⟨outcome, splice_eq⟩ := Engine.splice_done (Template.ofText text)
          (Engine.resultOf (Template.ofText text).names results)
        rw [splice_eq]
        exact .done _

/-- The outlets of a document are resolved when they are entered. -/
theorem compose_enters {body : Body}
    (at_value : w.At resolve o d (some (.document body slots)) here)
    (below : SlotsEnter resolve o d slots) (inSlot : Bool) :
    w.Enters resolve o d
      (Engine.compose resolve o body (Engine.slots resolve o slots) here inSlot) := by
  have place := at_value.place
  simp only [Engine.compose, Engine.lookup_slots]
  cases body with
  | text t =>
    refine fill_enters ⟨at_value.toSound, ?_, ?_⟩ below (.text t)
    · rw [place]
      rfl
    · rw [place]
      simp [Place.inner, Place.own]
  | source path =>
    have own : (d.place resolve o w.outlets).own resolve o =
        [Engine.sourcePath resolve o path here.document] := by
      rw [place, at_value.document]
      rfl
    have within (tracker : Tracker) (pushed : w.tracker.push
        (Engine.sourcePath resolve o path here.document) = .ok tracker) :
        ({ w with tracker } : Whereabouts).Within resolve o d slots
          { tracker, document := some (Engine.sourcePath resolve o path here.document) } := by
      refine ⟨at_value.toSound.entered pushed, ?_, ?_⟩
      · rw [place]
        rfl
      · obtain ⟨-, -, rfl⟩ := Tracker.push_eq_ok.mp pushed
        rw [Place.inner, own, place]
    exact withSource_enters at_value own
      (fun tracker pushed content => fill_restores (within tracker pushed)
        (fun _ value _ _ _ => slot_restores value) content)
      fun tracker pushed content => fill_enters (within tracker pushed) below content

/-- The outlets below a slot value are resolved when they are entered. -/
theorem slot_enters (value : Slot) {w : Whereabouts} {here : Position}
    (at_value : w.At resolve o d (some value) here) :
    w.Enters resolve o d (Engine.slot resolve o value here) := by
  induction value using Slot.induct generalizing w here with
  | literal t => exact .done _
  | source path =>
    have own : (d.place resolve o w.outlets).own resolve o =
        [Engine.sourcePath resolve o path here.document] := by
      rw [at_value.place, at_value.document]
      rfl
    rw [Engine.slot]
    exact withSource_enters at_value own (fun tracker pushed content => .done rfl)
      fun tracker pushed content => .done _
  | callback c =>
    have failed (w : Whereabouts) (fault : CallbackFault) :
        w.Enters resolve o d (Engine.callFailed (.ofOptions o) fault here) := by
      refine .note (outletDuty_of_ne (by simp)) ?_
      split
      · exact .done _
      · exact .done _
    refine .ask (fun _ => outletDuty_of_ne (by simp)) fun answer => ?_
    cases answer with
    | error reason => exact failed _ _
    | ok content =>
      cases content with
      | text t => exact .done _
      | other kindName => exact failed _ _
  | document body slots ih =>
    exact compose_enters at_value (fun name value found _ _ at_value =>
      ih name value found at_value) true

end document

/-- A branch that enters an outlet of a document resolves what is at its place, with
    the chain of the place, and then leaves the outlet. -/
theorem entered_outlet {es : List Process.Exchange} {name : Text}
    {next : (Request.note (.opened name)).Answer → Process}
    (branch : Process.Branch (Engine.document resolve o d) es (.ask (.note (.opened name)) next)) :
    (⟨(whereabouts o es).outlets ++ [name], (whereabouts o es).tracker⟩ : Whereabouts).Resolves
      resolve o d name (next ()) := by
  have enters : Whereabouts.Enters resolve o d ⟨[], .empty (.whole o.maxDepth)⟩
      (Engine.document resolve o d) :=
    compose_enters ⟨⟨rfl, rfl, rfl, List.nodup_nil, Nat.zero_le _⟩, rfl⟩
      (fun _ value _ _ _ => slot_enters value) false
  cases enters.branch branch with
  | ask on _ => exact on () name rfl

end outlets

end MarkdownOutlets
