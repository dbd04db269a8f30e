import MarkdownOutlets.Composition.Engine
import MarkdownOutlets.Proofs.Process.Monitor

/-! # The chain of sources

  While a document is composed, every branch has a chain: the sources that
  joined it by the branch's own steps, or before the branch was forked off,
  and have not left it. The tree of documents says what the chain should be:
  at each place of the tree, the sources of the documents around it.

  The main statement, `active_chain`, says that a branch always has the chain
  of the place at which it is. Nothing depends on what the host answers, on
  the cache, or on the steps of other branches.
-/

namespace MarkdownOutlets

/-! ### Places in a tree of documents -/

/-- A place in a tree of documents. -/
structure Place where
  /-- The slot value there, or `none` for an outlet without one. -/
  value : Option Slot
  /-- The sources of the documents around it, the outermost first. -/
  around : List Text

section places

variable (resolve : Resolver) (o : Options)

namespace Place

/-- The path of the source whose text is obtained at the place, if any. -/
def own (p : Place) : List Text :=
  match p.value with
  | some (.source path) => [Engine.sourcePath resolve o path p.around.getLast?]
  | some (.document (.source path) _) => [Engine.sourcePath resolve o path p.around.getLast?]
  | _ => []

/-- The sources around the places below. -/
def inner (p : Place) : List Text := p.around ++ p.own resolve o

/-- The slot values at the places below. -/
def slots (p : Place) : List (Scalar × Slot) :=
  match p.value with
  | some (.document _ slots) => slots
  | _ => []

/-- The place of an outlet, one level below. -/
def down (p : Place) (name : Text) : Place where
  value := p.slots.lookup (.text name)
  around := p.inner resolve o

end Place

/-- The place that is reached through outlets of the given names. -/
def Document.place (d : Document) (names : List Text) : Place :=
  names.foldl (Place.down resolve o) { value := some d.toSlot, around := [] }

end places

/-! ### Where a branch is -/

/-- Where a branch is. -/
structure Whereabouts where
  /-- The names of the outlets that it is in, the outermost first. -/
  outlets : List Text
  /-- Its tracker. -/
  tracker : Tracker

namespace Whereabouts

/-- The whereabouts after a request. Whoever enters or leaves an outlet, or
    lets a source join or leave the chain, takes a note of it. -/
def next (w : Whereabouts) : Request → Whereabouts
  | .note (.opened name) => { w with outlets := w.outlets ++ [name] }
  | .note (.closed _) => { w with outlets := w.outlets.dropLast }
  | .note (.entered path _) =>
    match w.tracker.push path with
    | .ok tracker => { w with tracker }
    | .error _ => w
  | .note (.left _ _) => { w with tracker := w.tracker.pop }
  | _ => w

end Whereabouts

section chain

variable (resolve : Resolver) (o : Options) (d : Document)

/-- The request is the one of a branch at the place, with the chain. Each
    request has its own time: that of a source is obtained only with the source
    itself as the innermost one of the chain, which it may join just once and
    below the limit; slot values are resolved, and left again, with the sources
    around them. -/
def Place.Suits (p : Place) (outlets chain : List Text) : Request → Prop
  | .lookUp path | .probe path | .read path | .remember path _ | .note (.recalled path) =>
    p.own resolve o = [path] ∧ chain = p.around ++ [path] ∧
      path ∉ p.around ∧ p.around.length < o.maxDepth
  | .call _ => chain = p.around
  | .note (.opened _) => chain = p.inner resolve o
  | .note (.closed name) => outlets.getLast? = some name ∧ chain = p.around
  | .note (.entered path depth) =>
    p.own resolve o = [path] ∧ chain = p.around ∧
      path ∉ p.around ∧ p.around.length < o.maxDepth ∧ depth = p.around.length + 1
  | .note (.left path depth) =>
    p.own resolve o = [path] ∧ chain = p.around ++ [path] ∧ depth = p.around.length
  | .note (.problem (.cycle loop path)) =>
    p.own resolve o = [path] ∧ chain = p.around ∧
      path ∈ p.around ∧ loop = p.around.dropWhile (· != path)
  | .note (.problem (.depth stack _ path)) =>
    p.own resolve o = [path] ∧ chain = p.around ∧ o.maxDepth ≤ p.around.length ∧ stack = p.around
  | .note (.problem (.source _)) => chain = p.inner resolve o
  | .note (.problem (.missingSlot name _)) => outlets.getLast? = some name ∧ chain = p.around
  | .note (.problem (.callback ..)) => chain = p.around

/-- The monitor of the chain. -/
def chainMonitor : Monitor Whereabouts where
  allows w request :=
    w.tracker.chain.Nodup ∧ w.tracker.chain.length ≤ o.maxDepth ∧
      (d.place resolve o w.outlets).Suits resolve o w.outlets w.tracker.chain request
  next w request _ := w.next request
  forks := o.parallel = true

variable {resolve o d}

/-- A branch is where its position says. -/
structure Whereabouts.Sound (o : Options) (w : Whereabouts) (here : Position) : Prop where
  /-- Its tracker is that of the position. -/
  tracker : here.tracker = w.tracker
  /-- The innermost source is that of the position. -/
  document : here.document = w.tracker.chain.getLast?
  /-- The limit is the one of the options. -/
  limit : w.tracker.limit = .whole o.maxDepth
  /-- No source is in the chain twice. -/
  nodup : w.tracker.chain.Nodup
  /-- The chain is not longer than the limit. -/
  short : w.tracker.chain.length ≤ o.maxDepth

/-- A branch is about to resolve a slot value. -/
structure Whereabouts.At (resolve : Resolver) (o : Options) (d : Document) (w : Whereabouts)
    (value : Option Slot) (here : Position) : Prop extends w.Sound o here where
  /-- The place is that of the value, and the chain that of the place. -/
  place : d.place resolve o w.outlets = { value, around := w.tracker.chain }

/-- A branch is about to resolve outlets of a text. -/
structure Whereabouts.Within (resolve : Resolver) (o : Options) (d : Document) (w : Whereabouts)
    (slots : List (Scalar × Slot)) (here : Position) : Prop extends w.Sound o here where
  /-- The slot values below the place. -/
  slots : (d.place resolve o w.outlets).slots = slots
  /-- The chain is that of the places below. -/
  inner : w.tracker.chain = (d.place resolve o w.outlets).inner resolve o

namespace Whereabouts

/-- To enter an outlet leads to the place of its slot value. -/
theorem Within.opened {w : Whereabouts} {slots : List (Scalar × Slot)} {here : Position}
    (within : w.Within resolve o d slots here) (name : Text) :
    ({ w with outlets := w.outlets ++ [name] } : Whereabouts).At resolve o d
      (slots.lookup (.text name)) here where
  toSound := ⟨within.tracker, within.document, within.limit, within.nodup, within.short⟩
  place := by
    have slots_eq := within.slots
    have inner_eq := within.inner
    unfold Document.place at slots_eq inner_eq ⊢
    rw [List.foldl_append]
    simp only [List.foldl_cons, List.foldl_nil, Place.down]
    rw [slots_eq, inner_eq]

/-- The limit is not reached when a source may join the chain. -/
theorem Sound.lt_of_not_reached {w : Whereabouts} {here : Position} (sound : w.Sound o here)
    (h : w.tracker.limit.reached w.tracker.depth = false) : w.tracker.chain.length < o.maxDepth := by
  rw [sound.limit, Limit.reached_whole, decide_eq_false_iff_not, Tracker.depth] at h
  omega

/-- A source that joins the chain. -/
theorem Sound.entered {w : Whereabouts} {here : Position} (sound : w.Sound o here) {path : Text}
    {tracker : Tracker} (h : w.tracker.push path = .ok tracker) :
    ({ w with tracker } : Whereabouts).Sound o { tracker, document := some path } := by
  obtain ⟨not_reached, not_mem, rfl⟩ := Tracker.push_eq_ok.mp h
  have lt := sound.lt_of_not_reached not_reached
  refine ⟨rfl, by simp, sound.limit, ?_, ?_⟩
  · rw [List.nodup_append]
    refine ⟨sound.nodup, by simp, ?_⟩
    intro q mem q' mem'
    rw [List.mem_singleton.mp mem']
    rintro rfl
    exact not_mem mem
  · rw [List.length_append, List.length_singleton]
    omega

end Whereabouts

/-! ### The engine keeps to the chain -/

/-- What suits the place is allowed. -/
theorem Whereabouts.Sound.allows {w : Whereabouts} {here : Position} (sound : w.Sound o here)
    {request : Request}
    (suits : (d.place resolve o w.outlets).Suits resolve o w.outlets w.tracker.chain request) :
    (chainMonitor resolve o d).allows w request :=
  ⟨sound.nodup, sound.short, suits⟩

/-- The text of a source is obtained by a branch with the source as the
    innermost one of its chain. -/
theorem load_restores {w : Whereabouts} {here : Position} (sound : w.Sound o here) {path : Text}
    (own : (d.place resolve o w.outlets).own resolve o = [path])
    (chain : w.tracker.chain = (d.place resolve o w.outlets).around ++ [path])
    (not_around : path ∉ (d.place resolve o w.outlets).around)
    (room : (d.place resolve o w.outlets).around.length < o.maxDepth) (rules : Rules) :
    (chainMonitor resolve o d).Restores w (Engine.load rules path) := by
  -- The place and the chain are the same at each of the requests.
  have inner : w.tracker.chain = (d.place resolve o w.outlets).inner resolve o := by
    rw [Place.inner, own, chain]
  have failed (fault : SourceFault) :
      (chainMonitor resolve o d).Restores w (Engine.sourceFailed rules fault) := by
    refine .note (sound.allows inner) ?_
    split
    · exact .done rfl
    · exact .done rfl
  have kept (t : Text) : (chainMonitor resolve o d).Restores w (Engine.keep rules path t) := by
    unfold Engine.keep
    split
    · exact .done rfl
    · exact .ask (sound.allows ⟨own, chain, not_around, room⟩) fun _ => .done rfl
    · exact .done rfl
  have fetched : (chainMonitor resolve o d).Restores w (Engine.fetch rules path) := by
    refine .ask (sound.allows ⟨own, chain, not_around, room⟩) fun answer => ?_
    match answer with
    | .error fault => exact failed _
    | .ok false => exact failed _
    | .ok true =>
      refine .ask (sound.allows ⟨own, chain, not_around, room⟩) fun answer => ?_
      match answer with
      | .error fault => exact failed _
      | .ok t => exact kept t
  unfold Engine.load
  split
  · exact fetched
  · refine .ask (sound.allows ⟨own, chain, not_around, room⟩) fun answer => ?_
    match answer with
    | none => exact fetched
    | some v =>
      refine .note (sound.allows ⟨own, chain, not_around, room⟩) ?_
      split
      · exact .done rfl
      · exact .done rfl
  · split
    · exact .done rfl
    · exact fetched

section source

variable {w : Whereabouts} {value : Option Slot} {here : Position}
  (at_value : w.At resolve o d value here) {source : Text}
  (own : (d.place resolve o w.outlets).own resolve o = [source])

include at_value

theorem around_eq : (d.place resolve o w.outlets).around = w.tracker.chain := by
  rw [at_value.place]

include own

/-- A source that may not join the chain is around already, or there is no room
    for it. -/
theorem refused_suits {problem : Problem} (refused : w.tracker.push source = .error problem) :
    (d.place resolve o w.outlets).Suits resolve o w.outlets w.tracker.chain
      (.note (.problem problem)) := by
  have around := around_eq at_value
  rcases Tracker.push_eq_error.mp refused with ⟨reached, rfl⟩ | ⟨-, mem, rfl⟩
  · rw [at_value.limit, Limit.reached_whole, decide_eq_true_eq, Tracker.depth] at reached
    refine ⟨own, around.symm, ?_, around.symm⟩
    rw [around]
    omega
  · exact ⟨own, around.symm, around ▸ mem, by rw [around]⟩

/-- The text of a source that joined the chain is obtained with it in the chain. -/
theorem entered_load_restores {tracker : Tracker} (pushed : w.tracker.push source = .ok tracker)
    (rules : Rules) :
    (chainMonitor resolve o d).Restores { w with tracker } (Engine.load rules source) := by
  obtain ⟨not_reached, not_mem, tracker_eq⟩ := Tracker.push_eq_ok.mp pushed
  have around := around_eq at_value
  have chain : tracker.chain = (d.place resolve o w.outlets).around ++ [source] := by
    rw [tracker_eq, around]
  have not_around : source ∉ (d.place resolve o w.outlets).around := around ▸ not_mem
  have room : (d.place resolve o w.outlets).around.length < o.maxDepth :=
    around ▸ at_value.lt_of_not_reached not_reached
  exact load_restores (at_value.toSound.entered pushed) own chain not_around room rules

/-- Whatever happens with a source in the chain, the chain is the same at its end. -/
theorem used_restores {tracker : Tracker} (pushed : w.tracker.push source = .ok tracker)
    (rules : Rules) {use : Content → Process}
    (used : ∀ content, (chainMonitor resolve o d).Restores { w with tracker } (use content)) :
    (chainMonitor resolve o d).Restores { w with tracker }
      ((Engine.load rules source).bind fun
        | .error fault => .fail fault
        | .ok none => .text []
        | .ok (some content) => use content) := by
  refine (entered_load_restores at_value own pushed rules).after fun outcome => ?_
  match outcome with
  | .error fault => exact .done rfl
  | .ok none => exact .done rfl
  | .ok (some content) => exact used content

/-- A source joins the chain, is used, and leaves the chain again. -/
theorem joined_restores {tracker : Tracker} (pushed : w.tracker.push source = .ok tracker)
    (rules : Rules) {use : Content → Process}
    (used : ∀ content, (chainMonitor resolve o d).Restores { w with tracker } (use content)) :
    (chainMonitor resolve o d).Restores w
      (.note (.entered source tracker.depth) <|
        ((Engine.load rules source).bind fun
          | .error fault => .fail fault
          | .ok none => .text []
          | .ok (some content) => use content).bind
            fun outcome => .note (.left source w.tracker.depth) (.done outcome)) := by
  obtain ⟨not_reached, not_mem, tracker_eq⟩ := Tracker.push_eq_ok.mp pushed
  have around := around_eq at_value
  have sound := at_value.toSound.entered pushed
  have chain : tracker.chain = (d.place resolve o w.outlets).around ++ [source] := by
    rw [tracker_eq, around]
  have not_around : source ∉ (d.place resolve o w.outlets).around := around ▸ not_mem
  have room : (d.place resolve o w.outlets).around.length < o.maxDepth :=
    around ▸ at_value.lt_of_not_reached not_reached
  have depth : tracker.depth = (d.place resolve o w.outlets).around.length + 1 := by
    rw [Tracker.depth, chain, List.length_append, List.length_singleton]
  have after_entered : (chainMonitor resolve o d).next w
      (.note (.entered source tracker.depth)) () = { w with tracker } := by
    simp only [chainMonitor, Whereabouts.next, pushed]
  have inside := used_restores at_value own pushed rules used
  refine .note (at_value.allows ⟨own, around.symm, not_around, room, depth⟩) ?_
  rw [after_entered]
  refine inside.after fun outcome => .note (sound.allows ⟨own, chain, ?_⟩) (.done ?_)
  · rw [around, Tracker.depth]
  · simp only [chainMonitor, Whereabouts.next, Tracker.pop_of_push pushed]

/-- A source joins the chain, if it may, and has left it at the end. -/
theorem withSource_restores {rules : Rules} {inSlot : Bool} {use : Content → Position → Process}
    (used : ∀ tracker, w.tracker.push source = .ok tracker → ∀ content,
      (chainMonitor resolve o d).Restores { w with tracker }
        (use content { tracker, document := some source })) :
    (chainMonitor resolve o d).Restores w (Engine.withSource rules source here inSlot use) := by
  unfold Engine.withSource
  rw [at_value.tracker]
  cases pushed : w.tracker.push source with
  | error problem =>
    refine .note (at_value.allows (refused_suits at_value own pushed)) ?_
    split
    · exact .done rfl
    · exact .done rfl
  | ok tracker => exact joined_restores at_value own pushed rules (used tracker pushed)

end source

/-- The outlets of a name, when the slot values below are resolved with the chains of
    their places. The outlet has its place one level below, with the same chain. -/
theorem outlet_restores {w : Whereabouts} {slots : List (Scalar × Slot)} {here : Position}
    (within : w.Within resolve o d slots here)
    (below : ∀ name value, slots.lookup name = some value → ∀ {w : Whereabouts} {here : Position},
      w.At resolve o d (some value) here →
        (chainMonitor resolve o d).Restores w (Engine.slot resolve o value here))
    (name : Text) :
    (chainMonitor resolve o d).Restores w
      (Engine.resolveOutlet (.ofOptions o)
        (fun name => (slots.lookup (.text name)).map (Engine.slot resolve o)) here name) := by
  have at_value := within.opened name
  have around : w.tracker.chain = (d.place resolve o (w.outlets ++ [name])).around :=
    (around_eq at_value).symm
  simp only [Engine.resolveOutlet]
  refine .note (within.allows within.inner) (.after (w := { w with outlets := w.outlets ++ [name] })
    ?_ fun outcome => ?_)
  · cases found : slots.lookup (.text name) with
    | some value =>
      rw [found] at at_value
      exact below _ value found at_value
    | none =>
      refine .note (at_value.allows ⟨by simp, around⟩) ?_
      cases (Rules.ofOptions o).onMissingSlot <;> exact .done rfl
  · refine .note (at_value.allows ⟨by simp, around⟩) (.done ?_)
    simp [chainMonitor, Whereabouts.next]

/-- The outlets of some content, when the slot values below are resolved with
    the chains of their places. -/
theorem fill_restores {w : Whereabouts} {slots : List (Scalar × Slot)} {here : Position}
    (within : w.Within resolve o d slots here)
    (below : ∀ name value, slots.lookup name = some value → ∀ {w : Whereabouts} {here : Position},
      w.At resolve o d (some value) here →
        (chainMonitor resolve o d).Restores w (Engine.slot resolve o value here))
    (content : Content) :
    (chainMonitor resolve o d).Restores w
      (Engine.fill (.ofOptions o)
        (fun name => (slots.lookup (.text name)).map (Engine.slot resolve o)) content here) := by
  cases content with
  | other kindName => exact .done rfl
  | text text =>
    simp only [Engine.fill, Engine.fillText]
    split
    · exact .done rfl
    · refine .gather (fun parallel => parallel) (fun p mem => ?_) fun results => ?_
      · obtain ⟨name, -, rfl⟩ := List.mem_map.mp mem
        exact outlet_restores within below name
      · obtain ⟨outcome, splice_eq⟩ := Engine.splice_done (Template.ofText text)
          (Engine.resultOf (Template.ofText text).names results)
        rw [splice_eq]
        exact .done rfl

/-- The body of a document is composed with the chain of its place. -/
theorem compose_restores {body : Body} {slots : List (Scalar × Slot)} {w : Whereabouts}
    {here : Position} (at_value : w.At resolve o d (some (.document body slots)) here)
    (below : ∀ name value, slots.lookup name = some value → ∀ {w : Whereabouts} {here : Position},
      w.At resolve o d (some value) here →
        (chainMonitor resolve o d).Restores w (Engine.slot resolve o value here))
    (inSlot : Bool) :
    (chainMonitor resolve o d).Restores w
      (Engine.compose resolve o body (Engine.slots resolve o slots) here inSlot) := by
  have place := at_value.place
  simp only [Engine.compose, Engine.lookup_slots]
  cases body with
  | text t =>
    refine fill_restores ⟨at_value.toSound, ?_, ?_⟩ below (.text t)
    · rw [place]
      rfl
    · rw [place]
      simp [Place.inner, Place.own]
  | source path =>
    have own : (d.place resolve o w.outlets).own resolve o =
        [Engine.sourcePath resolve o path here.document] := by
      rw [place, at_value.document]
      rfl
    refine withSource_restores at_value own fun tracker pushed content => ?_
    refine fill_restores ⟨at_value.toSound.entered pushed, ?_, ?_⟩ below content
    · rw [place]
      rfl
    · obtain ⟨-, -, rfl⟩ := Tracker.push_eq_ok.mp pushed
      rw [Place.inner, own, place]

/-- A slot value is resolved with the chain of its place. -/
theorem slot_restores (value : Slot) {w : Whereabouts} {here : Position}
    (at_value : w.At resolve o d (some value) here) :
    (chainMonitor resolve o d).Restores w (Engine.slot resolve o value here) := by
  induction value using Slot.induct generalizing w here with
  | literal t => exact .done rfl
  | source path =>
    have own : (d.place resolve o w.outlets).own resolve o =
        [Engine.sourcePath resolve o path here.document] := by
      rw [at_value.place, at_value.document]
      rfl
    rw [Engine.slot]
    exact withSource_restores at_value own fun tracker pushed content => .done rfl
  | callback c =>
    have around := (around_eq at_value).symm
    have failed (fault : CallbackFault) : (chainMonitor resolve o d).Restores w
        (Engine.callFailed (.ofOptions o) fault here) := by
      refine .note (at_value.allows around) ?_
      split
      · exact .done rfl
      · exact .done rfl
    refine .ask (at_value.allows around) fun answer => ?_
    match answer with
    | .ok (.text t) => exact .done rfl
    | .ok (.other kindName) => exact failed _
    | .error reason => exact failed _
  | document body slots ih =>
    exact compose_restores at_value (fun name value found _ _ at_value =>
      ih name value found at_value) true

/-- A document is composed from an empty chain. -/
theorem document_restores (resolve : Resolver) (o : Options) (d : Document) :
    (chainMonitor resolve o d).Restores { outlets := [], tracker := .empty (.whole o.maxDepth) }
      (Engine.document resolve o d) := by
  refine compose_restores ⟨⟨rfl, rfl, rfl, ?_, ?_⟩, rfl⟩ (fun name value _ w here => ?_) false
  · exact List.nodup_nil
  · exact Nat.zero_le _
  · exact slot_restores value

end chain

/-! ### The chain of every branch -/

/-- The whereabouts of a branch, after the exchanges on its line. -/
def whereabouts (o : Options) (es : List Process.Exchange) : Whereabouts :=
  es.foldl (fun w e => w.next e.request) { outlets := [], tracker := .empty (.whole o.maxDepth) }

/-- The chain of a place is that of the sources around it, with the own source
    of the place or without. -/
theorem Place.Suits.chain_eq {resolve : Resolver} {o : Options} {p : Place}
    {outlets chain : List Text} {request : Request}
    (h : p.Suits resolve o outlets chain request) :
    chain = p.around ∨ chain = p.inner resolve o := by
  have with_own {path : Text} (own : p.own resolve o = [path]) (eq : chain = p.around ++ [path]) :
      chain = p.around ∨ chain = p.inner resolve o := by
    right
    rw [eq, Place.inner, own]
  match request, h with
  | .lookUp _, ⟨own, eq, _⟩ => exact with_own own eq
  | .probe _, ⟨own, eq, _⟩ => exact with_own own eq
  | .read _, ⟨own, eq, _⟩ => exact with_own own eq
  | .remember .., ⟨own, eq, _⟩ => exact with_own own eq
  | .note (.recalled _), ⟨own, eq, _⟩ => exact with_own own eq
  | .note (.left ..), ⟨own, eq, _⟩ => exact with_own own eq
  | .call _, eq => exact .inl eq
  | .note (.opened _), eq => exact .inr eq
  | .note (.closed _), ⟨_, eq⟩ => exact .inl eq
  | .note (.entered ..), ⟨_, eq, _⟩ => exact .inl eq
  | .note (.problem (.cycle ..)), ⟨_, eq, _⟩ => exact .inl eq
  | .note (.problem (.depth ..)), ⟨_, eq, _⟩ => exact .inl eq
  | .note (.problem (.source _)), eq => exact .inr eq
  | .note (.problem (.missingSlot ..)), ⟨_, eq⟩ => exact .inl eq
  | .note (.problem (.callback ..)), eq => exact .inl eq

/-- What is known of the chains while a document is composed. -/
structure ChainKept (resolve : Resolver) (o : Options) (d : Document) : Prop where
  /-- A branch that makes a request has the chain of its place, which holds no
      source twice and is not longer than the limit. -/
  request : ∀ {es : List Process.Exchange} {request : Request} {next : request.Answer → Process},
    Process.Branch (Engine.document resolve o d) es (.ask request next) →
      let w := whereabouts o es
      let place := d.place resolve o w.outlets
      w.tracker.chain.Nodup ∧ w.tracker.chain.length ≤ o.maxDepth ∧
        (w.tracker.chain = place.around ∨ w.tracker.chain = place.inner resolve o) ∧
        place.Suits resolve o w.outlets w.tracker.chain request
  /-- When an outlet was resolved, or that failed, the chain is the one with
      which it began. -/
  outlet : ∀ {es fs : List Process.Exchange} {name : Text}
      {next : (Request.note (.opened name)).Answer → Process}
      {next' : (Request.note (.closed name)).Answer → Process},
    Process.Branch (Engine.document resolve o d) es (.ask (.note (.opened name)) next) →
    Process.Branch (Engine.document resolve o d) fs (.ask (.note (.closed name)) next') →
    (whereabouts o fs).outlets = (whereabouts o es).outlets ++ [name] →
      (whereabouts o fs).tracker.chain = (whereabouts o es).tracker.chain
  /-- A branch ends where it was forked off, and with the same chain. -/
  branch : ∀ {es fs : List Process.Exchange} {branches : List Process}
      {next : List Outcome → Process} {b : Process} {outcome : Outcome},
    Process.Branch (Engine.document resolve o d) es (.all branches next) → b ∈ branches →
    Process.Line b fs (.done outcome) → whereabouts o (es ++ fs) = whereabouts o es
  /-- The whole composition ends with the empty chain with which it starts. -/
  whole : ∀ {es : List Process.Exchange} {outcome : Outcome},
    Process.Line (Engine.document resolve o d) es (.done outcome) →
      whereabouts o es = { outlets := [], tracker := .empty (.whole o.maxDepth) }
  /-- Nothing is asked beside the lines of the branches, in any interleaving. -/
  interleaved : ∀ {σ : Type} {answer : (request : Request) → StateM σ request.Answer} {s t : σ}
      {q : Process} {request : Request} {next : request.Answer → Process},
    Process.Steps answer (Engine.document resolve o d) s q t → Process.Asks q request next →
      ∃ es, Process.Branch (Engine.document resolve o d) es (.ask request next)

/-- While a document is composed, every branch has the chain of its place in
    the tree of documents: whatever the answers are, in every interleaving, and
    also when a fault ends the composition. -/
theorem active_chain (resolve : Resolver) (o : Options) (d : Document) :
    ChainKept resolve o d := by
  have restores := document_restores resolve o d
  have request {es : List Process.Exchange} {request : Request} {next : request.Answer → Process}
      (branch : Process.Branch (Engine.document resolve o d) es (.ask request next)) :
      (chainMonitor resolve o d).allows (whereabouts o es) request := by
    obtain ⟨Φ, accepts⟩ := restores.branch branch
    cases accepts with
    | ask allowed => exact allowed
  constructor
  case request =>
    intro es r next branch
    obtain ⟨nodup, short, suits⟩ := request branch
    exact ⟨nodup, short, suits.chain_eq, suits⟩
  case outlet =>
    intro es fs name next next' opened closed outlets
    -- The chain around an outlet is the one inside the place above.
    obtain ⟨-, -, inner⟩ := request opened
    obtain ⟨-, -, -, around⟩ := request closed
    rw [around, inner, outlets]
    unfold Document.place
    rw [List.foldl_append]
    rfl
  case branch =>
    intro es fs branches next b outcome forked mem line
    exact restores.branch_ends forked mem line
  case whole =>
    intro es outcome line
    cases restores.line line with
    | done holds => exact holds
  case interleaved =>
    intro σ answer s t q request next steps asks
    exact steps.exists_branch asks

end MarkdownOutlets
