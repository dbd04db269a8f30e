import Mathlib.Data.List.Induction
import Mathlib.Order.Bounds.Basic
import MarkdownOutlets.Proofs.Composition.ActiveChain
import MarkdownOutlets.Proofs.Composition.Parallel
import MarkdownOutlets.Proofs.Composition.SourcePaths
import MarkdownOutlets.Proofs.Process.Stopping

/-! # The limit on the depth

  The depth of a document is the greatest number of sources on a way down its
  tree. A document that is a text, at whatever place, does not count.

  The main statement, `depth_limit`, says what the limit of the options does.

  * A composition meets the limit only at a place with as many sources around
    it, so a limit that is not below the depth of the document is never met,
    whatever the sources hold.
  * A composition that does not meet the limit ends in the same way with any
    higher one.

  For the second part the two processes are compared request by request. They
  differ only from the first problem on that notes the limit.
-/

namespace MarkdownOutlets

/-! ### Ways down a document -/

/-- The paths of the sources on a way down a slot value, from the outermost to
    the innermost. -/
inductive Slot.Way : Slot → List Text → Prop
  /-- A text. -/
  | literal (t : Text) : Way (.literal t) []
  /-- A source. -/
  | source (path : Text) : Way (.source path) [path]
  /-- A function. -/
  | callback (c : Callback) : Way (.callback c) []
  /-- A document, and nothing below it. -/
  | here (body : Body) (slots : List (Scalar × Slot)) : Way (.document body slots) body.sourcePaths
  /-- A document, and then one of its slot values. -/
  | through (body : Body) {slots : List (Scalar × Slot)} {name : Scalar} {value : Slot}
      (mem : (name, value) ∈ slots) {paths : List Text} (way : Way value paths) :
      Way (.document body slots) (body.sourcePaths ++ paths)

mutual

/-- The depth of a slot value. -/
def Slot.nesting : Slot → Nat
  | .literal _ | .callback _ => 0
  | .source _ => 1
  | .document body slots => body.sourcePaths.length + Slots.nesting slots

/-- The greatest depth among slot values. -/
def Slots.nesting : List (Scalar × Slot) → Nat
  | [] => 0
  | (_, slot) :: rest => max slot.nesting (Slots.nesting rest)

end

/-- The depth of a document. -/
def Document.nesting (d : Document) : Nat := d.toSlot.nesting

theorem Slots.nesting_le_of_mem {slots : List (Scalar × Slot)} {name : Scalar} {value : Slot}
    (mem : (name, value) ∈ slots) : value.nesting ≤ Slots.nesting slots := by
  induction slots with
  | nil => cases mem
  | cons entry rest ih =>
    obtain ⟨key, first⟩ := entry
    rw [Slots.nesting]
    rcases List.mem_cons.mp mem with eq | mem
    · cases eq
      exact Nat.le_max_left _ _
    · exact (ih mem).trans (Nat.le_max_right _ _)

theorem Slot.Way.length_le {value : Slot} {paths : List Text} (way : value.Way paths) :
    paths.length ≤ value.nesting := by
  induction way with
  | literal t => exact Nat.zero_le _
  | source path => exact Nat.le_refl 1
  | callback c => exact Nat.zero_le _
  | here body slots =>
    rw [Slot.nesting]
    exact Nat.le_add_right _ _
  | through body mem way ih =>
    rw [Slot.nesting, List.length_append]
    exact Nat.add_le_add_left (ih.trans (Slots.nesting_le_of_mem mem)) _

mutual

theorem Slot.exists_way : (value : Slot) →
    ∃ paths, value.Way paths ∧ paths.length = value.nesting
  | .literal t => ⟨[], .literal t, rfl⟩
  | .source path => ⟨[path], .source path, rfl⟩
  | .callback c => ⟨[], .callback c, rfl⟩
  | .document body slots => by
    rcases Slots.exists_way slots with none_below | ⟨name, value, paths, mem, way, length_eq⟩
    · exact ⟨_, .here body slots, by rw [Slot.nesting, none_below, Nat.add_zero]⟩
    · exact ⟨_, .through body mem way, by rw [Slot.nesting, List.length_append, length_eq]⟩

theorem Slots.exists_way : (slots : List (Scalar × Slot)) →
    Slots.nesting slots = 0 ∨ ∃ name value paths, (name, value) ∈ slots ∧
      value.Way paths ∧ paths.length = Slots.nesting slots
  | [] => .inl rfl
  | (name, value) :: rest => by
    -- The greatest depth is that of the first value, or one of the others has it.
    obtain ⟨paths, way, length_eq⟩ := Slot.exists_way value
    rw [Slots.nesting]
    rcases Nat.le_total (Slots.nesting rest) value.nesting with le | le
    · rw [Nat.max_eq_left le]
      exact .inr ⟨name, value, paths, List.mem_cons_self, way, length_eq⟩
    · rw [Nat.max_eq_right le]
      rcases Slots.exists_way rest with none_below | ⟨name', value', paths', mem, way', eq'⟩
      · exact .inl none_below
      · exact .inr ⟨name', value', paths', List.mem_cons_of_mem _ mem, way', eq'⟩

end

/-- The depth of a document is the greatest number of sources on a way. -/
theorem Document.nesting_isGreatest (d : Document) :
    IsGreatest {n | ∃ paths, d.toSlot.Way paths ∧ paths.length = n} d.nesting := by
  constructor
  · exact d.toSlot.exists_way
  · intro n reached
    obtain ⟨paths, way, rfl⟩ := reached
    exact way.length_le

/-! ### Places are on a way -/

section places

variable (resolve : Resolver) (o : Options) (d : Document)

/-- A place is on a way with as many sources above it as are around it. -/
theorem Document.exists_way_to (names : List Text) :
    ∃ front : List Text, front.length = (d.place resolve o names).around.length ∧
      ∀ value, (d.place resolve o names).value = some value → ∀ paths, value.Way paths →
        d.toSlot.Way (front ++ paths) := by
  induction names using List.reverseRecOn with
  | nil =>
    refine ⟨[], rfl, ?_⟩
    intro value value_eq paths way
    cases value_eq
    exact way
  | append_singleton names name ih =>
    obtain ⟨front, length_eq, extends_way⟩ := ih
    have place_eq : d.place resolve o (names ++ [name]) =
        (d.place resolve o names).down resolve o name := by
      unfold Document.place
      rw [List.foldl_append]
      rfl
    rw [place_eq]
    generalize d.place resolve o names = p at length_eq extends_way
    obtain ⟨value, around⟩ := p
    simp only at length_eq extends_way
    -- Below anything but a document there is no value, and any list will do.
    have no_value (above : List Text) (below_eq : (Place.mk value around).slots = []) :
        ∃ front : List Text, front.length = above.length ∧
          ∀ v, (Place.mk value around).slots.lookup (.text name) = some v → ∀ paths, v.Way paths →
            d.toSlot.Way (front ++ paths) := by
      refine ⟨above, rfl, ?_⟩
      intro v found
      rw [below_eq] at found
      cases found
    rcases value with _ | ⟨t⟩ | ⟨path⟩ | ⟨c⟩ | ⟨body, slots⟩
    · exact no_value _ rfl
    · exact no_value _ rfl
    · exact no_value _ rfl
    · exact no_value _ rfl
    · refine ⟨front ++ body.sourcePaths, ?_, ?_⟩
      · cases body <;> simp [Place.down, Place.inner, Place.own, Body.sourcePaths, length_eq]
      · intro v found paths way
        obtain ⟨before, after, slots_eq, -⟩ := List.lookup_eq_some_iff.mp found
        have mem : (.text name, v) ∈ slots := by
          have slots_eq : slots = before ++ (.text name, v) :: after := slots_eq
          simp [slots_eq]
        have way' := extends_way _ rfl _ (.through body mem way)
        rwa [← List.append_assoc] at way'

/-- A source at a place is on a way, with the sources around it above. -/
theorem Document.exists_way_of_own {names : List Text} {path : Text}
    (own : (d.place resolve o names).own resolve o = [path]) :
    ∃ paths, d.toSlot.Way paths ∧ paths.length = (d.place resolve o names).around.length + 1 := by
  obtain ⟨front, length_eq, extends_way⟩ := d.exists_way_to resolve o names
  have one_more {value : Slot} (value_eq : (d.place resolve o names).value = some value)
      {last : Text} (way : value.Way [last]) : ∃ paths, d.toSlot.Way paths ∧
        paths.length = (d.place resolve o names).around.length + 1 := by
    refine ⟨_, extends_way value value_eq _ way, ?_⟩
    rw [List.length_append, length_eq, List.length_singleton]
  -- Only a source and a document read from one have a source of their own.
  unfold Place.own at own
  split at own
  case h_1 last value_eq => exact one_more value_eq (.source last)
  case h_2 last slots value_eq => exact one_more value_eq (.here (.source last) slots)
  case h_3 => cases own

end places

/-! ### The same document with a higher limit -/

/-- The position with another limit. -/
def Position.withLimit (here : Position) (limit : Limit) : Position :=
  { here with tracker := { here.tracker with limit } }

/-- The request notes that the limit was met. -/
def Request.MeetsLimit (request : Request) : Prop :=
  ∃ p, request = .note (.problem p) ∧ p.kind = .depth

/-- The outcome is not that the limit was met. -/
def Outcome.IsBelow (outcome : Outcome) : Prop :=
  ∀ p, outcome = .error (.problem p) → p.kind ≠ .depth

/-- The processes are the same up to the first problem that notes the limit. -/
abbrev SameBelow (p q : Process) : Prop := Process.Until Request.MeetsLimit Outcome.IsBelow p q

namespace SameBelow

theorem ok (content : Option Content) : SameBelow (.done (.ok content)) (.done (.ok content)) := by
  apply Process.Until.done
  intro p eq
  cases eq

theorem mismatch (m : Mismatch) : SameBelow (.fail (.mismatch m)) (.fail (.mismatch m)) := by
  apply Process.Until.done
  intro p eq
  cases eq

theorem problem {p : Problem} (other : p.kind ≠ .depth) :
    SameBelow (.fail (.problem p)) (.fail (.problem p)) := by
  apply Process.Until.done
  intro q eq
  cases eq
  exact other

section engine

variable {o : Options} {limit : Nat}

theorem sourceFailed (rules : Rules) (fault : SourceFault) :
    SameBelow (Engine.sourceFailed rules fault) (Engine.sourceFailed rules fault) := by
  apply Process.Until.note
  by_cases ends : rules.endsWithoutSource = true
  · rw [if_pos ends]
    exact problem (by rintro ⟨⟩)
  · rw [if_neg ends]
    exact ok none

theorem keep (rules : Rules) (path t : Text) :
    SameBelow (Engine.keep rules path t) (Engine.keep rules path t) := by
  unfold Engine.keep
  split
  · exact ok _
  · exact .ask fun _ => ok _
  · exact mismatch _

theorem fetch (rules : Rules) (path : Text) :
    SameBelow (Engine.fetch rules path) (Engine.fetch rules path) := by
  apply Process.Until.ask
  intro answer
  rcases answer with fault | _ | _
  · exact sourceFailed rules _
  · exact sourceFailed rules _
  · apply Process.Until.ask
    intro answer
    rcases answer with fault | t
    · exact sourceFailed rules _
    · exact keep rules path t

theorem load (rules : Rules) (path : Text) :
    SameBelow (Engine.load rules path) (Engine.load rules path) := by
  unfold Engine.load
  split
  · exact fetch rules path
  · apply Process.Until.ask
    intro answer
    rcases answer with _ | v
    · exact fetch rules path
    · apply Process.Until.note
      split
      · exact ok none
      · exact ok _
  · split
    · exact mismatch _
    · exact fetch rules path

/-- A chain that is below the limit takes or refuses a source in the same way
    when the limit is higher. -/
theorem push_withLimit (low : o.maxDepth ≤ limit) {t : Tracker}
    (t_limit : t.limit = .whole o.maxDepth) (path : Text) :
    (∃ p, t.push path = .error p ∧ p.kind = .depth) ∨
      (∃ loop, t.push path = .error (.cycle loop path) ∧
        ({ t with limit := .whole limit } : Tracker).push path = .error (.cycle loop path)) ∨
      ∃ t', t.push path = .ok t' ∧ t'.limit = .whole o.maxDepth ∧
        ({ t with limit := .whole limit } : Tracker).push path =
          .ok { t' with limit := .whole limit } := by
  -- A chain that has not reached the limit has not reached the higher one.
  have not_reached (h : t.limit.reached t.depth = false) :
      (Limit.whole limit).reached t.depth = false := by
    rw [t_limit, Limit.reached_whole, decide_eq_false_iff_not] at h
    rw [Limit.reached_whole, decide_eq_false_iff_not]
    omega
  cases pushed : t.push path with
  | error p =>
    rcases Tracker.push_eq_error.mp pushed with ⟨-, rfl⟩ | ⟨free, mem, rfl⟩
    · exact .inl ⟨_, rfl, rfl⟩
    · exact .inr (.inl ⟨_, rfl, Tracker.push_eq_error.mpr (.inr ⟨not_reached free, mem, rfl⟩)⟩)
  | ok t' =>
    obtain ⟨free, not_mem, rfl⟩ := Tracker.push_eq_ok.mp pushed
    exact .inr (.inr ⟨_, rfl, t_limit, Tracker.push_eq_ok.mpr ⟨not_reached free, not_mem, rfl⟩⟩)

/-- A source that joins the chain, if it may, and is used. -/
theorem withSource (low : o.maxDepth ≤ limit) (source : Text) {here : Position}
    (here_limit : here.tracker.limit = .whole o.maxDepth) (inSlot : Bool)
    {use use' : Content → Position → Process}
    (used : ∀ content here, here.tracker.limit = .whole o.maxDepth →
      SameBelow (use content here) (use' content (here.withLimit (.whole limit)))) :
    SameBelow (Engine.withSource (.ofOptions o) source here inSlot use)
      (Engine.withSource (.ofOptions { o with maxDepth := limit }) source
        (here.withLimit (.whole limit)) inSlot use') := by
  unfold Engine.withSource
  rcases push_withLimit low here_limit source with
    ⟨p, pushed, is_depth⟩ | ⟨loop, pushed, pushed'⟩ | ⟨tracker, pushed, tracker_limit, pushed'⟩
  · -- The first composition meets the limit, and nothing more is claimed.
    rw [pushed]
    exact .stoppedNote ⟨p, rfl, is_depth⟩ _ _
  · simp only [Position.withLimit, pushed, pushed']
    apply Process.Until.note
    show SameBelow (if inSlot && o.onMissingSlot = .error then _ else _)
      (if inSlot && o.onMissingSlot = .error then _ else _)
    by_cases ends : (inSlot && decide (o.onMissingSlot = .error)) = true
    · rw [if_pos ends]
      exact problem (by rintro ⟨⟩)
    · rw [if_neg ends]
      exact ok _
  · simp only [Position.withLimit, pushed, pushed']
    apply Process.Until.note
    apply Process.Until.bind
    · apply (load _ source).bind
      intro outcome holds
      rcases outcome with fault | _ | content
      · exact .done holds
      · exact ok _
      · exact used content _ tracker_limit
    · intro outcome holds
      exact .note (.done holds)

theorem missing (name : Text) (here : Position) :
    SameBelow (Engine.missing (.ofOptions o) name here)
      (Engine.missing (.ofOptions { o with maxDepth := limit }) name
        (here.withLimit (.whole limit))) := by
  apply Process.Until.note
  cases policy : o.onMissingSlot with
  | error =>
    simp only [Rules.ofOptions, policy]
    exact problem (by rintro ⟨⟩)
  | ignore =>
    simp only [Rules.ofOptions, policy]
    exact ok _
  | keep =>
    simp only [Rules.ofOptions, policy]
    exact ok _

theorem invoke (c : Callback) (here : Position) :
    SameBelow (Engine.invoke (.ofOptions o) c here)
      (Engine.invoke (.ofOptions { o with maxDepth := limit }) c
        (here.withLimit (.whole limit))) := by
  have failed (fault : CallbackFault) : SameBelow (Engine.callFailed (.ofOptions o) fault here)
      (Engine.callFailed (.ofOptions { o with maxDepth := limit }) fault
        (here.withLimit (.whole limit))) := by
    apply Process.Until.note
    show SameBelow (if (Rules.ofOptions o).marksFailedCall then _ else _)
      (if (Rules.ofOptions o).marksFailedCall then _ else _)
    by_cases marks : (Rules.ofOptions o).marksFailedCall = true
    · rw [if_pos marks]
      exact ok _
    · rw [if_neg marks]
      exact ok _
  apply Process.Until.ask
  intro answer
  rcases answer with reason | t | kindName
  · exact failed _
  · exact ok _
  · exact failed _

theorem splice (template : Template) (given : Text → Option Content) :
    SameBelow (Engine.splice template given) (Engine.splice template given) := by
  unfold Engine.splice
  split
  · exact mismatch _
  · exact ok _

section slots

variable {resolve : Resolver} {slots : List (Scalar × Slot)}
  (below : ∀ name value, slots.lookup name = some value → ∀ here : Position,
    here.tracker.limit = .whole o.maxDepth →
      SameBelow (Engine.slot resolve o value here)
        (Engine.slot resolve { o with maxDepth := limit } value (here.withLimit (.whole limit))))

include below

/-- The outlets of some content. -/
theorem fill (content : Content) {here : Position}
    (here_limit : here.tracker.limit = .whole o.maxDepth) :
    SameBelow
      (Engine.fill (.ofOptions o)
        (fun name => (slots.lookup (.text name)).map (Engine.slot resolve o)) content here)
      (Engine.fill (.ofOptions { o with maxDepth := limit })
        (fun name => (slots.lookup (.text name)).map
          (Engine.slot resolve { o with maxDepth := limit })) content
        (here.withLimit (.whole limit))) := by
  have outlet (name : Text) :
      SameBelow
        (Engine.resolveOutlet (.ofOptions o)
          (fun name => (slots.lookup (.text name)).map (Engine.slot resolve o)) here name)
        (Engine.resolveOutlet (.ofOptions { o with maxDepth := limit })
          (fun name => (slots.lookup (.text name)).map
            (Engine.slot resolve { o with maxDepth := limit }))
          (here.withLimit (.whole limit)) name) := by
    apply Process.Until.note
    apply Process.Until.bind
    · simp only
      cases found : slots.lookup (.text name) with
      | some value => exact below _ value found here here_limit
      | none => exact missing name here
    · intro outcome holds
      exact .note (.done holds)
  cases content with
  | other kindName => exact mismatch _
  | text t =>
    simp only [Engine.fill, Engine.fillText]
    by_cases no_outlets : (Template.ofText t).outlets = []
    · rw [if_pos no_outlets, if_pos no_outlets]
      exact ok _
    · rw [if_neg no_outlets, if_neg no_outlets]
      exact .gather (fun name _ => outlet name) (fun _ => splice _ _) o.parallel

theorem compose (low : o.maxDepth ≤ limit) (body : Body) {here : Position}
    (here_limit : here.tracker.limit = .whole o.maxDepth) (inSlot : Bool) :
    SameBelow (Engine.compose resolve o body (Engine.slots resolve o slots) here inSlot)
      (Engine.compose resolve { o with maxDepth := limit } body
        (Engine.slots resolve { o with maxDepth := limit } slots)
        (here.withLimit (.whole limit)) inSlot) := by
  simp only [Engine.compose, Engine.lookup_slots]
  cases body with
  | text t => exact fill below (.text t) here_limit
  | source path =>
    exact withSource low _ here_limit inSlot fun content _ inner_limit =>
      fill below content inner_limit

end slots

theorem slot (low : o.maxDepth ≤ limit) (resolve : Resolver) (value : Slot) (here : Position)
    (here_limit : here.tracker.limit = .whole o.maxDepth) :
    SameBelow (Engine.slot resolve o value here)
      (Engine.slot resolve { o with maxDepth := limit } value (here.withLimit (.whole limit))) := by
  induction value using Slot.induct generalizing here with
  | literal t => exact ok _
  | source path =>
    simp only [Engine.slot]
    apply withSource low _ here_limit true
    intro content inner inner_limit
    exact ok _
  | callback c => exact invoke c here
  | document body slots ih => exact compose ih low body here_limit true

/-- A document is composed in the same way with a higher limit, up to the
    first problem that notes the limit. -/
theorem document (low : o.maxDepth ≤ limit) (resolve : Resolver) (d : Document) :
    SameBelow (Engine.document resolve o d)
      (Engine.document resolve { o with maxDepth := limit } d) :=
  compose (fun _ value _ here => slot low resolve value here) low d.body rfl false

end engine

end SameBelow

/-! ### What the limit does -/

theorem mem_problemsOf {journal : List Request} {p : Problem} :
    p ∈ problemsOf journal ↔ .note (.problem p) ∈ journal := by
  constructor
  · intro mem
    obtain ⟨n, n_mem, n_eq⟩ := List.mem_filterMap.mp mem
    obtain ⟨request, request_mem, request_eq⟩ := List.mem_filterMap.mp n_mem
    cases request with
    | note m =>
      cases request_eq
      cases n with
      | problem q =>
        cases n_eq
        exact request_mem
      | _ => cases n_eq
    | _ => cases request_eq
  · intro mem
    exact List.mem_filterMap.mpr ⟨.problem p, List.mem_filterMap.mpr ⟨_, mem, rfl⟩, rfl⟩

/-- The limit was not met so far. -/
def Session.IsBelow (s : Session) : Prop := ∀ p ∈ s.problems, p.kind ≠ .depth

theorem Session.IsBelow.free {s : Session} (isBelow : s.IsBelow) :
    ∀ request ∈ s.journal, ¬ request.MeetsLimit := by
  rintro request mem ⟨p, rfl, is_depth⟩
  exact isBelow p (mem_problemsOf.mpr mem) is_depth

/-- What the limit on the depth does to the compositions of a document, in
    every interleaving. -/
structure DepthLimit (h : Host Id) (d : Document) (o : Options) (shared : Cache) : Prop where
  /-- The limit is met only at a place with as many sources around it, which
      are on a way down the document with one source more. Documents that are
      texts do not count. -/
  counted : ∀ {q : Process} {s : Session} {chain : List Text} {limit : Limit} {path : Text},
    Process.Steps h.answer (Engine.document h.resolve o d)
      (.start (CacheChoice.initial o.cache shared)) q s →
    .depth chain limit path ∈ s.problems →
      chain.length = o.maxDepth ∧
        (∃ names, (d.place h.resolve o names).around = chain ∧
          (d.place h.resolve o names).own h.resolve o = [path]) ∧
        ∃ paths, d.toSlot.Way paths ∧ paths.length = o.maxDepth + 1
  /-- A limit that is not below the depth of the document is not met. -/
  enough : d.nesting ≤ o.maxDepth →
    Process.AlwaysEnds h.answer (fun outcome s => s.IsBelow ∧ outcome.IsBelow)
      (Engine.document h.resolve o d) (.start (CacheChoice.initial o.cache shared))
  /-- If a composition does not meet the limit, then every composition with a
      higher one has the same end: the same text with the same errors and the
      same cache, or the same fault. The errors have the same order when slots
      are resolved one after the other. -/
  higher : ∀ {limit : Nat}, o.maxDepth ≤ limit → ∀ {outcome : Outcome} {s : Session},
    Process.Steps h.answer (Engine.document h.resolve o d)
      (.start (CacheChoice.initial o.cache shared)) (.done outcome) s →
    s.IsBelow →
      Process.AlwaysEnds h.answer
        (fun outcome' s' => s'.IsBelow ∧
          Resembles (Composition.ofRun outcome' s', s'.cache)
            (Composition.ofRun outcome s, s.cache) ∧
          (o.parallel = false → Composition.ofRun outcome' s' = Composition.ofRun outcome s))
        (Engine.document h.resolve { o with maxDepth := limit } d)
        (.start (CacheChoice.initial o.cache shared))

section limit

variable {h : Host Id} {d : Document} {o : Options} {cache : Cache}

/-- The limit is met only at a place with as many sources around it. -/
theorem counted_of_steps {q : Process} {s : Session} {chain : List Text} {limit : Limit} {path : Text}
    (steps : Process.Steps h.answer (Engine.document h.resolve o d) (.start cache) q s)
    (mem : .depth chain limit path ∈ s.problems) :
    ∃ names, chain.length = o.maxDepth ∧ (d.place h.resolve o names).around = chain ∧
      (d.place h.resolve o names).own h.resolve o = [path] := by
  rcases steps.exists_branch_of_mem (mem_problemsOf.mp mem) with at_start | ⟨es, next, branch⟩
  · cases at_start
  · obtain ⟨-, short, -, own, chain_eq, reached, rfl⟩ :=
      (active_chain h.resolve o d).request branch
    rw [chain_eq] at short
    exact ⟨_, Nat.le_antisymm short reached, rfl, own⟩

/-- A composition that ends without a problem of the limit does not end with
    one either. -/
theorem fault_isBelow {outcome : Outcome} {s : Session}
    (steps : Process.Steps h.answer (Engine.document h.resolve o d) (.start cache) (.done outcome) s)
    (isBelow : s.IsBelow) : outcome.IsBelow := by
  have same := SameBelow.document (Nat.le_refl o.maxDepth) h.resolve d
  obtain ⟨q, -, related⟩ := same.steps steps isBelow.free
  cases related with
  | done holds => exact holds

/-- Two interleavings of a composition come to the same end. -/
theorem Setting.Ended.agree {x : Setting} {a : Account} {outcome outcome' : Outcome}
    {s s' : Session} (first : x.Ended a outcome s) (second : x.Ended a outcome' s') :
    outcome' = outcome ∧ x.SameProblems s'.problems s.problems ∧
      ∀ key, s'.cache.get? key = s.cache.get? key := by
  refine ⟨?_, ?_, ?_⟩
  · rw [first.outcome, second.outcome]
  · refine ⟨second.problems.1.trans first.problems.1.symm, ?_⟩
    intro sequential
    rw [first.problems.2 sequential, second.problems.2 sequential]
  · intro key
    rw [first.entries, second.entries]

/-- A composition that does not meet the limit is one with any higher limit. -/
theorem same_with_higher {limit : Nat} (low : o.maxDepth ≤ limit) {outcome : Outcome} {s : Session}
    (steps : Process.Steps h.answer (Engine.document h.resolve o d) (.start cache) (.done outcome) s)
    (isBelow : s.IsBelow) :
    Process.Steps h.answer (Engine.document h.resolve { o with maxDepth := limit } d) (.start cache)
      (.done outcome) s := by
  have same := SameBelow.document low h.resolve d
  obtain ⟨q, steps', related⟩ := same.steps steps isBelow.free
  cases related with
  | done => exact steps'

end limit

/-- A composition meets the limit on the depth only below as many sources, and
    without that the limit makes no difference. -/
theorem depth_limit (h : Host Id) (d : Document) (o : Options) (shared : Cache) :
    DepthLimit h d o shared := by
  constructor
  case counted =>
    intro q s chain limit path steps mem
    obtain ⟨names, full, around, own⟩ := counted_of_steps steps mem
    obtain ⟨paths, way, length_eq⟩ := d.exists_way_of_own h.resolve o own
    rw [around, full] at length_eq
    exact ⟨full, ⟨names, around, own⟩, paths, way, length_eq⟩
  case enough =>
    intro room
    apply Process.AlwaysEnds.of_steps
    intro outcome s steps
    -- A way with one source more than the limit would be longer than the longest.
    have isBelow : s.IsBelow := by
      intro p mem is_depth
      cases p with
      | depth chain limit path =>
        obtain ⟨names, full, around, own⟩ := counted_of_steps steps mem
        obtain ⟨paths, way, length_eq⟩ := d.exists_way_of_own h.resolve o own
        have longest := d.nesting_isGreatest.2 ⟨paths, way, rfl⟩
        rw [around, full] at length_eq
        omega
      | _ => cases is_depth
    exact ⟨isBelow, fault_isBelow steps isBelow⟩
  case higher =>
    intro limit low outcome s steps isBelow
    let x : Setting := { host := h, options := { o with maxDepth := limit }, shared }
    have alike : x.Alike x := ⟨rfl, fun _ => rfl, fun _ => rfl, rfl⟩
    obtain ⟨a, -, yields, -, -⟩ := alike.document d
    apply Process.AlwaysEnds.of_steps
    intro outcome' s' steps'
    -- Both are interleavings with the higher limit, which come to the same account.
    have ended := yields.ended (same_with_higher low steps isBelow)
    obtain ⟨rfl, problems, entries⟩ := ended.agree (yields.ended steps')
    refine ⟨?_, ?_, ?_⟩
    · intro p mem
      exact isBelow p (problems.1.mem_iff.mp mem)
    · cases outcome' with
      | error f => exact .fault f _ _
      | ok content => exact .text _ (problems.1.map _) entries
    · intro sequential
      unfold Composition.ofRun
      rw [problems.2 sequential]

/-- Texts between the sources of a way do not count. -/
example :
    Document.nesting
      { body := .text []
        slots := [(.text ['a'], .document (.source ['p'])
          [(.text ['b'], .document (.text []) [(.text ['c'], .source ['q'])])])] } = 2 := by
  decide

end MarkdownOutlets
