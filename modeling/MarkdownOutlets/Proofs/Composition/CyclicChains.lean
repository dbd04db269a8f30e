import MarkdownOutlets.Proofs.Composition.EngineAccount
import MarkdownOutlets.Proofs.Composition.Substitution
import MarkdownOutlets.Proofs.Source.MemoryPaths

/-! # Sources that lead in a circle

  A document may nest its sources so that the last one leads back to the
  first. Whether the chain of sources reports the circle depends on its limit,
  which is looked at first: with room for one more source than there are, the
  step back closes a cycle, and without that room some source is refused
  because the chain is at its limit.

  Either way one source is refused, and nothing else is a problem. The main
  statement, `circle_refused`, says which one, and what the texts come to around
  the marker that stands in for it. It is about every interleaving, with a
  cache or without one.
-/

namespace MarkdownOutlets

/-! ### Circles -/

/-- The slot value leads along the paths, from each document to the next one in
    its slot of the given name, and behind the last one back to the path
    `first`. -/
inductive LeadsBack (name first : Text) : List Text → Slot → Prop
  /-- It is the path to lead back to. -/
  | reference : LeadsBack name first [] (.source first)
  /-- It is a document at that path. -/
  | document (slots : Slots) : LeadsBack name first [] (.document (.source first) slots)
  /-- It is a document on the way, and its slot leads on. -/
  | link {path : Text} {paths : List Text} {slots : Slots} {value : Slot}
      (found : slots.lookup (.text name) = some value) (rest : LeadsBack name first paths value) :
      LeadsBack name first (path :: paths) (.document (.source path) slots)

/-- The texts of some sources, each one with the text of the next one in the
    place of its outlets, and the last one with `inner`. -/
def nested (name : Text) (text : Text → Text) (paths : List Text) (inner : Text) : Text :=
  paths.foldr
    (fun path inner =>
      (Template.ofText (text path)).fill fun other => if other = name then some inner else none)
    inner

/-- Why one of the sources is refused, when the chain has a limit. -/
def refusal (limit : Nat) (first : Text) (paths : List Text) : Problem :=
  if paths.length < limit then .cycle paths first
  else .depth (paths.take limit) (.whole limit) (paths[limit]?.getD first)

/-! ### The chain -/

section chain

variable {limit : Nat} {first : Text} {sofar : List Text}

/-- The path back to the first source is refused. -/
theorem push_back (short : sofar.length ≤ limit) (starts : sofar.head? = some first) :
    Tracker.push ⟨.whole limit, sofar⟩ first = .error (refusal limit first sofar) := by
  rw [Tracker.push_eq_error, Limit.reached_whole]
  by_cases room : sofar.length < limit
  · -- The cycle is the whole chain.
    obtain ⟨rest, rfl⟩ := List.head?_eq_some_iff.mp starts
    refine .inr ⟨decide_eq_false (Nat.not_le.mpr room), List.mem_cons_self, ?_⟩
    rw [refusal, if_pos room, List.dropWhile_cons_of_neg (by simp)]
  · have full : limit = sofar.length := Nat.le_antisymm (Nat.le_of_not_lt room) short
    refine .inl ⟨decide_eq_true (Nat.le_of_eq full), ?_⟩
    rw [refusal, if_neg room, full, List.take_length, List.getElem?_eq_none (Nat.le_refl _),
      Option.getD_none]

/-- A source on the way is refused only by a chain at its limit. -/
theorem push_on (first : Text) (short : sofar.length ≤ limit) (path : Text) (rest : List Text)
    (distinct : (sofar ++ path :: rest).Nodup) :
    sofar.length = limit ∧ Tracker.push ⟨.whole limit, sofar⟩ path =
        .error (refusal limit first (sofar ++ path :: rest)) ∨
      sofar.length < limit ∧ Tracker.push ⟨.whole limit, sofar⟩ path =
        .ok ⟨.whole limit, sofar ++ [path]⟩ := by
  rw [Tracker.push_eq_error, Tracker.push_eq_ok, Limit.reached_whole]
  rcases Nat.eq_or_lt_of_le short with full | room
  · refine .inl ⟨full, .inl ⟨decide_eq_true (Nat.le_of_eq full.symm), ?_⟩⟩
    have long : ¬ (sofar ++ path :: rest).length < limit := by
      rw [List.length_append, List.length_cons]
      omega
    rw [refusal, if_neg long, ← full, List.take_left, List.getElem?_append_right (Nat.le_refl _),
      Nat.sub_self, List.getElem?_cons_zero, Option.getD_some]
  · have other : path ∉ sofar := by
      intro mem
      exact (List.nodup_append.mp distinct).2.2 path mem path List.mem_cons_self rfl
    exact .inr ⟨room, decide_eq_false (Nat.not_le.mpr room), other, rfl⟩

end chain

/-! ### What is refused, and what is put around it -/

/-- One process comes to the same one after the other and side by side. -/
theorem Account.gather_one (parallel : Bool) {a : Account} {c : Option Content}
    (isOk : a.outcome = .ok c) (finish : List (Option Content) → Outcome) :
    gather parallel [a] finish = { a with outcome := finish [c] } := by
  have settled : Process.settle ([a].map outcome) = .ok [c] := by
    rw [List.map_cons, List.map_nil, isOk]
    rfl
  rw [gather_of_settle parallel finish settled, sideBySide, settled]
  simp [Except.bind]

/-- A text is put in the place of the outlets of a text that have one name. -/
theorem splice_one {t u name : Text} (names : (Template.ofText t).names = [name]) :
    Engine.splice (Template.ofText t) (Engine.resultOf [name] [some (.text u)]) =
      .text ((Template.ofText t).fill fun other => if other = name then some u else none) := by
  apply splice_texts
  intro other mem
  rw [names, List.mem_singleton] at mem
  rw [mem, if_pos rfl]
  exact resultOf_map (fun _ => some (.text u)) (List.mem_singleton_self name)

namespace Setting

variable {x : Setting}

/-- The process ends with the text, and notes nothing but the problem. -/
def OneProblem (x : Setting) (p : Process) (t : Text) (problem : Problem) : Prop :=
  ∃ kept, x.Yields [] p { outcome := .ok (some (.text t)), problems := [problem], kept }

/-- The path means itself, and the text is seen there. -/
structure Shows (x : Setting) (path t : Text) : Prop where
  /-- It does not matter what it is relative to. -/
  means : ∀ base mode, x.host.resolve path base mode = path
  /-- The text comes from the host or from the cache. -/
  view : x.view path = .ok (some (.text t))

theorem Shows.sourcePath {path t : Text} (shows : x.Shows path t) (document : Option Text) :
    Engine.sourcePath x.host.resolve x.options path document = path := by
  unfold Engine.sourcePath
  split
  · exact shows.means _ _
  · exact shows.means _ _

/-- A source that may not join the chain leaves an error marker. -/
theorem withSource_refused (soft : x.options.onMissingSlot ≠ .error) {source : Text}
    {here : Position} {problem : Problem} (refused : here.tracker.push source = .error problem)
    (inSlot : Bool) (use : Content → Position → Process) :
    x.OneProblem (Engine.withSource (.ofOptions x.options) source here inSlot use)
      (errorMarker problem.message) problem := by
  have goes_on : ¬ (inSlot && (Rules.ofOptions x.options).onMissingSlot = .error) = true := by
    simp [Rules.ofOptions, soft]
  unfold Engine.withSource
  rw [refused]
  simp only [if_neg goes_on]
  exact ⟨[], .noteProblem problem (.done [] _)⟩

/-- A source that joins the chain comes to what is made of its text. -/
theorem withSource_joined {source t u : Text} {here : Position} {tracker : Tracker}
    {problem : Problem} (joins : here.tracker.push source = .ok tracker)
    (view : x.view source = .ok (some (.text t))) (inSlot : Bool)
    {use : Content → Position → Process}
    (used : x.OneProblem (use (.text t) { tracker, document := some source }) u problem) :
    x.OneProblem (Engine.withSource (.ofOptions x.options) source here inSlot use) u problem := by
  obtain ⟨kept, yields⟩ := used
  have outcome : (x.loadAccount source).outcome = .ok (some (.text t)) := by
    simp only [loadAccount, view]
  have quiet : (x.loadAccount source).problems = [] := by
    simp only [loadAccount, view]
  let account : Account := { outcome := .ok (some (.text u)), problems := [problem], kept }
  have both : (x.loadAccount source).followedBy account =
      { account with kept := (x.loadAccount source).kept ++ kept } := by
    simp only [Account.followedBy, quiet, account, List.nil_append]
  unfold Engine.withSource
  rw [joins]
  refine ⟨(x.loadAccount source).kept ++ kept, .noteOther (by simp) (.noteBehind (by simp) ?_)⟩
  rw [← both]
  apply (x.load_yields [] source).bind
  rw [outcome]
  exact yields

/-- A text with outlets of one name comes to what its slot value comes to, put
    in the place of the outlets. -/
theorem fillText_one {t u name : Text} {problem : Problem} {here : Position}
    {slotOf : Text → Option Engine.SlotProcess} {process : Engine.SlotProcess}
    (names : (Template.ofText t).names = [name]) (found : slotOf name = some process)
    (inner : x.OneProblem (process here) u problem) :
    x.OneProblem (Engine.fillText (.ofOptions x.options) slotOf t here)
      ((Template.ofText t).fill fun other => if other = name then some u else none) problem := by
  obtain ⟨kept, yields⟩ := inner
  let account : Account := { outcome := .ok (some (.text u)), problems := [problem], kept }
  have resolved : x.Yields [] (Engine.resolveOutlet (.ofOptions x.options) slotOf here name)
      account := by
    unfold Engine.resolveOutlet
    rw [found]
    exact .noteOther (by simp) (.noteBehind (by simp) yields)
  have outlets : (Template.ofText t).outlets ≠ [] := by
    intro no_outlet
    simp [Template.names, no_outlet, distinct] at names
  -- Whatever the results are, to put them in their place ends the process.
  choose finish finish_eq using fun results =>
    Engine.splice_done (Template.ofText t) (Engine.resultOf [name] results)
  have finished : finish [some (.text u)] = .ok (some (.text
      ((Template.ofText t).fill fun other => if other = name then some u else none))) := by
    have ended := splice_one (u := u) names
    rw [finish_eq] at ended
    exact Process.done.inj ended
  have gathered := Account.gather_one x.options.parallel (a := account) rfl finish
  rw [finished] at gathered
  unfold Engine.fillText
  rw [if_neg outlets, names]
  simp only [finish_eq]
  refine ⟨kept, ?_⟩
  rw [← gathered]
  exact .gather (a := fun _ => account) (by simpa using resolved) finish

/-! ### On the way -/

variable {name first : Text} {text : Text → Text}

/-- With the sources `sofar` in the chain and the paths still ahead, the process
    comes to the texts of those ahead that fit into the chain, around the marker
    for the one that is refused. -/
def ComesBack (x : Setting) (name first : Text) (text : Text → Text) (sofar paths : List Text)
    (p : Process) : Prop :=
  let problem := refusal x.options.maxDepth first (sofar ++ paths)
  x.OneProblem p
    (nested name text (paths.take (x.options.maxDepth - sofar.length))
      (errorMarker problem.message))
    problem

variable (soft : x.options.onMissingSlot ≠ .error)

include soft

/-- The path back to the first source is refused. -/
theorem back_comes {sofar : List Text} {here : Position}
    (tracker : here.tracker = ⟨.whole x.options.maxDepth, sofar⟩)
    (short : sofar.length ≤ x.options.maxDepth) (starts : sofar.head? = some first)
    (shows : x.Shows first (text first)) (inSlot : Bool) (use : Content → Position → Process) :
    x.ComesBack name first text sofar []
      (Engine.withSource (.ofOptions x.options)
        (Engine.sourcePath x.host.resolve x.options first here.document) here inSlot use) := by
  have refused : here.tracker.push first = .error (refusal x.options.maxDepth first sofar) := by
    rw [tracker]
    exact push_back short starts
  unfold ComesBack
  rw [shows.sourcePath, List.take_nil, List.append_nil]
  exact withSource_refused soft refused inSlot use

/-- A document on the way comes back if its slot value does, wherever the chain
    has room for the document. -/
theorem link_comes {path : Text} {paths sofar : List Text} {slots : Slots} {value : Slot}
    {here : Position} (found : slots.lookup (.text name) = some value)
    (tracker : here.tracker = ⟨.whole x.options.maxDepth, sofar⟩)
    (short : sofar.length ≤ x.options.maxDepth) (distinct : (sofar ++ path :: paths).Nodup)
    (shows : x.Shows path (text path)) (names : (Template.ofText (text path)).names = [name])
    (inSlot : Bool)
    (inner : ∀ here' : Position, here'.tracker = ⟨.whole x.options.maxDepth, sofar ++ [path]⟩ →
      (sofar ++ [path]).length ≤ x.options.maxDepth →
      x.ComesBack name first text (sofar ++ [path]) paths
        (Engine.slot x.host.resolve x.options value here')) :
    x.ComesBack name first text sofar (path :: paths)
      (Engine.compose x.host.resolve x.options (.source path)
        (Engine.slots x.host.resolve x.options slots) here inSlot) := by
  unfold ComesBack
  rw [compose_source, shows.sourcePath]
  rcases push_on first short path paths distinct with ⟨full, refused⟩ | ⟨room, joins⟩
  · rw [← tracker] at refused
    rw [full, Nat.sub_self, List.take_zero]
    exact withSource_refused soft refused inSlot _
  · rw [← tracker] at joins
    have longer : (sofar ++ [path]).length = sofar.length + 1 := by simp
    have rest : x.options.maxDepth - sofar.length =
        x.options.maxDepth - (sofar ++ [path]).length + 1 := by
      omega
    have slot_found : x.host.slotOf x.options slots name =
        some (Engine.slot x.host.resolve x.options value) := by
      rw [Host.slotOf, found, Option.map_some]
    rw [List.append_cons, rest, List.take_succ_cons]
    apply withSource_joined joins shows.view inSlot
    apply fillText_one names slot_found
    exact inner _ rfl (by omega)

/-- A slot value that leads back comes back, however far the chain has got. -/
theorem leads_comes {paths : List Text} {value : Slot}
    (leads : LeadsBack name first paths value) {sofar : List Text} {here : Position}
    (tracker : here.tracker = ⟨.whole x.options.maxDepth, sofar⟩)
    (short : sofar.length ≤ x.options.maxDepth) (starts : sofar.head? = some first)
    (distinct : (sofar ++ paths).Nodup)
    (shows : ∀ path ∈ sofar ++ paths, x.Shows path (text path))
    (names : ∀ path ∈ paths, (Template.ofText (text path)).names = [name]) :
    x.ComesBack name first text sofar paths
      (Engine.slot x.host.resolve x.options value here) := by
  have shows_first : x.Shows first (text first) := by
    obtain ⟨rest, rfl⟩ := List.head?_eq_some_iff.mp starts
    exact shows first (by simp)
  -- By induction on the way that is left, with one more source in the chain at each step.
  induction leads generalizing sofar here with
  | reference =>
    unfold Engine.slot
    exact back_comes soft tracker short starts shows_first true _
  | document slots =>
    unfold Engine.slot
    rw [compose_source]
    exact back_comes soft tracker short starts shows_first true _
  | @link path paths slots value found _ ih =>
    unfold Engine.slot
    apply link_comes soft found tracker short distinct (shows path (by simp)) (names path (by simp))
    intro here' tracker' room
    rw [List.append_cons] at distinct shows
    have still : (sofar ++ [path]).head? = some first := by
      rw [List.head?_append, starts, Option.some_or]
    exact ih tracker' room still distinct shows fun q mem => names q (by simp [mem])

end Setting

/-! ### Compositions -/

/-- A document whose sources lead in a circle, through outlets of one name. -/
structure Circle (m : MemorySource) (name first : Text) (text : Text → Text) (paths : List Text)
    (d : Document) : Prop where
  /-- It leads along the paths, and then back. -/
  leads : LeadsBack name first paths d.toSlot
  /-- It leads back to the first one of the paths. -/
  starts : paths.head? = some first
  /-- No path comes twice. -/
  distinct : paths.Nodup
  /-- The paths are absolute, and none of them makes a detour. -/
  canonical : ∀ path ∈ paths, MemorySource.IsCanonical path
  /-- There is a text at each of them. -/
  held : ∀ path ∈ paths, m.files.get? path = some (text path)
  /-- Its outlets all have the name. -/
  names : ∀ path ∈ paths, (Template.ofText (text path)).names = [name]

/-- A document always comes to the composition: in every interleaving, and so
    also when one slot is resolved after the other. -/
structure Host.Composes (h : Host Id) (d : Document) (o : Options) (shared : Cache)
    (c : Composition) : Prop where
  /-- Every interleaving comes to it. -/
  ends : Process.AlwaysEnds h.answer (fun outcome s => Composition.ofRun outcome s = .ok c)
    (Engine.document h.resolve o d) (.start (CacheChoice.initial o.cache shared))
  /-- It is what is returned. -/
  returns : (h.composeDocument d o shared).1 = .ok c

/-- What a document in a circle comes to. -/
structure CircleRefused (h : Host Id) (name first : Text) (text : Text → Text) (paths : List Text)
    (d : Document) (o : Options) (shared : Cache) : Prop where
  /-- If the limit is above the number of sources, the step back to the first one
      is a cycle, and its marker is within the texts of all. -/
  cycle : paths.length < o.maxDepth →
    let message := "Circular dependency detected: ".toList ++ Problem.arrows (paths ++ [first])
    h.Composes d o shared
      { text := nested name text paths (errorMarker message)
        errors := [{ kind := .cycle, message, path := some first }] }
  /-- If not, the first source behind the limit is refused, and its marker is
      within the texts of those before it. -/
  depth : o.maxDepth ≤ paths.length →
    let refused := paths[o.maxDepth]?.getD first
    let message := "Maximum composition depth of ".toList ++ Text.ofNat o.maxDepth
      ++ " exceeded. Current stack: ".toList
      ++ Problem.arrows (paths.take o.maxDepth ++ [refused])
    h.Composes d o shared
      { text := nested name text (paths.take o.maxDepth) (errorMarker message)
        errors := [{ kind := .depth, message, path := some refused }] }

section circle

variable {x : Setting} {m : MemorySource} {call : Callback → Id (Except Text Content)}
  {name first : Text} {text : Text → Text} {paths : List Text} {d : Document}

/-- A composition with one problem has one error. -/
theorem Setting.OneProblem.composes {t : Text} {problem : Problem}
    (one : x.OneProblem (Engine.document x.host.resolve x.options d) t problem) :
    x.host.Composes d x.options x.shared { text := t, errors := [problem.record] } := by
  obtain ⟨kept, yields⟩ := one
  have ended {outcome : Outcome} {s : Session}
      (steps : Process.Steps x.host.answer (Engine.document x.host.resolve x.options d)
        (.start x.cache) (.done outcome) s) :
      Composition.ofRun outcome s = .ok { text := t, errors := [problem.record] } := by
    have ended := yields.ended steps
    have problems : s.problems = [problem] := List.perm_singleton.mp ended.problems.1
    rw [ended.outcome, Composition.ofRun, problems]
    rfl
  constructor
  case ends => exact .of_steps fun outcome s steps => ended steps
  case returns =>
    exact ended (Process.run_steps x.host.answer
      (Engine.document x.host.resolve x.options d) (.start x.cache))

/-- The texts of a circle are seen at their paths, unless the cache holds
    something else for one of them. -/
theorem Circle.shows (circle : Circle m name first text paths d) (host : x.host = m.host call)
    (cached : ∀ path ∈ paths, ∀ v, x.cache.held? path = some v → v = .text (text path)) {path : Text}
    (mem : path ∈ paths) : x.Shows path (text path) := by
  have held := circle.held path mem
  constructor
  case means =>
    intro base mode
    rw [host]
    exact MemorySource.resolve_of_isCanonical (circle.canonical path mem) m.cwd base mode
  case view =>
    have probed : x.probed path = .ok true := by
      rw [Setting.probed, host]
      show (Except.ok (m.files.get? path).isSome : Except ProviderFault Bool) = .ok true
      rw [held, Option.isSome_some]
    have read : x.read path = .ok (text path) := by
      rw [Setting.read, host]
      show ((m.read path).mapError .source : Except ProviderFault Text) = .ok (text path)
      rw [MemorySource.read, held]
      rfl
    cases recalled : x.cache.held? path with
    | some v =>
      obtain rfl := cached path mem v recalled
      simp only [Setting.view, recalled]
      rfl
    | none => simp only [Setting.view, recalled, probed, read]

/-- A document in a circle comes back. -/
theorem Circle.comes (circle : Circle m name first text paths d) (host : x.host = m.host call)
    (soft : x.options.onMissingSlot ≠ .error)
    (cached : ∀ path ∈ paths, ∀ v, x.cache.held? path = some v → v = .text (text path)) :
    x.ComesBack name first text [] paths (Engine.document x.host.resolve x.options d) := by
  obtain ⟨rest, rfl⟩ := List.head?_eq_some_iff.mp circle.starts
  have shows (path : Text) (mem : path ∈ first :: rest) : x.Shows path (text path) :=
    circle.shows host cached mem
  have first_names := circle.names first List.mem_cons_self
  obtain ⟨body, slots⟩ := d
  cases circle.leads with
  | link found leads =>
    unfold Engine.document
    apply Setting.link_comes soft found rfl (Nat.zero_le _) circle.distinct
      (shows first List.mem_cons_self) first_names
    intro here tracker room
    apply Setting.leads_comes soft leads tracker room rfl circle.distinct shows
    exact fun path mem => circle.names path (List.mem_cons_of_mem first mem)

end circle

/-- In a circle one source is refused: by the cycle if the limit is above the
    number of sources, and otherwise by the limit. -/
theorem circle_refused (m : MemorySource) (call : Callback → Id (Except Text Content))
    (name first : Text) (text : Text → Text) (paths : List Text) (d : Document) (o : Options)
    (shared : Cache) (circle : Circle m name first text paths d)
    (soft : o.onMissingSlot ≠ .error)
    (cached : ∀ path ∈ paths, ∀ v,
      (CacheChoice.initial o.cache shared).held? path = some v → v = .text (text path)) :
    CircleRefused (m.host call) name first text paths d o shared := by
  let x : Setting := { host := m.host call, options := o, shared }
  have comes : x.ComesBack name first text [] paths (Engine.document x.host.resolve o d) :=
    circle.comes rfl soft cached
  unfold Setting.ComesBack at comes
  rw [List.nil_append, List.length_nil, Nat.sub_zero] at comes
  have composes := comes.composes
  constructor
  case cycle =>
    intro room message
    have all : paths.take o.maxDepth = paths := List.take_of_length_le (Nat.le_of_lt room)
    have closes : refusal o.maxDepth first paths = .cycle paths first := if_pos room
    rw [all, closes] at composes
    exact composes
  case depth =>
    intro full refused message
    have behind : refusal o.maxDepth first paths =
        .depth (paths.take o.maxDepth) (.whole o.maxDepth) refused := if_neg (Nat.not_lt.mpr full)
    rw [behind] at composes
    exact composes

/-- Two sources that lead to each other. A limit of two is not enough to see the
    cycle. -/
theorem circle_refused_pair :
    let m : MemorySource :=
      { files :=
          [("/a".toList, "A <!-- slot: next -->".toList),
            ("/b".toList, "B <!-- slot: next -->, <!-- slot: next -->".toList)]
        cwd := "/".toList }
    let h : Host Id := m.host fun _ => .ok (.text [])
    let d : Document :=
      { body := .source "/a".toList
        slots := [(.text "next".toList, .document (.source "/b".toList)
          [(.text "next".toList, .source "/a".toList)])] }
    let text (path : Text) : Text := (m.files.get? path).getD []
    let paths : List Text := ["/a".toList, "/b".toList]
    let o : Options := { maxDepth := 2, parallel := true }
    Circle m "next".toList "/a".toList text paths d ∧
      CircleRefused h "next".toList "/a".toList text paths d o [] ∧
      (h.composeDocument d o []).1.toOption = some
        { text := ("A B <!-- ERROR: Maximum composition depth of 2 exceeded. Current stack: " ++
            "/a -> /b -> /a -->, <!-- ERROR: Maximum composition depth of 2 exceeded. " ++
            "Current stack: /a -> /b -> /a -->").toList
          errors := [{ kind := .depth
                       message := ("Maximum composition depth of 2 exceeded. " ++
                         "Current stack: /a -> /b -> /a").toList
                       path := some "/a".toList }] } := by
  intro m h d text paths o
  have canonical : ∀ path ∈ paths, MemorySource.IsCanonical path := by
    intro path mem
    have names : path = '/' :: ['a'] ∨ path = '/' :: ['b'] := by simpa [paths] using mem
    rcases names with rfl | rfl
    · exact ⟨[['a']], rfl, by simpa using ⟨by decide, by decide, by decide⟩, by decide⟩
    · exact ⟨[['b']], rfl, by simpa using ⟨by decide, by decide, by decide⟩, by decide⟩
  have circle : Circle m "next".toList "/a".toList text paths d :=
    { leads := .link rfl (.link rfl .reference)
      starts := rfl
      distinct := by decide
      canonical
      held := by decide
      names := by decide }
  refine ⟨circle, ?_, by decide +kernel⟩
  exact circle_refused m _ _ _ _ _ d o [] circle (by decide) fun _ _ _ found => by cases found

end MarkdownOutlets
