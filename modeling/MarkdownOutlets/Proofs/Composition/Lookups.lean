import MarkdownOutlets.Proofs.Composition.Account
import MarkdownOutlets.Proofs.Process.Monitor

/-! # Looking up sources

  With a cache, a source is obtained in one fixed way: its path is looked up;
  if that fails the host is asked whether there is such a source, if so for its
  text, and if there is one the cache is given it. `lookupMonitor` follows a
  branch through these requests.

  It follows that a branch only asks the host about a path right after its own
  look-up of the path failed (`branch_follows_up`). When slots are
  resolved one after the other, nothing comes in between: whenever the host is
  asked about a path, the cache does not hold the path, and no path is
  successfully read twice (`sequential_asks_of_missing`, `sequential_reads_once`).
-/

namespace MarkdownOutlets

/-! ### Monitors that only look at sources -/

section quiet

variable {ω : Type} {M : Monitor ω} {w : ω}

/-- In the state `w`, functions may be called and notes may be taken, and
    neither changes the state. -/
structure Monitor.Quiet (M : Monitor ω) (w : ω) : Prop where
  /-- A function may be called. -/
  call : ∀ c, M.allows w (.call c)
  /-- That leaves the state as it is. -/
  after_call : ∀ c answer, M.next w (.call c) answer = w
  /-- A note may be taken. -/
  note : ∀ n, M.allows w (.note n)
  /-- That leaves the state as it is. -/
  after_note : ∀ n answer, M.next w (.note n) answer = w

namespace Monitor.Quiet

variable (quiet : M.Quiet w)

include quiet

theorem note_restores (n : Note) {p : Process} (rest : M.Restores w p) :
    M.Restores w (.note n p) := by
  refine .ask (quiet.note n) fun answer => ?_
  rw [quiet.after_note]
  exact rest

theorem withSource_restores {rules : Rules} (load : ∀ path, M.Restores w (Engine.load rules path))
    (source : Text) (here : Position) (inSlot : Bool) {use : Content → Position → Process}
    (used : ∀ content here, M.Restores w (use content here)) :
    M.Restores w (Engine.withSource rules source here inSlot use) := by
  unfold Engine.withSource
  cases here.tracker.push source with
  | error problem =>
    refine quiet.note_restores _ ?_
    split
    · exact .done rfl
    · exact .done rfl
  | ok tracker =>
    refine quiet.note_restores _ (Accepts.after ?_ fun outcome => ?_)
    · refine (load source).after fun outcome => ?_
      rcases outcome with fault | _ | content
      · exact .done rfl
      · exact .done rfl
      · exact used content _
    · exact quiet.note_restores _ (.done rfl)

theorem missing_restores (rules : Rules) (name : Text) (here : Position) :
    M.Restores w (Engine.missing rules name here) := by
  refine quiet.note_restores _ ?_
  cases rules.onMissingSlot <;> exact .done rfl

theorem invoke_restores (rules : Rules) (c : Callback) (here : Position) :
    M.Restores w (Engine.invoke rules c here) := by
  have failed (fault : CallbackFault) : M.Restores w (Engine.callFailed rules fault here) := by
    refine quiet.note_restores _ ?_
    split
    · exact .done rfl
    · exact .done rfl
  refine .ask (quiet.call c) fun answer => ?_
  rw [quiet.after_call]
  match answer with
  | .ok (.text t) => exact .done rfl
  | .ok (.other kindName) => exact failed _
  | .error reason => exact failed _

theorem fill_restores {rules : Rules} (forks : rules.parallel = true → M.forks)
    {slotOf : Text → Option Engine.SlotProcess}
    (below : ∀ name process, slotOf name = some process → ∀ here, M.Restores w (process here))
    (content : Content) (here : Position) :
    M.Restores w (Engine.fill rules slotOf content here) := by
  have outlet (name : Text) : M.Restores w (Engine.resolveOutlet rules slotOf here name) := by
    unfold Engine.resolveOutlet
    refine quiet.note_restores _ (Accepts.after ?_ fun outcome => ?_)
    · cases found : slotOf name with
      | some process => exact below name process found here
      | none => exact quiet.missing_restores rules name here
    · exact quiet.note_restores _ (.done rfl)
  cases content with
  | other kindName => exact .done rfl
  | text text =>
    simp only [Engine.fill, Engine.fillText]
    split
    · exact .done rfl
    · refine .gather forks (fun p mem => ?_) fun results => ?_
      · obtain ⟨name, -, rfl⟩ := List.mem_map.mp mem
        exact outlet name
      · obtain ⟨outcome, splice_eq⟩ := Engine.splice_done (Template.ofText text)
          (Engine.resultOf (Template.ofText text).names results)
        rw [splice_eq]
        exact .done rfl

variable {o : Options} (forks : o.parallel = true → M.forks)
  (load : ∀ path, M.Restores w (Engine.load (.ofOptions o) path))

include forks load

theorem compose_restores (resolve : Resolver) (body : Body) {slots : List (Scalar × Slot)}
    (below : ∀ name value, slots.lookup name = some value → ∀ here,
      M.Restores w (Engine.slot resolve o value here)) (here : Position) (inSlot : Bool) :
    M.Restores w (Engine.compose resolve o body (Engine.slots resolve o slots) here inSlot) := by
  have below_name (name : Text) (process : Engine.SlotProcess)
      (found : (Engine.slots resolve o slots).lookup (.text name) = some process)
      (here : Position) : M.Restores w (process here) := by
    rw [Engine.lookup_slots, Option.map_eq_some_iff] at found
    obtain ⟨value, found, rfl⟩ := found
    exact below _ value found here
  cases body with
  | text t => exact quiet.fill_restores forks below_name (.text t) here
  | source path =>
    exact quiet.withSource_restores load _ here inSlot (quiet.fill_restores forks below_name)

theorem slot_restores (resolve : Resolver) (value : Slot) (here : Position) :
    M.Restores w (Engine.slot resolve o value here) := by
  induction value using Slot.induct generalizing here with
  | literal t => exact .done rfl
  | source path =>
    rw [Engine.slot]
    exact quiet.withSource_restores load _ here true fun content here => .done rfl
  | callback c => exact quiet.invoke_restores _ c here
  | document body slots ih => exact quiet.compose_restores forks load resolve body ih here true

/-- What holds of the sources that are loaded holds of the whole document. -/
theorem document_restores (resolve : Resolver) (d : Document) :
    M.Restores w (Engine.document resolve o d) :=
  quiet.compose_restores forks load resolve d.body
    (fun _ value _ => quiet.slot_restores forks load resolve value) _ false

end Monitor.Quiet

end quiet

/-! ### The way to a source -/

/-- How far a branch is on its way to a source. -/
inductive Lookup
  /-- It is not on the way to any source. -/
  | idle
  /-- The cache does not hold the path. -/
  | missed (path : Text)
  /-- The host has the source. -/
  | present (path : Text)
  /-- The source was read. -/
  | got (path text : Text)
  deriving DecidableEq

namespace Lookup

/-- The path to which the branch is on its way. -/
def path? : Lookup → Option Text
  | .idle => none
  | .missed path => some path
  | .present path => some path
  | .got path _ => some path

/-- The request is the next one on the way. -/
def Allows : Lookup → Request → Prop
  | .missed path, .probe q => q = path
  | .present path, .read q => q = path
  | .got path t, .remember q u => q = path ∧ u = t
  | .idle, .lookUp _ => True
  | .idle, .call _ => True
  | .idle, .note _ => True
  | _, _ => False

/-- How far a branch is after a request was answered. -/
def after : (request : Request) → request.Answer → Lookup
  | .lookUp path, (none : Option Value) => .missed path
  | .probe path, (.ok true : Except ProviderFault Bool) => .present path
  | .read path, (.ok t : Except ProviderFault Text) => .got path t
  | _, _ => .idle

end Lookup

/-- The monitor of the way to a source. -/
def lookupMonitor (o : Options) : Monitor Lookup where
  allows := Lookup.Allows
  next _ := Lookup.after
  forks := o.parallel = true

section lookups

variable {o : Options}

theorem quiet_idle : (lookupMonitor o).Quiet .idle :=
  ⟨fun _ => trivial, fun _ _ => rfl, fun _ => trivial, fun _ _ => rfl⟩

/-- With a cache, a source is loaded in the fixed way. -/
theorem load_keeps_way (cached : o.cache.isSome) (path : Text) :
    (lookupMonitor o).Restores .idle (Engine.load (.ofOptions o) path) := by
  have mapping : (Rules.ofOptions o).cache = .mapping := by simp [Rules.ofOptions, cached]
  have failed (fault : SourceFault) :
      (lookupMonitor o).Restores .idle (Engine.sourceFailed (.ofOptions o) fault) := by
    refine quiet_idle.note_restores _ ?_
    split
    · exact .done rfl
    · exact .done rfl
  simp only [Engine.load, mapping]
  refine .ask trivial fun answer => ?_
  match answer with
  | some v =>
    refine quiet_idle.note_restores _ ?_
    split
    · exact .done rfl
    · exact .done rfl
  | none =>
    refine .ask rfl fun answer => ?_
    match answer with
    | .error fault => exact failed _
    | .ok false => exact failed _
    | .ok true =>
      refine .ask rfl fun answer => ?_
      match answer with
      | .error fault => exact failed _
      | .ok t =>
        simp only [Engine.keep, mapping]
        exact .ask ⟨rfl, rfl⟩ fun _ => .done rfl

theorem document_keeps_way (cached : o.cache.isSome) (resolve : Resolver) (d : Document) :
    (lookupMonitor o).Restores .idle (Engine.document resolve o d) :=
  quiet_idle.document_restores (fun parallel => parallel) (load_keeps_way cached) resolve d

/-! ### What a branch asked before -/

/-- The requests about sources that a branch makes, each with the exchange
    directly before it on the line of the branch. -/
inductive FollowsUp : Process.Exchange → Request → Prop
  /-- The host is asked about a path that the cache did not hold. -/
  | probe (path : Text) : FollowsUp ⟨.lookUp path, (none : Option Value)⟩ (.probe path)
  /-- A source is read that the host has. -/
  | read (path : Text) :
      FollowsUp ⟨.probe path, (.ok true : Except ProviderFault Bool)⟩ (.read path)
  /-- The cache is given the text that was read. -/
  | remember (path t : Text) :
      FollowsUp ⟨.read path, (.ok t : Except ProviderFault Text)⟩ (.remember path t)

/-- What was answered last, and how far a branch is then. -/
theorem Lookup.after_cases (e : Process.Exchange) :
    Lookup.after e.request e.answer = .idle ∨
      ∃ request, FollowsUp e request ∧
        ∀ r, (Lookup.after e.request e.answer).Allows r → r = request := by
  match e with
  | ⟨.lookUp path, none⟩ =>
    refine .inr ⟨_, .probe path, fun r allowed => ?_⟩
    match r, allowed with
    | .probe _, rfl => rfl
  | ⟨.probe path, .ok true⟩ =>
    refine .inr ⟨_, .read path, fun r allowed => ?_⟩
    match r, allowed with
    | .read _, rfl => rfl
  | ⟨.read path, .ok t⟩ =>
    refine .inr ⟨_, .remember path t, fun r allowed => ?_⟩
    match r, allowed with
    | .remember _ _, ⟨rfl, rfl⟩ => rfl
  | ⟨.lookUp _, some _⟩ => exact .inl rfl
  | ⟨.probe _, .ok false⟩ => exact .inl rfl
  | ⟨.probe _, .error _⟩ => exact .inl rfl
  | ⟨.read _, .error _⟩ => exact .inl rfl
  | ⟨.call _, _⟩ => exact .inl rfl
  | ⟨.remember .., _⟩ => exact .inl rfl
  | ⟨.note _, _⟩ => exact .inl rfl

/-- A branch asks the host, and gives texts to the cache, only on its way from
    its own look-up that failed. -/
theorem branch_follows_up (cached : o.cache.isSome) {resolve : Resolver} {d : Document}
    {es : List Process.Exchange} {request : Request} {next : request.Answer → Process}
    (branch : Process.Branch (Engine.document resolve o d) es (.ask request next))
    (about_source : ¬ Lookup.idle.Allows request) :
    ∃ before e, es = before ++ [e] ∧ FollowsUp e request := by
  obtain ⟨Φ, accepts⟩ := (document_keeps_way cached resolve d).branch branch
  have allowed : Lookup.Allows ((lookupMonitor o).replay .idle es) request := by
    cases accepts with
    | ask allowed => exact allowed
  rcases List.eq_nil_or_concat es with rfl | ⟨before, e, es_eq⟩
  · exact absurd allowed about_source
  · rw [List.concat_eq_append] at es_eq
    -- How far the branch is depends on its last exchange only.
    have state : (lookupMonitor o).replay .idle es = Lookup.after e.request e.answer := by
      rw [es_eq, Monitor.replay_append]
      rfl
    rw [state] at allowed
    rcases Lookup.after_cases e with idle | ⟨r, follows, only⟩
    · rw [idle] at allowed
      exact absurd allowed about_source
    · exact ⟨before, e, es_eq, only request allowed ▸ follows⟩

/-! ### One slot after the other -/

/-- The cache does not hold the path of the source to which the composition is
    on its way, and each source that was read is in the cache, or about to be. -/
structure OnWay (x : Setting) (w : Lookup) (s : Session) : Prop where
  /-- The path is not in the cache. -/
  missing : ∀ path, w.path? = some path → s.cache.held? path = none
  /-- A source was successfully read at most once. -/
  reads : ∀ path t, x.read path = .ok t → s.journal.count (.read path) = 0 ∨
    s.journal.count (.read path) = 1 ∧ ((s.cache.held? path).isSome ∨ w = .got path t)

section onWay

variable {x : Setting} {w w' : Lookup} {s : Session}

/-- A request that is neither answered by a source nor changes the cache. -/
theorem OnWay.quiet (onWay : OnWay x w s) {request : Request}
    (no_read : ∀ path, request ≠ .read path)
    (missing : ∀ path, w'.path? = some path → s.cache.held? path = none)
    (not_got : ∀ path t, w ≠ .got path t) : OnWay x w' (s.log request) where
  missing := missing
  reads := by
    intro path t read
    have count_eq : (s.log request).journal.count (.read path) = s.journal.count (.read path) := by
      simp [Session.log, no_read path]
    rw [count_eq]
    rcases onWay.reads path t read with zero | ⟨one, held | got⟩
    · exact .inl zero
    · exact .inr ⟨one, .inl held⟩
    · exact absurd got (not_got path t)

theorem OnWay.lookedUp (onWay : OnWay x .idle s) (path : Text) :
    OnWay x (.after (.lookUp path) (s.cache.held? path)) (s.log (.lookUp path)) := by
  cases held : s.cache.held? path with
  | some v => exact onWay.quiet (by simp) (by simp [Lookup.after, Lookup.path?]) (by simp)
  | none =>
    refine onWay.quiet (by simp) (fun q h => ?_) (by simp)
    obtain rfl : path = q := by simpa [Lookup.after, Lookup.path?] using h
    exact held

theorem OnWay.probed {path : Text} (onWay : OnWay x (.missed path) s) :
    OnWay x (.after (.probe path) (x.probed path)) (s.log (.probe path)) := by
  refine onWay.quiet (by simp) (fun q h => ?_) (by simp)
  match x.probed path, h with
  | .ok true, h =>
    obtain rfl : path = q := by simpa [Lookup.after, Lookup.path?] using h
    exact onWay.missing path rfl

/-- A source that is read was not read successfully before, or the cache would
    hold it. -/
theorem OnWay.not_read {path : Text} (onWay : OnWay x (.present path) s) {t : Text}
    (read : x.read path = .ok t) : s.journal.count (.read path) = 0 := by
  have missing := onWay.missing path rfl
  rcases onWay.reads path t read with zero | ⟨-, held | got⟩
  · exact zero
  · rw [missing] at held
    exact absurd held (by simp)
  · exact absurd got (by simp)

theorem OnWay.read {path : Text} (onWay : OnWay x (.present path) s) :
    OnWay x (.after (.read path) (x.read path)) (s.log (.read path)) := by
  have count_eq (q : Text) : (s.log (.read path)).journal.count (.read q) =
      s.journal.count (.read q) + if path = q then 1 else 0 := by
    simp [Session.log, List.count_append, List.count_singleton]
  constructor
  · intro q h
    match x.read path, h with
    | .ok t, h =>
      obtain rfl : path = q := by simpa [Lookup.after, Lookup.path?] using h
      exact onWay.missing path rfl
  · intro q t read
    rw [count_eq]
    by_cases same : path = q
    · -- This is the first time, and the text is about to be in the cache.
      subst same
      rw [onWay.not_read read, if_pos rfl, read]
      exact .inr ⟨rfl, .inr rfl⟩
    · rw [if_neg same, Nat.add_zero]
      rcases onWay.reads q t read with zero | ⟨one, held | got⟩
      · exact .inl zero
      · exact .inr ⟨one, .inl held⟩
      · exact absurd got (by simp)

theorem OnWay.remembered {path t : Text} (onWay : OnWay x (.got path t) s) :
    OnWay x .idle { s.log (.remember path t) with cache := s.cache.remember path t } := by
  constructor
  · intro q h
    simp [Lookup.path?] at h
  · intro q u read
    have count_eq : (s.log (.remember path t)).journal.count (.read q) =
        s.journal.count (.read q) := by
      simp [Session.log]
    simp only [count_eq, Cache.held?_remember]
    rcases onWay.reads q u read with zero | ⟨one, held | got⟩
    · exact .inl zero
    · refine .inr ⟨one, .inl ?_⟩
      split
      · rfl
      · exact held
    · obtain ⟨rfl, rfl⟩ := Lookup.got.inj got
      exact .inr ⟨one, .inl (by simp)⟩

/-- Each request that is allowed keeps the composition on its way. -/
theorem OnWay.step {request : Request} (onWay : OnWay x w s) (allowed : w.Allows request) :
    OnWay x (.after request ((x.host.answer request).run s).1)
      ((x.host.answer request).run s).2 := by
  -- One case for each request that is allowed in some state.
  have idle (path : Text) : Lookup.idle.path? = some path → s.cache.held? path = none := by
    simp [Lookup.path?]
  match w, request, allowed with
  | .idle, .call c, _ => exact onWay.quiet (by simp) idle (by simp)
  | .idle, .note n, _ => exact onWay.quiet (by simp) idle (by simp)
  | .idle, .lookUp path, _ => exact onWay.lookedUp path
  | .missed path, .probe _, rfl => exact onWay.probed
  | .present path, .read _, rfl => exact onWay.read
  | .got path t, .remember _ _, ⟨rfl, rfl⟩ => exact onWay.remembered

end onWay

/-- Along a composition with one slot after the other. -/
theorem OnWay.steps {x : Setting} (cached : x.options.cache.isSome)
    (sequential : x.options.parallel = false) {d : Document} {q : Process} {s : Session}
    (steps : Process.Steps x.host.answer (Engine.document x.host.resolve x.options d)
      (.start x.cache) q s) :
    ∃ w, (lookupMonitor x.options).Accepts (fun w' _ => w' = .idle) w q ∧ OnWay x w s := by
  have alone : ¬ (lookupMonitor x.options).forks := by
    intro parallel
    rw [show x.options.parallel = true from parallel] at sequential
    exact Bool.noConfusion sequential
  have start : OnWay x .idle (.start x.cache) :=
    ⟨by simp [Lookup.path?], fun path t _ => .inl rfl⟩
  exact (document_keeps_way cached x.host.resolve d).steps alone
    (fun w s request onWay allowed => onWay.step allowed) start steps

/-- With one slot after the other, the host is asked about a path only while
    the cache does not hold the path. -/
theorem sequential_asks_of_missing {x : Setting} (cached : x.options.cache.isSome)
    (sequential : x.options.parallel = false) {d : Document} {s : Session} {request : Request}
    {next : request.Answer → Process} {path : Text}
    (steps : Process.Steps x.host.answer (Engine.document x.host.resolve x.options d)
      (.start x.cache) (.ask request next) s)
    (asks : request = .probe path ∨ request = .read path) : s.cache.held? path = none := by
  obtain ⟨w, accepts, onWay⟩ := OnWay.steps cached sequential steps
  have allowed : w.Allows request := by
    cases accepts with
    | ask allowed => exact allowed
  apply onWay.missing path
  -- Only on the way to the path is the host asked about it.
  match w, request, allowed with
  | .missed q, .probe _, rfl => simpa [Lookup.path?] using asks
  | .present q, .read _, rfl => simpa [Lookup.path?] using asks
  | .got _ _, .remember _ _, _ => simp at asks
  | .idle, .lookUp _, _ => simp at asks
  | .idle, .call _, _ => simp at asks
  | .idle, .note _, _ => simp at asks

/-- With one slot after the other, no source is successfully read twice. -/
theorem sequential_reads_once {x : Setting} (cached : x.options.cache.isSome)
    (sequential : x.options.parallel = false) {d : Document} {s : Session} {q : Process}
    (steps : Process.Steps x.host.answer (Engine.document x.host.resolve x.options d)
      (.start x.cache) q s) {path t : Text} (read : x.read path = .ok t) :
    s.journal.count (.read path) ≤ 1 := by
  obtain ⟨w, -, onWay⟩ := OnWay.steps cached sequential steps
  rcases onWay.reads path t read with zero | ⟨one, -⟩
  · omega
  · omega

end lookups

end MarkdownOutlets
