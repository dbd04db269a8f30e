import Mathlib.Logic.Relation
import MarkdownOutlets.Proofs.Composition.EngineAccount
import MarkdownOutlets.Proofs.Composition.Lookups

/-! # The cache is an overlay

  A cache stands in front of the host and hides it where it has an entry.
  Otherwise it changes nothing: a composition with a cache comes to the same
  as one without, against the host that serves the entries of the cache and
  behaves as before elsewhere.

  A composition leaves the entries that are there alone, and adds the texts
  that it read, as they were read. So over many compositions that share a
  cache, an entry once present stays what it is, whatever happens to the
  sources in between.
-/

namespace MarkdownOutlets

/-- The host that serves the entries of a cache, and behaves as before for
    other paths. -/
def Host.overlay {m : Type → Type} [Monad m] (h : Host m) (c : Cache) : Host m :=
  { h with
    probe := fun path => if (c.held? path).isSome then pure (.ok true) else h.probe path
    read := fun path =>
      match (c.held? path).bind Value.text? with
      | some t => pure (.ok t)
      | none => h.read path }

namespace Setting

/-- The setting without a cache, in which the host serves the entries of the
    cache instead. -/
def overlaid (x : Setting) : Setting :=
  { host := x.host.overlay x.cache, options := { x.options with cache := none }, shared := [] }

variable {x : Setting}

/-- The same is seen of every source. -/
theorem overlaid_view (textual : x.cache.IsTextual) (path : Text) :
    x.overlaid.view path = x.view path := by
  have no_cache : x.overlaid.cache.held? path = none := rfl
  have probed_eq : x.overlaid.probed path =
      if (x.cache.held? path).isSome then .ok true else x.probed path := rfl
  have read_eq : x.overlaid.read path =
      match (x.cache.held? path).bind Value.text? with
      | some t => .ok t
      | none => x.read path := rfl
  simp only [view, no_cache, probed_eq, read_eq]
  cases recalled : x.cache.held? path with
  | none => rfl
  | some v =>
    obtain ⟨t, rfl⟩ := textual path v recalled
    rfl

theorem alike_overlaid (textual : x.cache.IsTextual) : x.Alike x.overlaid where
  resolve := rfl
  called := fun _ => rfl
  view := fun path => (overlaid_view textual path).symm
  options := rfl

variable (x) (d : Document)

/-- What is known when a composition with a cache ends with the outcome, in the
    session. -/
structure OverlayEnd (outcome : Outcome) (s : Session) : Prop where
  /-- Every composition without a cache, against the host that serves the
      entries, ends with the same outcome and the same problems; up to their
      order if slots are resolved side by side. -/
  same : ∀ outcome' t,
    Process.Steps x.overlaid.host.answer
      (Engine.document x.overlaid.host.resolve x.overlaid.options d) (.start []) (.done outcome') t →
    outcome = outcome' ∧ x.SameProblems s.problems t.problems
  /-- The entries that were there are there. -/
  standing : ∀ key v, x.cache.get? key = some v → s.cache.get? key = some v
  /-- The others are the texts that were read, and nothing else. -/
  added : ∀ key v, x.cache.get? key = none →
    (s.cache.get? key = some v ↔ ∃ path t, key = .text path ∧ v = .text t ∧
      .read path ∈ s.journal ∧ x.read path = .ok t)
  /-- Only sources that the host has were read. -/
  present : ∀ path, .read path ∈ s.journal → x.probed path = .ok true
  /-- The host was never asked about a path of the cache. -/
  asks : ∀ path, .probe path ∈ s.journal ∨ .read path ∈ s.journal → x.cache.held? path = none
  /-- With one slot after the other, no source was successfully read twice. -/
  once : x.options.parallel = false → ∀ path t, x.read path = .ok t →
    s.journal.count (.read path) ≤ 1

/-- Some composition, in a setting of its own, turns the shared cache into the
    other one. -/
inductive SharedCall : Cache → Cache → Prop
  /-- The composition may have ended with a text or with a fault. -/
  | ended (x : Setting) (d : Document) {outcome : Outcome} {s : Session}
      (steps : Process.Steps x.host.answer (Engine.document x.host.resolve x.options d)
        (.start x.cache) (.done outcome) s) :
      SharedCall x.shared (CacheChoice.aftermath x.options.cache x.shared s).shared

/-- What a cache does for a document, and what it does not do. -/
structure CacheIsOverlay : Prop where
  /-- In every interleaving the composition comes to an end at which only the
      texts that were read are new, and that is the one without a cache. -/
  ends : Process.AlwaysEnds x.host.answer (x.OverlayEnd d)
    (Engine.document x.host.resolve x.options d) (.start x.cache)
  /-- A branch asks the host, and gives texts to the cache, only on its way
      from its own look-up that failed. -/
  lookups : ∀ {es : List Process.Exchange} {request : Request} {next : request.Answer → Process},
    Process.Branch (Engine.document x.host.resolve x.options d) es (.ask request next) →
    ¬ Lookup.idle.Allows request → ∃ before e, es = before ++ [e] ∧ FollowsUp e request
  /-- With one slot after the other, the host is asked about a path only while
      the cache does not hold the path. -/
  moments : x.options.parallel = false → ∀ {s : Session} {request : Request}
    {next : request.Answer → Process} {path : Text},
    Process.Steps x.host.answer (Engine.document x.host.resolve x.options d) (.start x.cache)
      (.ask request next) s →
    request = .probe path ∨ request = .read path → s.cache.held? path = none
  /-- Over any compositions that share a cache, an entry stays what it is. -/
  shared : ∀ {c c' : Cache} {key : Scalar} {v : Value}, Relation.ReflTransGen SharedCall c c' →
    c.get? key = some v → c'.get? key = some v

variable {x d}

/-- A composition leaves the entries of its cache alone. -/
theorem Ended.standing {a : Account} {outcome : Outcome} {s : Session} (ended : x.Ended a outcome s)
    {key : Scalar} {v : Value} (found : x.cache.get? key = some v) : s.cache.get? key = some v := by
  rw [ended.entries]
  simp [entryAtEnd, found]

theorem overlayEnd (textual : x.cache.IsTextual) (cached : x.options.cache.isSome)
    {outcome : Outcome} {s : Session}
    (steps : Process.Steps x.host.answer (Engine.document x.host.resolve x.options d)
      (.start x.cache) (.done outcome) s) : x.OverlayEnd d outcome s := by
  obtain ⟨a, b, yields, yields', agree⟩ := (alike_overlaid textual).document d
  have ended := yields.ended steps
  constructor
  case same =>
    intro outcome' t steps'
    have ended' := yields'.ended steps'
    have problems := agree.problems (.inl rfl)
    refine ⟨?_, ?_, fun sequential => ?_⟩
    · rw [ended.outcome, ended'.outcome, agree.outcome]
    · exact ended.problems.1.trans (problems ▸ ended'.problems.1.symm)
    · rw [ended.problems.2 sequential, ended'.problems.2 sequential, problems]
  case standing => exact fun key v found => ended.standing found
  case added =>
    intro key v new
    constructor
    · intro found
      -- Only texts by path are added.
      have entry := ended.entries key
      rw [found] at entry
      unfold entryAtEnd at entry
      cases key with
      | text path =>
        have recalled : s.cache.held? path = some v := found
        obtain ⟨mem, t, read, v_eq⟩ := (ended.added cached path new v).mp recalled
        exact ⟨path, t, rfl, v_eq, mem, read⟩
      | _ => simp [new] at entry
    · rintro ⟨path, t, rfl, rfl, mem, read⟩
      exact (ended.added cached path new _).mpr ⟨mem, t, read, rfl⟩
  case present => exact ended.present
  case asks => exact ended.asks
  case once => exact fun sequential path t => sequential_reads_once cached sequential steps

/-- A composition leaves the entries of the shared cache alone. -/
theorem SharedCall.get? {c c' : Cache} (call : SharedCall c c') {key : Scalar} {v : Value}
    (found : c.get? key = some v) : c'.get? key = some v := by
  obtain ⟨x, d, steps⟩ := call
  unfold CacheChoice.aftermath
  split
  · rename_i choice
    obtain ⟨a, -, yields, -, -⟩ := (show x.Alike x from ⟨rfl, fun _ => rfl, fun _ => rfl, rfl⟩).document d
    -- The composition started from the shared cache, and has kept its entries.
    have initial : x.cache.get? key = some v := by
      rw [Setting.cache, choice]
      exact found
    exact (yields.ended steps).standing initial
  · exact found

end Setting

/-- The cache is an overlay over the host, and nothing else. -/
theorem cache_overlay (x : Setting) (d : Document) (cached : x.options.cache.isSome)
    (textual : x.cache.IsTextual) : x.CacheIsOverlay d := by
  constructor
  case ends => exact .of_steps fun outcome s steps => Setting.overlayEnd textual cached steps
  case lookups => exact branch_follows_up cached
  case moments =>
    exact fun sequential _ _ _ _ steps asks =>
      sequential_asks_of_missing cached sequential steps asks
  case shared =>
    intro c c' key v calls found
    induction calls with
    | refl => exact found
    | tail _ call ih => exact call.get? ih

/-- A source from the cache with an outlet for another one that is read. -/
theorem cache_overlay_nested :
    let x : Setting :=
      { host :=
          { resolve := fun path _ _ => path
            probe := fun path => .ok (path == "b".toList)
            read := fun _ => .ok "B".toList
            call := fun _ => .ok (.text []) }
        options := { cache := some .shared }
        shared := [(.text "a".toList, .text "A <!-- outlet: b -->".toList)] }
    let d : Document :=
      { body := .source "a".toList, slots := [(.text "b".toList, .source "b".toList)] }
    x.options.cache.isSome ∧ x.cache.IsTextual ∧ x.CacheIsOverlay d := by
  intro x d
  have textual : x.cache.IsTextual := by
    intro path v found
    obtain ⟨-, rfl⟩ : "a".toList = path ∧ Value.text "A <!-- outlet: b -->".toList = v := by
      simpa [x, Setting.cache, CacheChoice.initial, Cache.held?, Entries.get?] using found
    exact ⟨_, rfl⟩
  exact ⟨rfl, textual, cache_overlay x d rfl textual⟩

end MarkdownOutlets
