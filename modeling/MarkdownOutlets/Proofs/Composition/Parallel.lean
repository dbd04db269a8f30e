import MarkdownOutlets.Proofs.Composition.EngineAccount

/-! # Slots side by side

  When the slots of a document are resolved side by side, the branches share
  the journal and the cache, and their steps may be interleaved in any order.
  The main statement, `parallel_refines_sequential`, says that nobody can
  tell from the end: it is the one of the composition that resolves one slot
  after the other.

  * If that composition has a text, so has the interleaved one, and it is the
    same text. The problems are the same up to their order, and the cache ends
    with the same entries.
  * If it ends with a fault, the interleaved one ends with the same fault,
    whichever branch came upon a fault first.
-/

namespace MarkdownOutlets

/-- The end of a composition, which is its result and the cache, resembles
    another one: the same fault, or the same text with the same problems up to
    order and the same entries in the cache. -/
inductive Resembles : Except Fault Composition × Cache → Except Fault Composition × Cache → Prop
  /-- Both end with the same fault. -/
  | fault (f : Fault) (cache cache' : Cache) : Resembles (.error f, cache) (.error f, cache')
  /-- Both have the same text. -/
  | text (text : Text) {errors errors' : List Record} (same_errors : errors.Perm errors')
      {cache cache' : Cache} (same_entries : ∀ key, cache.get? key = cache'.get? key) :
      Resembles (.ok { text, errors }, cache) (.ok { text, errors := errors' }, cache')

namespace Setting

/-- The setting in which slots are resolved side by side, or not. -/
def withParallel (x : Setting) (parallel : Bool) : Setting :=
  { x with options := { x.options with parallel } }

variable (x : Setting)

theorem alike_withParallel : (x.withParallel true).Alike (x.withParallel false) where
  resolve := rfl
  called := fun _ => rfl
  view := fun _ => rfl
  options := rfl

/-- An interleaving ends as another one does with slots one after the
    other. -/
theorem Ended.resembles {a b : Account} (agree : (x.withParallel true).Agree (x.withParallel false) a b)
    {outcome outcome' : Outcome} {s t : Session} (interleaved : (x.withParallel true).Ended a outcome s)
    (sequential : (x.withParallel false).Ended b outcome' t) :
    Resembles (Composition.ofRun outcome s, s.cache) (Composition.ofRun outcome' t, t.cache) := by
  have outcomes : outcome = outcome' := by
    rw [interleaved.outcome, sequential.outcome, agree.outcome]
  subst outcomes
  -- After a fault nothing else has to be the same.
  cases outcome with
  | error f => exact .fault f s.cache t.cache
  | ok content =>
    have isOk : a.outcome.isOk := by
      rw [← interleaved.outcome]
      rfl
    have problems : s.problems.Perm t.problems := by
      refine interleaved.problems.1.trans ?_
      rw [agree.problems (.inr isOk)]
      exact sequential.problems.1.symm
    have entries (key : Scalar) : s.cache.get? key = t.cache.get? key := by
      rw [interleaved.entries, sequential.entries, agree.kept (.inr isOk) fun _ => Iff.rfl]
      rfl
    exact .text _ (problems.map _) entries

end Setting

/-- However the steps of the branches are interleaved, the composition comes
    to an end, which resembles that of the composition with one slot after the
    other. -/
theorem parallel_refines_sequential (h : Host Id) (d : Document) (o : Options) (shared : Cache) :
    let start := Session.start (CacheChoice.initial o.cache shared)
    let (sequential, t) := (h.compose d { o with parallel := false }).run start
    Process.AlwaysEnds h.answer
      (fun outcome s =>
        Resembles (Composition.ofRun outcome s, s.cache) (Composition.ofRun sequential t, t.cache))
      (Engine.document h.resolve { o with parallel := true } d) start := by
  intro start
  refine .of_steps fun outcome s steps => ?_
  let x : Setting := { host := h, options := o, shared }
  obtain ⟨a, b, yields, yields', agree⟩ := x.alike_withParallel.document d
  have one_by_one := Process.run_steps h.answer
    (Engine.document h.resolve { o with parallel := false } d) start
  exact (yields.ended steps).resembles x agree (yields'.ended one_by_one)

end MarkdownOutlets
