import Mathlib.Algebra.BigOperators.Group.List.Basic
import Mathlib.Algebra.Order.Group.Multiset
import MarkdownOutlets.Proofs.Composition.Account
import MarkdownOutlets.Proofs.Process.Reporting

/-! # What a process has to ask

  The functions that a composition calls and the sources that it reads are
  due: each of them is asked for once, and nothing else is. `Setting.Owes` says
  so along the structure of a process. The requests that are due are divided
  among branches that run side by side; each one that is made is due no longer.
  A process may end without having read every source that it might have read.
  It may end with a function that is still due only if slots are resolved one
  after the other, by a fault.

  The sources do not change while the composition runs, and what a function
  gives may depend on everything that was called before. The main statement,
  `Setting.Owes.ended`, accounts for the requests of every interleaving.
-/

namespace MarkdownOutlets

/-! ### Requests that are counted -/

/-- The function that a request calls. -/
def Request.call? : Request → Option Callback
  | .call c => some c
  | _ => none

/-- The path of the source that a request reads. -/
def Request.read? : Request → Option Text
  | .read path => some path
  | _ => none

/-- A request calls a function or reads a source. -/
def Request.isCounted : Request → Bool
  | .call _ | .read _ => true
  | _ => false

/-- The functions called, in this order. -/
def callsOf (journal : List Request) : List Callback := journal.filterMap Request.call?

/-- The paths of the sources read, in this order. -/
def readsOf (journal : List Request) : List Text := journal.filterMap Request.read?

/-- The requests that are counted, without their order. -/
def counted (journal : List Request) : Multiset Request :=
  (journal.filter Request.isCounted : List Request)

@[simp] theorem counted_nil : counted [] = 0 := rfl

theorem counted_append (first second : List Request) :
    counted (first ++ second) = counted first + counted second := by
  simp only [counted, List.filter_append, Multiset.coe_add]

theorem counted_singleton (request : Request) :
    counted [request] = if request.isCounted then {request} else 0 := by
  unfold counted
  cases h : request.isCounted <;> simp [h]

/-- What is picked of the requests that are counted, if nothing is picked of others. -/
theorem filterMap_counted {β : Type} {pick : Request → Option β}
    (pick_counted : ∀ request, (pick request).isSome → request.isCounted) (journal : List Request) :
    (counted journal).filterMap pick = (journal.filterMap pick : List β) := by
  rw [counted, Multiset.filterMap_coe, List.filterMap_filter]
  congr 1
  refine List.filterMap_congr fun request _ => ?_
  cases picked : pick request with
  | none => simp
  | some b => simp [pick_counted request (by simp [picked])]

/-- No function is called by any of the requests. -/
def NoCalls (requests : Multiset Request) : Prop := ∀ c, .call c ∉ requests

theorem noCalls_zero : NoCalls 0 := fun _ => Multiset.notMem_zero _

theorem NoCalls.add {first second : Multiset Request} (no_first : NoCalls first)
    (no_second : NoCalls second) : NoCalls (first + second) := by
  intro c mem
  rcases Multiset.mem_add.mp mem with mem | mem
  · exact no_first c mem
  · exact no_second c mem

theorem noCalls_read (path : Text) : NoCalls {.read path} := by
  intro c mem
  simp at mem

/-- Requests without calls, each of which is divided among some parts. -/
theorem noCalls_sum {parts : List (Multiset Request)} (each : ∀ part ∈ parts, NoCalls part) :
    NoCalls parts.sum := by
  induction parts with
  | nil => exact noCalls_zero
  | cons part parts ih =>
    rw [List.sum_cons]
    exact (each part (by simp)).add (ih fun other mem => each other (by simp [mem]))

namespace Setting

/-! ### Sources that do not change, and functions with a state -/

/-- The host that answers about sources as in the setting, and whose functions
    may have a state: what they give may depend on what was called before. -/
def hostWith (x : Setting) {σ : Type} (call : Callback → StateM σ (Except Text Content)) :
    Host (StateM σ) where
  resolve := x.host.resolve
  probe path := pure (x.probed path)
  read path := pure (x.read path)
  call := call

variable (x : Setting)

/-- What the cache may hold for a path: its initial entry, or if there is none,
    nothing or the text that the host has. -/
inductive MayHold (path : Text) : Option Value → Prop
  /-- The initial entry. -/
  | initial {v : Value} (found : x.cache.held? path = some v) : MayHold path (some v)
  /-- Nothing. -/
  | nothing (isNew : x.IsNew path) : MayHold path none
  /-- The text of the host. -/
  | added {t : Text} (isNew : x.IsNew path) (text : x.text? path = some t) :
      MayHold path (some (.text t))

/-- The cache holds what it may hold. -/
def Proper (cache : Cache) : Prop := ∀ path, x.MayHold path (cache.held? path)

/-- The answer may be given to the request. Functions may give anything. -/
def May : (request : Request) → request.Answer → Prop
  | .probe path, answer => answer = x.probed path
  | .read path, answer => answer = x.read path
  | .lookUp path, answer => x.MayHold path answer
  | _, _ => True

/-- A request does not give the cache anything but a text of the host. -/
def Honest : Request → Prop
  | .remember path t => x.IsNew path ∧ x.text? path = some t
  | _ => True

variable {x}

/-- The initial cache holds what it may hold. -/
theorem proper_start : x.Proper x.cache := by
  intro path
  cases found : x.cache.held? path with
  | none => exact .nothing found
  | some v => exact .initial found

section host

variable {σ : Type} {call : Callback → StateM σ (Except Text Content)}

/-- Every answer is one that may be given. -/
theorem may_reply {s : Session} (proper : x.Proper s.cache) (request : Request) (host : σ) :
    x.May request ((x.hostWith call).reply request s host).1 := by
  cases request with
  | lookUp path => exact proper path
  | probe path => rfl
  | read path => rfl
  | call c => trivial
  | remember path t => trivial
  | note n => trivial

/-- A cache that is given texts of the host holds what it may hold. -/
theorem proper_reply {s : Session} (proper : x.Proper s.cache) {request : Request}
    (honest : x.Honest request) (host : σ) :
    x.Proper ((x.hostWith call).reply request s host).2.1.cache := by
  cases request with
  | remember path t =>
    obtain ⟨isNew, text⟩ := honest
    intro q
    have held : ((x.hostWith call).reply (.remember path t) s host).2.1.cache.held? q =
        if q = path then some (.text t) else s.cache.held? q := Cache.held?_remember _ _ _ _
    rw [held]
    split
    · rename_i same
      exact same ▸ .added isNew text
    · exact proper q
  | _ => exact proper

end host

/-! ### Dues -/

variable (x)

/-- A process may end with the outcome while some requests are still due: no
    function is among them, unless slots are resolved one after the other and
    there was a fault. -/
def Settles (outcome : Outcome) (left : Multiset Request) : Prop :=
  (x.options.parallel = false ∧ outcome.isOk = false) ∨ NoCalls left

/-- The requests `due` are those that are counted which the process makes; at its
    end `Φ` holds of its outcome and of those that it did not make. -/
inductive Owes : (Φ : Outcome → Multiset Request → Prop) → (due : Multiset Request) → Process → Prop
  /-- The end. -/
  | done {Φ : Outcome → Multiset Request → Prop} {due : Multiset Request} {outcome : Outcome}
      (ends : Φ outcome due) : Owes Φ due (.done outcome)
  /-- A request that is not counted. -/
  | other {Φ : Outcome → Multiset Request → Prop} {due : Multiset Request} {request : Request}
      {next : request.Answer → Process} (uncounted : request.isCounted = false)
      (honest : x.Honest request)
      (rest : ∀ answer, x.May request answer → Owes Φ due (next answer)) :
      Owes Φ due (.ask request next)
  /-- A request that is due. -/
  | due {Φ : Outcome → Multiset Request → Prop} {left : Multiset Request} {request : Request}
      {next : request.Answer → Process} (is_counted : request.isCounted = true)
      (rest : ∀ answer, x.May request answer → Owes Φ left (next answer)) :
      Owes Φ (request ::ₘ left) (.ask request next)
  /-- Branches side by side, each with its own dues. What they do not ask for is
      due no longer. -/
  | all (parallel : x.options.parallel = true) {Φ : Outcome → Multiset Request → Prop}
      {branches : List Process} {left : Multiset Request} {next : List Outcome → Process}
      (members : List (Process × Multiset Request)) (eq : branches = members.map Prod.fst)
      (each : ∀ m ∈ members, Owes x.Settles m.2 m.1)
      (rest : ∀ outcomes more, NoCalls more → Owes Φ (more + left) (next outcomes)) :
      Owes Φ ((members.map Prod.snd).sum + left) (.all branches next)

variable {x}

/-- A process that runs side by side with others has called its functions in the
    end. -/
theorem Settles.noCalls (parallel : x.options.parallel = true) {outcome : Outcome}
    {left : Multiset Request} (settles : x.Settles outcome left) : NoCalls left := by
  rcases settles with ⟨sequential, -⟩ | none_left
  · simp [parallel] at sequential
  · exact none_left

namespace Owes

variable {Φ Ψ : Outcome → Multiset Request → Prop} {due more : Multiset Request} {p : Process}

theorem note {n : Note} (rest : x.Owes Φ due p) : x.Owes Φ due (.note n p) :=
  .other rfl trivial fun _ _ => rest

/-- More may be due, if it may be left in the end. -/
theorem frame (h : x.Owes Φ due p)
    (ends : ∀ outcome left, Φ outcome left → Ψ outcome (more + left)) :
    x.Owes Ψ (more + due) p := by
  induction h with
  | done holds => exact .done (ends _ _ holds)
  | other uncounted honest _ ih => exact .other uncounted honest fun answer may => ih answer may ends
  | due is_counted _ ih =>
    rw [Multiset.add_cons]
    exact .due is_counted fun answer may => ih answer may ends
  | all parallel members eq each _ _ ih =>
    -- The branches keep their dues; what is added is due behind them.
    rw [add_left_comm]
    refine .all parallel members eq each fun outcomes extra no_calls => ?_
    rw [add_left_comm]
    exact ih outcomes extra no_calls ends

theorem bind {k : Outcome → Process} (first : x.Owes Φ due p)
    (second : ∀ outcome left, Φ outcome left → x.Owes Ψ (left + more) (k outcome)) :
    x.Owes Ψ (due + more) (p.bind k) := by
  induction first with
  | done ends => exact second _ _ ends
  | other uncounted honest _ ih =>
    exact .other uncounted honest fun answer may => ih answer may second
  | due is_counted _ ih =>
    rw [Multiset.cons_add]
    exact .due is_counted fun answer may => ih answer may second
  | all parallel members eq each _ _ ih =>
    -- The second process comes behind the branches, and what they left comes with it.
    rw [add_assoc]
    refine .all parallel members eq each fun outcomes extra no_calls => ?_
    rw [← add_assoc]
    exact ih outcomes extra no_calls second

/-- A source that is not read makes no difference. -/
theorem spare (h : x.Owes x.Settles due p) (no_calls : NoCalls more) :
    x.Owes x.Settles (more + due) p :=
  h.frame fun _ _ settles => settles.imp_right no_calls.add

/-- A process may take a note in the end. -/
theorem closing {n : Note} (h : x.Owes x.Settles due p) :
    x.Owes x.Settles due (p.bind fun outcome => .note n (.done outcome)) := by
  rw [← add_zero due]
  refine h.bind fun outcome left settles => .note (.done ?_)
  rwa [add_zero]

/-! ### Several processes -/

section several

variable {ι : Type} {ps : ι → Process} {dues : ι → Multiset Request} {ns : List ι}
  {k : List (Option Content) → Process}

theorem inTurn (sequential : x.options.parallel = false)
    (each : ∀ n ∈ ns, x.Owes x.Settles (dues n) (ps n)) (rest : ∀ cs, x.Owes x.Settles 0 (k cs)) :
    x.Owes x.Settles (ns.map dues).sum (.inTurn (ns.map ps) k) := by
  induction ns generalizing k with
  | nil => exact rest []
  | cons n ns ih =>
    rw [List.map_cons, List.sum_cons]
    refine (each n (by simp)).bind fun outcome left settles => ?_
    match outcome with
    | .error f => exact .done (.inl ⟨sequential, rfl⟩)
    | .ok c =>
      -- Without a fault nothing is left but sources that were not read.
      have no_calls : NoCalls left := settles.resolve_left (by simp [Except.isOk, Except.toBool])
      exact (ih (fun m mem => each m (by simp [mem])) fun cs => rest (c :: cs)).spare no_calls

theorem sideBySide (parallel : x.options.parallel = true)
    (each : ∀ n ∈ ns, x.Owes x.Settles (dues n) (ps n)) (rest : ∀ cs, x.Owes x.Settles 0 (k cs)) :
    x.Owes x.Settles (ns.map dues).sum (.sideBySide (ns.map ps) k) := by
  have members : ns.map ps = (ns.map fun n => (ps n, dues n)).map Prod.fst := by simp
  have sum : (ns.map dues).sum = ((ns.map fun n => (ps n, dues n)).map Prod.snd).sum + 0 := by
    simp [Function.comp_def]
  rw [sum]
  unfold Process.sideBySide
  refine .all parallel _ members (by simpa using each) fun outcomes more no_calls => ?_
  cases Process.settle outcomes with
  | error f => exact .done (.inr (no_calls.add noCalls_zero))
  | ok cs => exact (rest cs).spare no_calls

/-- Processes that run one after the other or side by side. -/
theorem gather (each : ∀ n ∈ ns, x.Owes x.Settles (dues n) (ps n))
    (rest : ∀ cs, x.Owes x.Settles 0 (k cs)) :
    x.Owes x.Settles (ns.map dues).sum (.gather x.options.parallel (ns.map ps) k) := by
  unfold Process.gather
  cases parallel : x.options.parallel with
  | true => exact .sideBySide parallel each rest
  | false => exact .inTurn parallel each rest

end several

/-! ### Runs -/

variable {σ : Type} {call : Callback → StateM σ (Except Text Content)}

/-- What is due before some requests is what was made of it, and what is due after
    them. -/
structure Pays (due : Multiset Request) (before : Session) (left : Multiset Request)
    (after : Session) : Prop where
  /-- The requests that were made. -/
  journal : ∃ made, after.journal = before.journal ++ made ∧ due = counted made + left
  /-- The cache holds what it may hold. -/
  proper : x.Proper after.cache

theorem Pays.trans {due middle left : Multiset Request} {s t u : Session}
    (first : Pays (x := x) due s middle t) (second : Pays (x := x) middle t left u) :
    Pays (x := x) due s left u := by
  obtain ⟨made, journal_eq, due_eq⟩ := first.journal
  obtain ⟨more, more_journal, middle_eq⟩ := second.journal
  refine ⟨⟨made ++ more, ?_, ?_⟩, second.proper⟩
  · rw [more_journal, journal_eq, List.append_assoc]
  · rw [due_eq, middle_eq, counted_append, add_assoc]

/-- A request pays for itself if it is due. -/
theorem answer {request : Request} {next : request.Answer → Process} {s : Session} {host : σ}
    (h : x.Owes Φ due (.ask request next)) (proper : x.Proper s.cache) :
    ∃ left, x.Owes Φ left (next ((x.hostWith call).reply request s host).1) ∧
      Pays (x := x) due s left ((x.hostWith call).reply request s host).2.1 := by
  have may : x.May request ((x.hostWith call).reply request s host).1 := may_reply proper request host
  have journal := (x.hostWith call).reply_journal request s host
  cases h with
  | other uncounted honest rest =>
    refine ⟨due, rest _ may, ⟨[request], journal, ?_⟩, proper_reply proper honest host⟩
    simp [counted_singleton, uncounted]
  | @due _ left _ _ is_counted rest =>
    have honest : x.Honest request := by
      cases request with
      | remember => simp [Request.isCounted] at is_counted
      | _ => trivial
    refine ⟨left, rest _ may, ⟨[request], journal, ?_⟩, proper_reply proper honest host⟩
    simp [counted_singleton, is_counted]

/-- One step pays for the request that it makes. -/
theorem step {q : Process} {s t : Session × σ} (h : x.Owes Φ due p) (proper : x.Proper s.1.cache)
    (step : Process.Step (x.hostWith call).serve p s q t) :
    ∃ left, x.Owes Φ left q ∧ Pays (x := x) due s.1 left t.1 := by
  induction step generalizing Φ due with
  | ask request next s => exact h.answer proper
  | @branch _ b' s t front back next _ ih =>
    cases h with
    | @all parallel _ _ left _ members eq each rest =>
      obtain ⟨front, others, rfl, rfl, others_eq⟩ := List.append_eq_map_iff.mp eq
      obtain ⟨⟨b, own⟩, back, rfl, rfl, rfl⟩ := List.map_eq_cons_iff.mp others_eq
      -- Only the dues of the branch that takes the step change.
      obtain ⟨own_left, owes, ⟨made, journal_eq, own_eq⟩, proper⟩ := ih (each (b, own) (by simp)) proper
      refine ⟨_, .all parallel (front ++ (b', own_left) :: back) (by simp) ?_ rest,
        ⟨made, journal_eq, ?_⟩, proper⟩
      · intro m mem
        rcases List.mem_append.mp mem with mem | mem
        · exact each m (by simp [mem])
        · rcases List.mem_cons.mp mem with rfl | mem
          · exact owes
          · exact each m (by simp [mem])
      · simp only at own_eq
        simp only [List.map_append, List.map_cons, List.sum_append, List.sum_cons, own_eq]
        ac_rfl
  | join outcomes next s =>
    cases h with
    | @all parallel _ _ left _ members eq each rest =>
      -- The branches have called all their functions.
      have no_calls : NoCalls (members.map Prod.snd).sum := by
        refine noCalls_sum fun part mem => ?_
        obtain ⟨⟨b, own⟩, member, rfl⟩ := List.mem_map.mp mem
        have at_end : b ∈ outcomes.map Process.done := by
          rw [eq]
          exact List.mem_map_of_mem (f := Prod.fst) member
        obtain ⟨outcome, -, rfl⟩ := List.mem_map.mp at_end
        have owes := each _ member
        cases owes with
        | done settles => exact settles.noCalls parallel
      exact ⟨_, rest outcomes _ no_calls, ⟨[], by simp, by simp⟩, proper⟩

/-- So does every interleaving. -/
theorem steps {q : Process} {s t : Session × σ} (h : x.Owes Φ due p) (proper : x.Proper s.1.cache)
    (steps : Process.Steps (x.hostWith call).serve p s q t) :
    ∃ left, x.Owes Φ left q ∧ Pays (x := x) due s.1 left t.1 := by
  induction steps with
  | refl => exact ⟨due, h, ⟨[], by simp, by simp⟩, proper⟩
  | tail _ step ih =>
    obtain ⟨middle, owes, first⟩ := ih
    obtain ⟨left, owes, second⟩ := owes.step first.proper step
    exact ⟨left, owes, first.trans second⟩

/-- At the end of an interleaving, what was due is what was asked and what is left
    of it. -/
theorem ended {outcome : Outcome} {host : σ} {t : Session × σ} (h : x.Owes Φ due p)
    (steps : Process.Steps (x.hostWith call).serve p (.start x.cache, host) (.done outcome) t) :
    ∃ left, Φ outcome left ∧ due = counted t.1.journal + left := by
  obtain ⟨left, owes, ⟨made, journal_eq, due_eq⟩, -⟩ := h.steps proper_start steps
  have made_eq : t.1.journal = made := journal_eq
  cases owes with
  | done ends => exact ⟨left, ends, made_eq ▸ due_eq⟩

end Owes

end Setting

end MarkdownOutlets
