import Mathlib.Tactic.Choose
import MarkdownOutlets.Proofs.Composition.Account

/-! # What a document comes to

  The account of a document depends on what the composition sees of the
  sources and functions, and on the policies. It does not depend on whether a
  text comes from the cache or from the host, and hardly on whether slots are
  resolved side by side: that matters only to what is noted and kept when the
  composition ends with a fault.

  The main statement, `Setting.Alike.document`, compares the accounts of one
  document in two settings which show it the same sources and functions.
-/

namespace MarkdownOutlets

/-! ### Accounts of several processes -/

namespace Account

@[simp] theorem followedBy_outcome (a b : Account) : (a.followedBy b).outcome = b.outcome := rfl

theorem followedBy_only (a : Account) : a.followedBy (.only a.outcome) = a := by
  simp [followedBy, only]

/-- What processes come to that run one after the other, up to the first
    fault. -/
def inTurn : List Account → (List (Option Content) → Outcome) → Account
  | [], finish => .only (finish [])
  | a :: rest, finish =>
    match a.outcome with
    | .error _ => a
    | .ok c => a.followedBy (inTurn rest fun cs => finish (c :: cs))

/-- What processes come to that run side by side, all to their end. -/
def sideBySide (accounts : List Account) (finish : List (Option Content) → Outcome) : Account where
  outcome := (Process.settle (accounts.map outcome)).bind finish
  problems := accounts.flatMap problems
  kept := accounts.flatMap kept

theorem inTurn_outcome (accounts : List Account) (finish : List (Option Content) → Outcome) :
    (inTurn accounts finish).outcome = (Process.settle (accounts.map outcome)).bind finish := by
  induction accounts generalizing finish with
  | nil => rfl
  | cons a rest ih =>
    cases h : a.outcome with
    | error f => simp [inTurn, h, Process.settle, Except.bind]
    | ok c =>
      simp only [inTurn, h, followedBy_outcome, ih, List.map_cons, Process.settle]
      cases Process.settle (rest.map outcome) <;> rfl

/-- Without a fault it makes no difference whether processes run one after the
    other or side by side. -/
theorem inTurn_eq_sideBySide {accounts : List Account} {cs : List (Option Content)}
    (finish : List (Option Content) → Outcome)
    (h : Process.settle (accounts.map outcome) = .ok cs) :
    inTurn accounts finish = sideBySide accounts finish := by
  induction accounts generalizing finish cs with
  | nil => rfl
  | cons a rest ih =>
    cases h_outcome : a.outcome with
    | error f => simp [h_outcome, Process.settle] at h
    | ok c =>
      simp only [List.map_cons, h_outcome, Process.settle] at h
      cases h_rest : Process.settle (rest.map outcome) with
      | error f => simp [h_rest, Except.map] at h
      | ok ds =>
        simp [inTurn, h_outcome, ih _ h_rest, sideBySide, followedBy, Process.settle, h_rest,
          Except.map, Except.bind]

/-- What processes come to that run one after the other or side by side. -/
def gather (parallel : Bool) (accounts : List Account)
    (finish : List (Option Content) → Outcome) : Account :=
  if parallel then sideBySide accounts finish else inTurn accounts finish

theorem gather_outcome (parallel : Bool) (accounts : List Account)
    (finish : List (Option Content) → Outcome) :
    (gather parallel accounts finish).outcome =
      (Process.settle (accounts.map outcome)).bind finish := by
  cases parallel with
  | true => rfl
  | false => exact inTurn_outcome accounts finish

/-- Without a fault the order makes no difference. -/
theorem gather_of_settle (parallel : Bool) {accounts : List Account} {cs : List (Option Content)}
    (finish : List (Option Content) → Outcome)
    (h : Process.settle (accounts.map outcome) = .ok cs) :
    gather parallel accounts finish = sideBySide accounts finish := by
  cases parallel with
  | true => rfl
  | false => exact inTurn_eq_sideBySide finish h

/-- Some part of what processes come to depends on the outcomes and on this part
    of the members only, if it is collected from them. -/
theorem gather_part {α ι : Type} (part : Account → List α)
    (followedBy : ∀ a b, part (a.followedBy b) = part a ++ part b)
    (sideBySide : ∀ accounts finish, part (sideBySide accounts finish) = accounts.flatMap part)
    (parallel : Bool) {a b : ι → Account} {ns : List ι} (finish : List (Option Content) → Outcome)
    (outcomes : ∀ n, (a n).outcome = (b n).outcome) (parts : ∀ n ∈ ns, part (a n) = part (b n)) :
    part (gather parallel (ns.map a) finish) = part (gather parallel (ns.map b) finish) := by
  cases parallel with
  | true =>
    simp only [gather, if_true, sideBySide, List.flatMap_def, List.map_map]
    exact congrArg List.flatten (List.map_congr_left parts)
  | false =>
    simp only [gather, Bool.false_eq_true, if_false]
    induction ns generalizing finish with
    | nil => rfl
    | cons n ns ih =>
      have first := parts n (by simp)
      have rest (finish : List (Option Content) → Outcome) :=
        ih finish fun m hm => parts m (by simp [hm])
      simp only [List.map_cons, inTurn, outcomes n]
      cases (b n).outcome with
      | error f => exact first
      | ok c => simp only [followedBy, first, rest]

/-- Outcomes that settle have no fault among them. -/
theorem isOk_of_settle {outcomes : List Outcome} {cs : List (Option Content)}
    (h : Process.settle outcomes = .ok cs) {outcome : Outcome} (mem : outcome ∈ outcomes) :
    outcome.isOk := by
  induction outcomes generalizing cs with
  | nil => simp at mem
  | cons first rest ih =>
    cases first with
    | error f => simp [Process.settle] at h
    | ok c =>
      rcases List.mem_cons.mp mem with rfl | mem
      · rfl
      · cases h_rest : Process.settle rest with
        | error f => simp [Process.settle, h_rest, Except.map] at h
        | ok ds => exact ih h_rest mem

end Account

namespace Setting

variable {x : Setting}

/-- The account of a process in front of another note. -/
theorem Yields.noteBehind {p : Process} {a : Account} {n : Note}
    (other : ∀ problem, n ≠ .problem problem) (h : x.Yields [] p a) :
    x.Yields [] (p.bind fun outcome => .note n (.done outcome)) a := by
  have behind := h.bind (k := fun outcome => .note n (.done outcome))
    (.noteOther other (.done [] a.outcome))
  rwa [Account.followedBy_only] at behind

theorem Yields.inTurn {ι : Type} {p : ι → Process} {a : ι → Account} {ns : List ι}
    {finish : List (Option Content) → Outcome} (each : ∀ n ∈ ns, x.Yields [] (p n) (a n)) :
    x.Yields [] (.inTurn (ns.map p) fun cs => .done (finish cs)) (.inTurn (ns.map a) finish) := by
  induction ns generalizing finish with
  | nil => exact .done [] _
  | cons n ns ih =>
    simp only [List.map_cons, Process.inTurn, Account.inTurn]
    cases h : (a n).outcome with
    | error f =>
      -- The fault is passed on, and the other processes do not run.
      have first := (each n (by simp)).bind (b := .only (.error f)) (k := fun
        | .error f => .fail f
        | .ok c => .inTurn (ns.map p) fun cs => .done (finish (c :: cs))) (by rw [h]; exact .done [] _)
      rwa [← h, Account.followedBy_only] at first
    | ok c =>
      refine (each n (by simp)).bind ?_
      rw [h]
      exact ih fun m hm => each m (by simp [hm])

theorem Yields.sideBySide (parallel : x.options.parallel = true) {ι : Type} {p : ι → Process}
    {a : ι → Account} {ns : List ι} {finish : List (Option Content) → Outcome}
    (each : ∀ n ∈ ns, x.Yields [] (p n) (a n)) :
    x.Yields [] (.sideBySide (ns.map p) fun cs => .done (finish cs))
      (.sideBySide (ns.map a) finish) := by
  let members : List (Process × Account) := ns.map fun n => (p n, a n)
  let last : Account := .only ((Process.settle (members.map fun m => m.2.outcome)).bind finish)
  have account : Account.sideBySide (ns.map a) finish =
      { outcome := last.outcome
        problems := members.flatMap (fun m => m.2.problems) ++ last.problems
        kept := members.flatMap (fun m => m.2.kept) ++ last.kept } := by
    simp [Account.sideBySide, Account.only, members, last, List.flatMap_map, Function.comp_def]
  rw [account]
  unfold Process.sideBySide
  refine .all parallel _ members (by simp [members]) (by simpa [members] using each) ?_
  simp only [last]
  cases Process.settle (members.map fun m => m.2.outcome) with
  | error f => exact .done [] _
  | ok cs => exact .done [] _

/-! ### The same sources and functions -/

variable (x)

/-- What the composition sees of a source: its content, from the cache or from
    the host, or nothing if the cache says so; or why there is no text. -/
def view (path : Text) : Except SourceFault (Option Content) :=
  match x.cache.held? path with
  | some v => .ok (if v.isNull then none else some (.ofValue v))
  | none =>
    match x.probed path with
    | .error fault => .error (fault.toSourceFault path)
    | .ok false => .error (.missing path)
    | .ok true =>
      match x.read path with
      | .error fault => .error (fault.toSourceFault path)
      | .ok t => .ok (some (.text t))

/-- The text of a source would be kept. -/
def Keeps (path : Text) : Prop := x.options.cache.isSome ∧ x.IsNew path

instance (path : Text) : Decidable (x.Keeps path) := by
  unfold Keeps IsNew
  infer_instance

/-- The account of a source that is loaded. -/
def loadAccount (path : Text) : Account :=
  match x.view path with
  | .ok content =>
    { outcome := .ok content, problems := [], kept := if x.Keeps path then [path] else [] }
  | .error fault =>
    { outcome := if x.options.onFileError = .throw then .error (.problem (.source fault)) else .ok none
      problems := [.source fault]
      kept := [] }

variable {x}

theorem failed_yields (asked : List Text) (fault : SourceFault) :
    x.Yields asked (Engine.sourceFailed (.ofOptions x.options) fault)
      { outcome := if x.options.onFileError = .throw then .error (.problem (.source fault)) else .ok none
        problems := [.source fault]
        kept := [] } := by
  unfold Engine.sourceFailed
  by_cases h : x.options.onFileError = .throw
  · have ended : x.Yields asked (.fail (.problem (.source fault))) _ := .done asked _
    simpa [Rules.ofOptions, h, Account.only] using ended.noteProblem (.source fault)
  · have ended : x.Yields asked (.done (.ok none)) _ := .done asked _
    simpa [Rules.ofOptions, h, Account.only] using ended.noteProblem (.source fault)

/-- What is seen of a new path for which the host has a text. -/
theorem loadAccount_of_text {path t : Text} (isNew : x.IsNew path) (h : x.text? path = some t) :
    x.loadAccount path =
      { outcome := .ok (some (.text t)), problems := [], kept := if x.Keeps path then [path] else [] } := by
  obtain ⟨probed, read⟩ := text?_eq_some.mp h
  have view : x.view path = .ok (some (.text t)) := by
    unfold IsNew at isNew
    simp only [Setting.view, isNew, probed, read]
  simp [loadAccount, view]

theorem loadAccount_of_fault {path : Text} (fault : SourceFault) (h : x.view path = .error fault) :
    x.loadAccount path =
      { outcome := if x.options.onFileError = .throw then .error (.problem (.source fault)) else .ok none
        problems := [.source fault]
        kept := [] } := by
  simp [loadAccount, h]

/-- The account of a text that was read. -/
theorem keep_yields {asked : List Text} {path t : Text} (isNew : x.IsNew path)
    (text : x.text? path = some t) (was_asked : path ∈ asked) :
    x.Yields asked (Engine.keep (.ofOptions x.options) path t)
      { outcome := .ok (some (.text t)), problems := [], kept := if x.Keeps path then [path] else [] } := by
  have ended : x.Yields asked (.text t) (.only (.ok (some (.text t)))) := .done asked _
  by_cases cached : x.options.cache.isSome
  · have kept := Yields.remember isNew text was_asked (fun _ => .text t) ended
    simpa [Engine.keep, Rules.ofOptions, cached, Keeps, isNew, Account.only] using! kept
  · simpa [Engine.keep, Rules.ofOptions, cached, Keeps, Account.only] using! ended

/-- The account of a source that the cache did not hold. -/
theorem fetch_yields (asked : List Text) {path : Text} (isNew : x.IsNew path) :
    x.Yields asked (Engine.fetch (.ofOptions x.options) path) (x.loadAccount path) := by
  have recalled : x.cache.held? path = none := isNew
  -- One case for each pair of answers, as in `view`.
  refine .probe isNew ?_
  cases probed : x.probed path with
  | error fault =>
    rw [loadAccount_of_fault (fault.toSourceFault path) (by simp [view, recalled, probed])]
    exact failed_yields asked _
  | ok present =>
    cases present with
    | false =>
      rw [loadAccount_of_fault (.missing path) (by simp [view, recalled, probed])]
      exact failed_yields asked _
    | true =>
      refine .read isNew probed (fun cached h => ?_) ?_
      · obtain ⟨t, text⟩ := Option.isSome_iff_exists.mp h
        simp [loadAccount_of_text isNew text, Keeps, cached, isNew]
      · cases read : x.read path with
        | error fault =>
          rw [loadAccount_of_fault (fault.toSourceFault path)
            (by simp [view, recalled, probed, read])]
          exact failed_yields _ _
        | ok t =>
          have text := text?_eq_some.mpr ⟨probed, read⟩
          rw [loadAccount_of_text isNew text]
          exact keep_yields isNew text (by simp)

/-- The account of a source. -/
theorem load_yields (asked : List Text) (path : Text) :
    x.Yields asked (Engine.load (.ofOptions x.options) path) (x.loadAccount path) := by
  cases choice : x.options.cache with
  | none =>
    -- Without a cache every path is new.
    have isNew : x.IsNew path := by simp [IsNew, cache, choice, CacheChoice.initial]
    simpa [Engine.load, Rules.ofOptions, choice] using! fetch_yields asked isNew
  | some choice =>
    have cached : (Rules.ofOptions x.options).cache = .mapping := by simp [Rules.ofOptions, choice]
    simp only [Engine.load, cached]
    cases recalled : x.cache.held? path with
    | some v =>
      have account : x.loadAccount path = .only (.ok (if v.isNull then none else some (.ofValue v))) := by
        simp [loadAccount, view, recalled, Keeps, IsNew, Account.only]
      rw [account]
      refine .lookUp recalled (.noteOther (by simp) ?_)
      cases v.isNull <;> exact .done asked _
    | none =>
      -- Found or not, the text is the one that the host has.
      refine .lookUpNew recalled [] (fetch_yields asked recalled) (fun t text => ?_) fun t text => ?_
      · simp [loadAccount_of_text recalled text, Keeps, choice, IsNew, recalled]
      · rw [loadAccount_of_text recalled text]
        exact .noteOther (by simp) (.done asked _)

/-! ### One process in two settings -/

variable (x) (y : Setting)

/-- Two accounts with the same outcome. The rest is the same as well if slots
    are resolved in the same way, or if there is no fault. -/
structure Agree (a b : Account) : Prop where
  /-- The outcomes are the same. -/
  outcome : a.outcome = b.outcome
  /-- So are the problems. -/
  problems : x.options.parallel = y.options.parallel ∨ a.outcome.isOk → a.problems = b.problems
  /-- So are the sources kept, if the same sources would be. -/
  kept : x.options.parallel = y.options.parallel ∨ a.outcome.isOk →
    (∀ path, x.Keeps path ↔ y.Keeps path) → a.kept = b.kept

/-- Two processes, one in each setting, with accounts that agree. -/
def Twins (p q : Process) : Prop :=
  ∃ a b, x.Yields [] p a ∧ y.Yields [] q b ∧ x.Agree y a b

/-- Two settings that show a document the same sources and functions, with the
    same policies. -/
structure Alike : Prop where
  /-- Paths mean the same. -/
  resolve : x.host.resolve = y.host.resolve
  /-- Functions give the same. -/
  called : ∀ c, x.called c = y.called c
  /-- The same is seen of each source. -/
  view : ∀ path, x.view path = y.view path
  /-- The options are the same, but for the cache and the order of slots. -/
  options : y.options = { x.options with cache := y.options.cache, parallel := y.options.parallel }

variable {x y}

namespace Agree

theorem refl (a : Account) : x.Agree y a a := ⟨rfl, fun _ => rfl, fun _ _ => rfl⟩

/-- Accounts of processes that go on after others, and do not forget their
    faults. -/
theorem followedBy {a b a' b' : Account} (first : x.Agree y a b) (second : x.Agree y a' b')
    (passed_on : a'.outcome.isOk → a.outcome.isOk) :
    x.Agree y (a.followedBy a') (b.followedBy b') where
  outcome := second.outcome
  problems := by
    intro h
    have h_first := h.imp_right passed_on
    simp only [Account.followedBy, first.problems h_first, second.problems h]
  kept := by
    intro h same
    have h_first := h.imp_right passed_on
    simp only [Account.followedBy, first.kept h_first same, second.kept h same]

end Agree

namespace Twins

/-- A process that ends at once. -/
theorem done (outcome : Outcome) : x.Twins y (.done outcome) (.done outcome) :=
  ⟨_, _, .done [] outcome, .done [] outcome, .refl _⟩

/-- A problem in front. -/
theorem problem (problem : Problem) {p q : Process} (h : x.Twins y p q) :
    x.Twins y (.note (.problem problem) p) (.note (.problem problem) q) := by
  obtain ⟨a, b, yields_x, yields_y, agree⟩ := h
  refine ⟨_, _, yields_x.noteProblem problem, yields_y.noteProblem problem, agree.outcome, ?_,
    agree.kept⟩
  exact fun h => congrArg (problem :: ·) (agree.problems h)

/-- Another note in front. -/
theorem note {n : Note} (other : ∀ problem, n ≠ .problem problem) {p q : Process}
    (h : x.Twins y p q) : x.Twins y (.note n p) (.note n q) := by
  obtain ⟨a, b, yields_x, yields_y, agree⟩ := h
  exact ⟨a, b, yields_x.noteOther other, yields_y.noteOther other, agree⟩

/-- Another note behind. -/
theorem noteBehind {n : Note} (other : ∀ problem, n ≠ .problem problem) {p q : Process}
    (h : x.Twins y p q) :
    x.Twins y (p.bind fun outcome => .note n (.done outcome))
      (q.bind fun outcome => .note n (.done outcome)) := by
  obtain ⟨a, b, yields_x, yields_y, agree⟩ := h
  exact ⟨a, b, yields_x.noteBehind other, yields_y.noteBehind other, agree⟩

end Twins

namespace Alike

variable (alike : x.Alike y)

include alike

/-- A function that is called. -/
theorem call (c : Callback) {next next' : Except Text Content → Process}
    (h : ∀ result, x.Twins y (next result) (next' result)) :
    x.Twins y (.ask (.call c) next) (.ask (.call c) next') := by
  obtain ⟨a, b, yields_x, yields_y, agree⟩ := h (x.called c)
  rw [alike.called c] at yields_y
  exact ⟨a, b, .call yields_x, .call yields_y, agree⟩

theorem loadAccount_agree (path : Text) : x.Agree y (x.loadAccount path) (y.loadAccount path) := by
  have policy : y.options.onFileError = x.options.onFileError := by rw [alike.options]
  simp only [loadAccount, ← alike.view path]
  cases x.view path with
  | error fault => exact ⟨by simp [policy], fun _ => rfl, fun _ _ => rfl⟩
  | ok content => exact ⟨rfl, fun _ => rfl, fun _ same => by simp [same path]⟩

/-- A source that is loaded and used. -/
theorem load (path : Text) {use use' : Content → Process}
    (h : ∀ content, x.Twins y (use content) (use' content)) :
    x.Twins y
      ((Engine.load (.ofOptions x.options) path).bind fun
        | .error fault => .fail fault
        | .ok none => .text []
        | .ok (some content) => use content)
      ((Engine.load (.ofOptions y.options) path).bind fun
        | .error fault => .fail fault
        | .ok none => .text []
        | .ok (some content) => use' content) := by
  have agree := alike.loadAccount_agree path
  -- Both go on in the same way, as the outcomes of loading are the same.
  obtain ⟨a, b, yields_x, yields_y, rest, passed_on⟩ : ∃ a b,
      x.Yields [] (match (x.loadAccount path).outcome with
        | .error fault => .fail fault
        | .ok none => .text []
        | .ok (some content) => use content) a ∧
      y.Yields [] (match (y.loadAccount path).outcome with
        | .error fault => .fail fault
        | .ok none => .text []
        | .ok (some content) => use' content) b ∧
      x.Agree y a b ∧ (a.outcome.isOk → (x.loadAccount path).outcome.isOk) := by
    rw [← agree.outcome]
    match (x.loadAccount path).outcome with
    | .error fault => exact ⟨_, _, .done [] _, .done [] _, .refl _, fun h => h⟩
    | .ok none => exact ⟨_, _, .done [] _, .done [] _, .refl _, fun _ => rfl⟩
    | .ok (some content) =>
      obtain ⟨a, b, yields_x, yields_y, rest⟩ := h content
      exact ⟨a, b, yields_x, yields_y, rest, fun _ => rfl⟩
  exact ⟨_, _, (load_yields [] path).bind yields_x, (load_yields [] path).bind yields_y,
    agree.followedBy rest passed_on⟩

/-- A source that joins the chain, if it may, and is used. -/
theorem withSource (source : Text) (here : Position) (inSlot : Bool)
    {use use' : Content → Position → Process}
    (h : ∀ content here, x.Twins y (use content here) (use' content here)) :
    x.Twins y (Engine.withSource (.ofOptions x.options) source here inSlot use)
      (Engine.withSource (.ofOptions y.options) source here inSlot use') := by
  have policy : (Rules.ofOptions y.options).onMissingSlot =
      (Rules.ofOptions x.options).onMissingSlot := by rw [alike.options]; rfl
  unfold Engine.withSource
  cases here.tracker.push source with
  | error problem =>
    refine .problem problem ?_
    rw [policy]
    split
    · exact .done _
    · exact .done _
  | ok tracker =>
    refine .note (by simp) (.noteBehind (by simp) ?_)
    exact alike.load source fun content => h content _

/-- An outlet without a slot value. -/
theorem missing (name : Text) (here : Position) :
    x.Twins y (Engine.missing (.ofOptions x.options) name here)
      (Engine.missing (.ofOptions y.options) name here) := by
  have policy : (Rules.ofOptions y.options).onMissingSlot =
      (Rules.ofOptions x.options).onMissingSlot := by rw [alike.options]; rfl
  refine .problem _ ?_
  rw [policy]
  cases (Rules.ofOptions x.options).onMissingSlot <;> exact .done _

/-- A function. -/
theorem invoke (c : Callback) (here : Position) :
    x.Twins y (Engine.invoke (.ofOptions x.options) c here)
      (Engine.invoke (.ofOptions y.options) c here) := by
  have policy : (Rules.ofOptions y.options).marksFailedCall =
      (Rules.ofOptions x.options).marksFailedCall := by rw [alike.options]; rfl
  have failed (fault : CallbackFault) : x.Twins y
      (Engine.callFailed (.ofOptions x.options) fault here)
      (Engine.callFailed (.ofOptions y.options) fault here) := by
    refine .problem _ ?_
    rw [policy]
    split
    · exact .done _
    · exact .done _
  refine alike.call c fun result => ?_
  match result with
  | .ok (.text t) => exact .done _
  | .ok (.other kindName) => exact failed _
  | .error reason => exact failed _

end Alike

/-- Accounts that agree one by one agree together. With a fault among them
    they may differ in what is noted and kept, as branches that run side by
    side do not stop for each other. -/
theorem Agree.gather {a b : Text → Account} (h : ∀ name, x.Agree y (a name) (b name))
    (names : List Text) (finish : List (Option Content) → Outcome) :
    x.Agree y (.gather x.options.parallel (names.map a) finish)
      (.gather y.options.parallel (names.map b) finish) := by
  have outcomes : (names.map b).map Account.outcome = (names.map a).map Account.outcome := by
    simp [fun name => (h name).outcome]
  -- Unless the order is the same, there is no fault, and the order does not matter.
  have one_order (regular : x.options.parallel = y.options.parallel ∨
      (Account.gather x.options.parallel (names.map a) finish).outcome.isOk) :
      (∀ name ∈ names, x.options.parallel = y.options.parallel ∨ (a name).outcome.isOk) ∧
        ∃ parallel, Account.gather x.options.parallel (names.map a) finish =
            .gather parallel (names.map a) finish ∧
          Account.gather y.options.parallel (names.map b) finish =
            .gather parallel (names.map b) finish := by
    rcases regular with same | isOk
    · exact ⟨fun _ _ => .inl same, _, rfl, by rw [same]⟩
    · rw [Account.gather_outcome] at isOk
      cases settled : Process.settle ((names.map a).map Account.outcome) with
      | error f =>
        rw [settled] at isOk
        exact absurd isOk (by simp [Except.bind, Except.isOk, Except.toBool])
      | ok cs =>
        have settled_y := outcomes ▸ settled
        refine ⟨fun name mem => .inr ?_, true, ?_, ?_⟩
        · exact Account.isOk_of_settle settled (by simpa using ⟨name, mem, rfl⟩)
        · exact Account.gather_of_settle _ finish settled
        · exact Account.gather_of_settle _ finish settled_y
  refine ⟨?_, fun regular => ?_, fun regular same => ?_⟩
  · rw [Account.gather_outcome, Account.gather_outcome, outcomes]
  · obtain ⟨each, parallel, eq_x, eq_y⟩ := one_order regular
    rw [eq_x, eq_y]
    exact Account.gather_part Account.problems (fun _ _ => rfl) (fun _ _ => rfl) parallel finish
      (fun name => (h name).outcome) fun name mem => (h name).problems (each name mem)
  · obtain ⟨each, parallel, eq_x, eq_y⟩ := one_order regular
    rw [eq_x, eq_y]
    exact Account.gather_part Account.kept (fun _ _ => rfl) (fun _ _ => rfl) parallel finish
      (fun name => (h name).outcome) fun name mem => (h name).kept (each name mem) same

theorem Yields.gather {p : Text → Process} {a : Text → Account} {names : List Text}
    (each : ∀ name ∈ names, x.Yields [] (p name) (a name))
    (finish : List (Option Content) → Outcome) :
    x.Yields [] (.gather x.options.parallel (names.map p) fun cs => .done (finish cs))
      (.gather x.options.parallel (names.map a) finish) := by
  unfold Process.gather Account.gather
  by_cases parallel : x.options.parallel = true
  · rw [if_pos parallel, if_pos parallel]
    exact .sideBySide parallel each
  · rw [if_neg parallel, if_neg parallel]
    exact .inTurn each

theorem Twins.gather {p q : Text → Process} (h : ∀ name, x.Twins y (p name) (q name))
    (names : List Text) (finish : List (Option Content) → Outcome) :
    x.Twins y (.gather x.options.parallel (names.map p) fun cs => .done (finish cs))
      (.gather y.options.parallel (names.map q) fun cs => .done (finish cs)) := by
  choose a b yields_x yields_y agree using h
  exact ⟨_, _, .gather (fun name _ => yields_x name) finish,
    .gather (fun name _ => yields_y name) finish, .gather agree names finish⟩

/-! ### Documents -/

/-- The process for the outlets of a name. -/
def slotOf (x : Setting) (values : List (Scalar × Slot)) (name : Text) :
    Option Engine.SlotProcess :=
  (values.lookup (.text name)).map (Engine.slot x.host.resolve x.options)

namespace Alike

variable (alike : x.Alike y)

include alike

/-- The outlets of some content. -/
theorem fill {values : List (Scalar × Slot)}
    (h : ∀ name value, values.lookup name = some value → ∀ here,
      x.Twins y (Engine.slot x.host.resolve x.options value here)
        (Engine.slot y.host.resolve y.options value here))
    (content : Content) (here : Position) :
    x.Twins y (Engine.fill (.ofOptions x.options) (x.slotOf values) content here)
      (Engine.fill (.ofOptions y.options) (y.slotOf values) content here) := by
  have outlet (name : Text) :
      x.Twins y (Engine.resolveOutlet (.ofOptions x.options) (x.slotOf values) here name)
        (Engine.resolveOutlet (.ofOptions y.options) (y.slotOf values) here name) := by
    refine .note (by simp) (.noteBehind (by simp) ?_)
    unfold slotOf
    cases found : values.lookup (.text name) with
    | some value => exact h _ value found here
    | none => exact alike.missing name here
  cases content with
  | other kindName => exact .done _
  | text text =>
    -- What is made of the results of the outlets is the same in both settings.
    choose finish finish_eq using fun results => Engine.splice_done (Template.ofText text)
      (Engine.resultOf (Template.ofText text).names results)
    simp only [Engine.fill, Engine.fillText, finish_eq]
    split
    · exact .done _
    · exact .gather outlet _ finish

/-- A path of a document means the same source. -/
theorem sourcePath (path : Text) (document : Option Text) :
    Engine.sourcePath y.host.resolve y.options path document =
      Engine.sourcePath x.host.resolve x.options path document := by
  rw [alike.options, ← alike.resolve]
  rfl

/-- A document as a slot value, or the outermost one. -/
theorem compose (body : Body) {values : List (Scalar × Slot)}
    (h : ∀ name value, values.lookup name = some value → ∀ here,
      x.Twins y (Engine.slot x.host.resolve x.options value here)
        (Engine.slot y.host.resolve y.options value here))
    (here : Position) (inSlot : Bool) :
    x.Twins y
      (Engine.compose x.host.resolve x.options body (Engine.slots x.host.resolve x.options values)
        here inSlot)
      (Engine.compose y.host.resolve y.options body (Engine.slots y.host.resolve y.options values)
        here inSlot) := by
  simp only [Engine.compose, Engine.lookup_slots]
  cases body with
  | text t => exact alike.fill h (.text t) here
  | source path =>
    simp only [alike.sourcePath]
    exact alike.withSource _ here inSlot fun content here => alike.fill h content here

/-- A slot value. -/
theorem slot (value : Slot) (here : Position) :
    x.Twins y (Engine.slot x.host.resolve x.options value here)
      (Engine.slot y.host.resolve y.options value here) := by
  induction value using Slot.induct generalizing here with
  | literal t => exact .done _
  | source path =>
    simp only [Engine.slot, alike.sourcePath]
    exact alike.withSource _ here true fun content _ => .done _
  | callback c => exact alike.invoke c here
  | document body values ih => exact alike.compose body ih here true

/-- In settings that are alike, a document has accounts that agree. -/
theorem document (d : Document) :
    x.Twins y (Engine.document x.host.resolve x.options d)
      (Engine.document y.host.resolve y.options d) := by
  have depth_eq : y.options.maxDepth = x.options.maxDepth := by rw [alike.options]
  simp only [Engine.document, depth_eq]
  exact alike.compose d.body (fun _ value _ => alike.slot value) _ false

end Alike

end Setting

end MarkdownOutlets
