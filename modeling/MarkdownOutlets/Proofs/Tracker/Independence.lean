import Mathlib.Data.List.Forall2
import MarkdownOutlets.Proofs.Tracker.Families

/-! # Trackers that do not interfere

  The trackers of a family share what was visited, and nothing else. What becomes
  of a tracker, and what may be pushed on it, depends on its own chain, so on the
  steps for itself and for the trackers that it comes from, up to the forks that
  led to it.

  Some steps of a run are deleted (`Family.thin`): with a fork, the tracker that
  it would have added is gone as well, and the others move up. As long as the
  steps on which a tracker depends are kept (`Family.own`), the tracker of the
  shorter run is the same at every step, which is the invariant `Family.Matched`.
  The main statement is `trackers_independent`.
-/

namespace MarkdownOutlets

namespace Tracker

/-- An action on a chain: to push, to pop, or to clear. -/
def Action.onChain : Action → Bool
  | .push _ => true
  | .pop => true
  | .clear => true
  | .hasVisited _ => false
  | .fork => false

/-- The tracker after an action on it. -/
def act (t : Tracker) : Action → Tracker
  | .push path => (t.push path).toOption.getD t
  | .pop => t.pop
  | .clear => .empty t.limit
  | .hasVisited _ => t
  | .fork => t

/-- What the tracker replies to an action on its chain. -/
def reply (t : Tracker) : Action → Reply
  | .push path =>
    match t.push path with
    | .error problem => .refused problem
    | .ok _ => .done
  | _ => .done

namespace Family

variable {f g : Family} {index : Nat} {t : Tracker} {action : Action}

/-! ### Steps, for the members alone -/

/-- Whatever was visited, an action changes the member that it is for, and adds a copy of it if
    it is a fork. -/
theorem members_step (found : f.members[index]? = some t) (action : Action) :
    (f.step index action).2.members =
      f.members.set index (t.act action) ++ List.replicate action.added t := by
  have unchanged : f.members.set index t = f.members := by
    obtain ⟨present, rfl⟩ := List.getElem?_eq_some_iff.mp found
    exact List.set_getElem_self present
  cases action with
  | push path =>
    cases pushed : t.push path with
    | error problem =>
      rw [step_of_refused found pushed]
      simp [act, pushed, Except.toOption, Action.added, unchanged]
    | ok t' =>
      rw [step_of_joins found pushed]
      simp [act, pushed, Except.toOption, Action.added]
  | _ => simp [step, found, act, Action.added, unchanged]

/-- Whatever was visited, the reply to an action on a chain is that of the tracker. -/
theorem reply_step (found : f.members[index]? = some t) (onChain : action.onChain = true) :
    (f.step index action).1 = t.reply action := by
  cases action with
  | push path =>
    cases pushed : t.push path with
    | error problem => simp only [step_of_refused found pushed, reply, pushed]
    | ok t' => simp only [step_of_joins found pushed, reply, pushed]
  | pop => simp [step, found, reply]
  | clear => simp [step, found, reply]
  | hasVisited path => cases onChain
  | fork => cases onChain

/-- Without such a member nothing happens. -/
theorem step_of_none (none_found : f.members[index]? = none) (action : Action) :
    f.step index action = (.done, f) := by
  unfold step
  rw [none_found]

/-- Another member is as before. -/
theorem other_step {other : Nat} (ne : index ≠ other) (present : other < f.members.length)
    (action : Action) : (f.step index action).2.members[other]? = f.members[other]? := by
  cases found : f.members[index]? with
  | none => rw [step_of_none found]
  | some t =>
    rw [members_step found, List.getElem?_append_left (by rwa [List.length_set]),
      List.getElem?_set_ne ne]

/-- Members of two families that are the same tracker are the same one behind an action. -/
theorem same_step {other : Nat} (same : g.members[other]? = f.members[index]?)
    (present : index < f.members.length) (action : Action) :
    (g.step other action).2.members[other]? = (f.step index action).2.members[index]? ∧
      (action.onChain = true → (g.step other action).1 = (f.step index action).1) := by
  have found : f.members[index]? = some f.members[index] := List.getElem?_eq_getElem present
  have found' := same.trans found
  have present' : other < g.members.length := (List.getElem?_eq_some_iff.mp found').1
  refine ⟨?_, fun onChain => by rw [reply_step found onChain, reply_step found' onChain]⟩
  rw [members_step found, members_step found', List.getElem?_append_left (by rwa [List.length_set]),
    List.getElem?_append_left (by rwa [List.length_set]), List.getElem?_set_self present,
    List.getElem?_set_self present']

/-- A fork is the same tracker as the member that was forked. -/
theorem fork_step (present : index < f.members.length) :
    (f.step index .fork).2.members[f.members.length]? = f.members[index]? := by
  have found : f.members[index]? = some f.members[index] := List.getElem?_eq_getElem present
  rw [members_step found, List.getElem?_append_right (Nat.le_of_eq List.length_set), List.length_set,
    Nat.sub_self, found]
  rfl

theorem length_step (present : index < f.members.length) (action : Action) :
    (f.step index action).2.members.length = f.members.length + action.added :=
  (step_does (List.getElem?_eq_getElem present) action).length

/-! ### What a tracker depends on -/

/-- The member from which the chain of member `t` comes, while there are so many members and the
    steps are to come. -/
def ancestor : (members : Nat) → List (Nat × Action) → (t : Nat) → Nat
  | _, [], t => t
  | members, (index, action) :: rest, t =>
    let later := ancestor (members + action.added) rest t
    if action = .fork ∧ later = members then index else later

/-- For each step, whether it is for the member `t`, or for one from which its chain comes, before
    the fork. -/
def own : (members : Nat) → List (Nat × Action) → (t : Nat) → List Bool
  | _, [], _ => []
  | members, (index, action) :: rest, t =>
    decide (index = ancestor members ((index, action) :: rest) t) ::
      own (members + action.added) rest t

/-- The number of a member among those that remain. -/
def rank (remaining : List Bool) (index : Nat) : Nat := (remaining.take index).count true

/-- A step stays if it is to be kept, and the member that it is for remains. -/
def stays (remaining : List Bool) (index : Nat) (keep : Bool) : Bool :=
  keep && remaining.getD index false

/-- What is left of some steps when those that are not to be kept are deleted, and with each fork
    all that is for the tracker that it would have added. The members that remain are numbered
    anew. -/
def thin : (remaining : List Bool) → List (Nat × Action) → (keep : List Bool) → List (Nat × Action)
  | remaining, (index, action) :: rest, k :: keep =>
    let kept := stays remaining index k
    let others := thin (remaining ++ List.replicate action.added kept) rest keep
    if kept then (rank remaining index, action) :: others else others
  | _, _, _ => []

/-- For each of the members in the end, whether it remains when these steps are deleted. -/
def remainders : (remaining : List Bool) → List (Nat × Action) → (keep : List Bool) → List Bool
  | remaining, (index, action) :: rest, k :: keep =>
    remainders (remaining ++ List.replicate action.added (stays remaining index k)) rest keep
  | remaining, _, _ => remaining

/-- The actions on the chain of a member, with the replies to them. -/
def exchanges (f : Family) (t : Nat) (steps : List (Nat × Action)) : List (Action × Reply) :=
  (steps.zip (f.run steps).1).filterMap fun ((index, action), reply) =>
    if index = t ∧ action.onChain then some (action, reply) else none

theorem exchanges_cons (f : Family) (t index : Nat) (action : Action) (rest : List (Nat × Action)) :
    f.exchanges t ((index, action) :: rest) =
      (if index = t ∧ action.onChain then [(action, (f.step index action).1)] else []) ++
        (f.step index action).2.exchanges t rest := by
  unfold exchanges
  rw [run, List.zip_cons_cons, List.filterMap_cons]
  split <;> rename_i found <;> split at found <;> simp_all

variable {steps rest : List (Nat × Action)} {keep : List Bool} {remaining : List Bool}

/-- A member that is there is its own ancestor. -/
theorem ancestor_of_lt {members t : Nat} (lt : t < members) : ancestor members steps t = t := by
  induction steps generalizing members with
  | nil => rfl
  | cons step rest ih =>
    have later := ih (Nat.lt_add_right step.2.added lt)
    simp only [ancestor, later]
    rw [if_neg]
    rintro ⟨-, eq⟩
    omega

/-- An ancestor is there. -/
theorem ancestor_lt {t : Nat} (addressed : Addressed f.members.length steps)
    (present : t < (f.after steps).members.length) :
    ancestor f.members.length steps t < f.members.length := by
  induction steps generalizing f with
  | nil => exact present
  | cons step rest ih =>
    obtain ⟨index, action⟩ := step
    obtain ⟨here, behind⟩ := addressed
    have grown := length_step here action
    rw [after_cons] at present
    have later := ih (grown.symm ▸ behind) present
    rw [grown] at later
    simp only [ancestor]
    split
    · exact here
    · -- The tracker that a fork adds has the member that was forked as its ancestor.
      rename_i not_new
      cases action with
      | fork =>
        simp only [Action.added, true_and] at later not_new ⊢
        omega
      | _ => exact later

/-! ### Numbers anew -/

theorem rank_append {index : Nat} (le : index ≤ remaining.length) (more : List Bool) :
    rank (remaining ++ more) index = rank remaining index := by
  rw [rank, List.take_append_of_le_length le, rank]

theorem rank_length (remaining : List Bool) : rank remaining remaining.length = remaining.count true := by
  rw [rank, List.take_length]

/-- A member that remains has a smaller number than those behind it. -/
theorem rank_lt {i j : Nat} (lt : i < j) (stays : remaining[i]? = some true) :
    rank remaining i < rank remaining j := by
  obtain ⟨present, flag⟩ := List.getElem?_eq_some_iff.mp stays
  have front : (remaining.take j).take (i + 1) = remaining.take i ++ [true] := by
    rw [List.take_take, Nat.min_eq_left lt, List.take_succ_eq_append_getElem present, flag]
  have sub : ((remaining.take j).take (i + 1)).count true ≤ (remaining.take j).count true :=
    (List.take_sublist _ _).count_le true
  rw [front, List.count_append, List.count_singleton_self] at sub
  exact sub

/-- Two members that remain have different numbers. -/
theorem rank_ne {i j : Nat} (ne : i ≠ j) (stays : remaining[i]? = some true)
    (stays' : remaining[j]? = some true) : rank remaining i ≠ rank remaining j := by
  rcases Nat.lt_or_gt_of_ne ne with lt | lt
  · exact Nat.ne_of_lt (rank_lt lt stays)
  · exact Nat.ne_of_gt (rank_lt lt stays')

/-- More members come behind those that are there. -/
theorem exists_remainders (remaining : List Bool) (steps : List (Nat × Action)) (keep : List Bool) :
    ∃ more, remainders remaining steps keep = remaining ++ more := by
  induction steps generalizing remaining keep with
  | nil => exact ⟨[], by simp [remainders]⟩
  | cons step rest ih =>
    cases keep with
    | nil => exact ⟨[], by simp [remainders]⟩
    | cons k keep =>
      obtain ⟨more, eq⟩ :=
        ih (remaining ++ List.replicate step.2.added (stays remaining step.1 k)) keep
      exact ⟨_, eq.trans (List.append_assoc _ _ _)⟩

/-! ### Runs with and without the other steps -/

/-- Of the members of `f` some remain in `g`, and the member `t` does so unchanged. -/
structure Matched (f g : Family) (remaining : List Bool) (t : Nat) : Prop where
  /-- It is known of each member whether it remains. -/
  length : remaining.length = f.members.length
  /-- Those that remain are the members of `g`. -/
  count : g.members.length = remaining.count true
  /-- The member remains. -/
  stays : remaining[t]? = some true
  /-- It is the same tracker. -/
  same : g.members[rank remaining t]? = f.members[t]?

/-- Before any step, all members remain. -/
theorem matched_start {t : Nat} (present : t < f.members.length) :
    Matched f f (List.replicate f.members.length true) t where
  length := List.length_replicate
  count := by rw [List.count_replicate_self]
  stays := by simp [present]
  same := by
    have here : rank (List.replicate f.members.length true) t = t := by
      rw [rank, List.take_replicate, List.count_replicate_self, Nat.min_eq_left (Nat.le_of_lt present)]
    rw [here]

/-- The family `g` after the step, if the step stays. -/
def stepIf (g : Family) (kept : Bool) (index : Nat) (action : Action) : Family :=
  if kept then (g.step index action).2 else g

theorem stays_iff {k : Bool} :
    stays remaining index k = true ↔ k = true ∧ remaining[index]? = some true := by
  rw [stays, Bool.and_eq_true, List.getD_eq_getElem?_getD]
  cases remaining[index]? <;> simp

/-- Those that remain have numbers of members. -/
theorem Matched.rank_lt {now : Nat} (matched : Matched f g remaining now)
    (stays : remaining[index]? = some true) : rank remaining index < g.members.length := by
  obtain ⟨present, -⟩ := List.getElem?_eq_some_iff.mp stays
  rw [matched.count, ← rank_length]
  exact Family.rank_lt present stays

/-- A step that is kept, if it is for the tracker or for what the tracker comes from, leaves the
    tracker the same in both families. -/
theorem Matched.step {k : Bool} {later : Nat} (present : index < f.members.length)
    (matched : Matched f g remaining
      (if action = .fork ∧ later = f.members.length then index else later))
    (needed : index = (if action = .fork ∧ later = f.members.length then index else later) →
      k = true) :
    Matched (f.step index action).2
      (g.stepIf (Family.stays remaining index k) (rank remaining index) action)
      (remaining ++ List.replicate action.added (Family.stays remaining index k)) later := by
  have length_eq := matched.length
  constructor
  case length =>
    rw [length_step present, List.length_append, List.length_replicate, matched.length]
  case count =>
    rw [List.count_append, ← matched.count]
    cases kept : Family.stays remaining index k with
    | false => simp [stepIf, List.count_replicate]
    | true =>
      have remains := (stays_iff.mp kept).2
      rw [List.count_replicate_self]
      exact length_step (matched.rank_lt remains) action
  case stays =>
    by_cases new : action = .fork ∧ later = f.members.length
    · obtain ⟨rfl, rfl⟩ := new
      simp only [and_self, if_true] at matched needed
      have kept := stays_iff.mpr ⟨needed trivial, matched.stays⟩
      rw [kept, ← length_eq]
      simp [Action.added]
    · rw [if_neg new] at matched
      obtain ⟨here, -⟩ := List.getElem?_eq_some_iff.mp matched.stays
      rw [List.getElem?_append_left here, matched.stays]
  case same =>
    by_cases new : action = .fork ∧ later = f.members.length
    · -- The fork of a tracker that is the same in both families.
      obtain ⟨rfl, rfl⟩ := new
      simp only [and_self, if_true] at matched needed
      have kept := stays_iff.mpr ⟨needed trivial, matched.stays⟩
      have number : rank (remaining ++ List.replicate Action.fork.added true) f.members.length =
          g.members.length := by
        rw [← length_eq, rank_append (Nat.le_refl _), rank_length, matched.count]
      rw [kept, number, fork_step present, ← matched.same]
      exact fork_step (matched.rank_lt matched.stays)
    · rw [if_neg new] at matched needed
      obtain ⟨here, -⟩ := List.getElem?_eq_some_iff.mp matched.stays
      rw [rank_append (Nat.le_of_lt here)]
      by_cases itself : index = later
      · subst itself
        rw [stays_iff.mpr ⟨needed rfl, matched.stays⟩]
        exact (same_step matched.same present action).1
      · rw [other_step itself (length_eq ▸ here), ← matched.same]
        cases kept : Family.stays remaining index k with
        | false => rfl
        | true =>
          have apart := rank_ne itself (stays_iff.mp kept).2 matched.stays
          exact other_step apart (matched.rank_lt matched.stays) action

theorem after_thin_cons {k : Bool} (g : Family) (remaining : List Bool) (index : Nat)
    (action : Action) (rest : List (Nat × Action)) (keep : List Bool) :
    g.after (thin remaining ((index, action) :: rest) (k :: keep)) =
      (g.stepIf (Family.stays remaining index k) (rank remaining index) action).after
        (thin (remaining ++ List.replicate action.added (Family.stays remaining index k)) rest keep) := by
  rw [thin]
  cases Family.stays remaining index k <;> rfl

theorem exchanges_thin_cons {k : Bool} (g : Family) (remaining : List Bool) (t index : Nat)
    (action : Action) (rest : List (Nat × Action)) (keep : List Bool) :
    g.exchanges t (thin remaining ((index, action) :: rest) (k :: keep)) =
      (if (Family.stays remaining index k = true ∧ rank remaining index = t) ∧ action.onChain then
        [(action, (g.step (rank remaining index) action).1)] else []) ++
      (g.stepIf (Family.stays remaining index k) (rank remaining index) action).exchanges t
        (thin (remaining ++ List.replicate action.added (Family.stays remaining index k)) rest keep) := by
  rw [thin]
  cases Family.stays remaining index k with
  | false => simp [stepIf]
  | true => simp [stepIf, exchanges_cons]

/-- Without other steps than those on which it depends, a tracker becomes the same, and gives the
    same replies. -/
theorem Matched.after {t : Nat} (addressed : Addressed f.members.length steps)
    (present : t < (f.after steps).members.length)
    (matched : Matched f g remaining (ancestor f.members.length steps t))
    (needed : List.Forall₂ (· ≤ ·) (own f.members.length steps t) keep) :
    Matched (f.after steps) (g.after (thin remaining steps keep)) (remainders remaining steps keep) t ∧
      g.exchanges (rank (remainders remaining steps keep) t) (thin remaining steps keep) =
        f.exchanges t steps := by
  induction steps generalizing f g remaining keep with
  | nil =>
    obtain rfl : keep = [] := List.forall₂_nil_left_iff.mp needed
    exact ⟨matched, rfl⟩
  | cons step rest ih =>
    obtain ⟨index, action⟩ := step
    obtain ⟨here, behind⟩ := addressed
    rw [own] at needed
    obtain ⟨k, keep, k_needed, others_needed, rfl⟩ := List.forall₂_cons_left_iff.mp needed
    have itself : ancestor f.members.length ((index, action) :: rest) index = index :=
      ancestor_of_lt here
    have k_of_own (mine : index = ancestor f.members.length ((index, action) :: rest) t) : k = true := by
      rw [decide_eq_true mine] at k_needed
      exact Bool.eq_true_of_true_le k_needed
    have grown := length_step here action
    rw [← grown] at behind others_needed
    have next := matched.step here k_of_own
    rw [← grown] at next
    obtain ⟨ended, exchanged⟩ := ih behind present next others_needed
    rw [after_thin_cons]
    refine ⟨ended, ?_⟩
    -- The numbers of members that are there already will not change.
    obtain ⟨more, final_eq⟩ := exists_remainders remaining ((index, action) :: rest) (k :: keep)
    have here' : index < remaining.length := matched.length ▸ here
    have number : rank (remainders remaining ((index, action) :: rest) (k :: keep)) index =
        rank remaining index := by
      rw [final_eq, rank_append (Nat.le_of_lt here')]
    have mine : (Family.stays remaining index k = true ∧
        rank remaining index = rank (remainders remaining ((index, action) :: rest) (k :: keep)) t) ↔
          index = t := by
      constructor
      · rintro ⟨kept, same_number⟩
        by_contra ne
        have remains : (remainders remaining ((index, action) :: rest) (k :: keep))[index]? =
            some true := by
          rw [final_eq, List.getElem?_append_left here', (stays_iff.mp kept).2]
        exact rank_ne ne remains ended.stays (number.trans same_number)
      · rintro rfl
        refine ⟨stays_iff.mpr ⟨k_of_own itself.symm, itself ▸ matched.stays⟩, number.symm⟩
    rw [exchanges_thin_cons, exchanges_cons]
    refine congrArg₂ (· ++ ·) ?_ exchanged
    by_cases same : index = t ∧ action.onChain = true
    · obtain ⟨rfl, onChain⟩ := same
      have replies := (same_step (itself ▸ matched.same) here action).2 onChain
      rw [if_pos ⟨mine.mpr rfl, onChain⟩, if_pos ⟨rfl, onChain⟩, replies]
    · rw [if_neg same, if_neg (fun both => same ⟨mine.mp both.1, both.2⟩)]

/-- The steps on which a tracker depends are all left, for the same members under their new
    numbers. -/
theorem Matched.thin_own {t : Nat} (addressed : Addressed f.members.length steps)
    (present : t < (f.after steps).members.length)
    (matched : Matched f g remaining (ancestor f.members.length steps t)) :
    thin remaining steps (own f.members.length steps t) =
      (steps.zip (own f.members.length steps t)).filterMap fun ((index, action), mine) =>
        if mine then
          some (rank (remainders remaining steps (own f.members.length steps t)) index, action)
        else none := by
  induction steps generalizing f g remaining with
  | nil => rfl
  | cons step rest ih =>
    obtain ⟨index, action⟩ := step
    obtain ⟨here, behind⟩ := addressed
    have grown := length_step here action
    obtain ⟨mark, mark_eq⟩ : ∃ mark,
        decide (index = ancestor f.members.length ((index, action) :: rest) t) = mark := ⟨_, rfl⟩
    have kept_eq : Family.stays remaining index mark = mark := by
      cases mark with
      | false => rfl
      | true => exact stays_iff.mpr ⟨rfl, of_decide_eq_true mark_eq ▸ matched.stays⟩
    have next := matched.step here (k := mark) fun mine => mark_eq ▸ decide_eq_true mine
    rw [← grown, kept_eq] at next
    rw [← grown] at behind
    have others := ih behind present next
    rw [grown] at others
    obtain ⟨more, final_eq⟩ := exists_remainders remaining ((index, action) :: rest)
      (own f.members.length ((index, action) :: rest) t)
    have number := rank_append (Nat.le_of_lt (matched.length.symm ▸ here)) more
    rw [← final_eq] at number
    simp only [own, mark_eq, thin, remainders, kept_eq, others] at number ⊢
    cases mark with
    | false => rfl
    | true =>
      rw [List.zip_cons_cons, List.filterMap_cons]
      simp only [if_true, number]

/-! ### Steps in another order -/

theorem added_of_onChain (onChain : action.onChain = true) : action.added = 0 := by
  cases action <;> first | rfl | cases onChain

/-- An action on a chain changes the member that it is for, if there is such a member. -/
theorem members_step_onChain (onChain : action.onChain = true) (f : Family) (index : Nat) :
    (f.step index action).2.members = f.members.modify index fun t => t.act action := by
  cases found : f.members[index]? with
  | none =>
    rw [step_of_none found, List.modify_eq_self (List.getElem?_eq_none_iff.mp found)]
  | some t =>
    obtain ⟨present, rfl⟩ := List.getElem?_eq_some_iff.mp found
    rw [members_step found, added_of_onChain onChain, List.replicate_zero, List.append_nil,
      List.modify_eq_set_getElem?, found]
    rfl

/-- The reply to an action on a chain depends on the member that it is for, if there is one. -/
theorem reply_step_onChain (onChain : action.onChain = true) (f : Family) (index : Nat) :
    (f.step index action).1 = (f.members[index]?.map fun t => t.reply action).getD .done := by
  cases found : f.members[index]? with
  | none => rw [step_of_none found]; rfl
  | some t => exact reply_step found onChain

/-- Families with the same members differ in what was visited only, and go on so. -/
theorem same_members (same : f.members = g.members) (steps : List (Nat × Action)) :
    (f.after steps).members = (g.after steps).members ∧
      ∀ t, f.exchanges t steps = g.exchanges t steps := by
  induction steps generalizing f g with
  | nil => exact ⟨same, fun _ => rfl⟩
  | cons step rest ih =>
    obtain ⟨index, action⟩ := step
    have next : (f.step index action).2.members = (g.step index action).2.members := by
      cases found : f.members[index]? with
      | none => rw [step_of_none found, step_of_none (same ▸ found), same]
      | some t => rw [members_step found, members_step (same ▸ found), same]
    obtain ⟨ended, exchanged⟩ := ih next
    refine ⟨ended, fun t => ?_⟩
    rw [exchanges_cons, exchanges_cons, exchanged t]
    by_cases onChain : action.onChain = true
    · rw [reply_step_onChain onChain, reply_step_onChain onChain, same]
    · rw [if_neg (fun both => onChain both.2), if_neg (fun both => onChain both.2)]

theorem after_append (f : Family) (first second : List (Nat × Action)) :
    f.after (first ++ second) = (f.after first).after second := by
  induction first generalizing f with
  | nil => rfl
  | cons step rest ih => exact ih _

theorem exchanges_append (f : Family) (t : Nat) (first second : List (Nat × Action)) :
    f.exchanges t (first ++ second) = f.exchanges t first ++ (f.after first).exchanges t second := by
  induction first generalizing f with
  | nil => rfl
  | cons step rest ih =>
    rw [List.cons_append, exchanges_cons, exchanges_cons, ih, List.append_assoc]
    rfl

variable {index' : Nat} {action' : Action}

/-- Actions on two chains may be swapped: the members behind them are the same. -/
theorem members_swap (ne : index ≠ index') (onChain : action.onChain = true)
    (onChain' : action'.onChain = true) (f : Family) :
    (f.after [(index, action), (index', action')]).members =
      (f.after [(index', action'), (index, action)]).members := by
  have both (g : Family) (x y : Nat × Action) :
      g.after [x, y] = ((g.step x.1 x.2).2.step y.1 y.2).2 := rfl
  simp only [both, members_step_onChain onChain, members_step_onChain onChain']
  exact List.modify_modify_ne _ _ _ ne

/-- They get the same replies in either order. -/
theorem reply_swap (ne : index' ≠ index) (onChain : action.onChain = true)
    (onChain' : action'.onChain = true) (f : Family) :
    ((f.step index' action').2.step index action).1 = (f.step index action).1 := by
  rw [reply_step_onChain onChain, reply_step_onChain onChain, members_step_onChain onChain',
    List.getElem?_modify_ne _ _ ne]

theorem exchanges_swap (ne : index ≠ index') (onChain : action.onChain = true)
    (onChain' : action'.onChain = true) (f : Family) (t : Nat) :
    f.exchanges t [(index, action), (index', action')] =
      f.exchanges t [(index', action'), (index, action)] := by
  have none_left (g : Family) : g.exchanges t [] = [] := rfl
  simp only [exchanges_cons, none_left, reply_swap ne onChain' onChain,
    reply_swap (Ne.symm ne) onChain onChain']
  -- At most one of the two is an exchange with the member.
  by_cases first : index = t
  · have not_second : index' ≠ t := fun second => ne (first.trans second.symm)
    simp [not_second]
  · simp [first]

end Family

end Tracker

/-! ### Every run of a family -/

open Tracker Family

/-- When only the steps that are to be kept are left of a run, the member `t` is the same tracker
    in the end, under its new number, and what is done with it gets the same replies. -/
def Undisturbed (f : Family) (steps : List (Nat × Action)) (keep : List Bool) (t : Nat) : Prop :=
  let all := List.replicate f.members.length true
  let number := rank (remainders all steps keep) t
  (f.after (thin all steps keep)).members[number]? = (f.after steps).members[t]? ∧
    f.exchanges number (thin all steps keep) = f.exchanges t steps

/-- How little the trackers of a family have to do with each other. -/
structure TrackersIndependent (f : Family) (steps : List (Nat × Action)) : Prop where
  /-- The steps for a member, and for those from which its chain comes, before the forks, are
      enough for it. -/
  alone : ∀ t < (f.after steps).members.length,
    Undisturbed f steps (own f.members.length steps t) t
  /-- They are all that is left then. -/
  left : ∀ t < (f.after steps).members.length,
    let all := List.replicate f.members.length true
    let mine := own f.members.length steps t
    thin all steps mine = (steps.zip mine).filterMap fun ((index, action), mine_too) =>
      if mine_too then some (rank (remainders all steps mine) index, action) else none
  /-- To keep some of the other steps makes no difference to it. -/
  others : ∀ t < (f.after steps).members.length, ∀ keep,
    List.Forall₂ (· ≤ ·) (own f.members.length steps t) keep → Undisturbed f steps keep t
  /-- Neighbouring steps for two chains may be swapped. -/
  swapped : ∀ before index action index' action' behind,
    steps = before ++ (index, action) :: (index', action') :: behind → index ≠ index' →
    action.onChain = true → action'.onChain = true →
      (f.after (before ++ (index', action') :: (index, action) :: behind)).members =
          (f.after steps).members ∧
        ∀ t, f.exchanges t (before ++ (index', action') :: (index, action) :: behind) =
          f.exchanges t steps

/-- The trackers of a family do not interfere, whatever is done with them. -/
theorem trackers_independent (f : Family) (steps : List (Nat × Action))
    (addressed : Addressed f.members.length steps) : TrackersIndependent f steps := by
  have undisturbed {t : Nat} (present : t < (f.after steps).members.length) {keep : List Bool}
      (needed : List.Forall₂ (· ≤ ·) (own f.members.length steps t) keep) :
      Undisturbed f steps keep t := by
    have start := matched_start (ancestor_lt addressed present)
    obtain ⟨ended, exchanged⟩ := start.after addressed present needed
    exact ⟨ended.same, exchanged⟩
  constructor
  case alone =>
    exact fun t present => undisturbed present (List.forall₂_same.mpr fun mark _ => Bool.le_refl mark)
  case left =>
    exact fun t present =>
      (matched_start (ancestor_lt addressed present)).thin_own addressed present
  case others => exact fun t present keep needed => undisturbed present needed
  case swapped =>
    rintro before index action index' action' behind rfl ne onChain onChain'
    have pair (x y : Nat × Action) : before ++ x :: y :: behind = before ++ ([x, y] ++ behind) := rfl
    obtain ⟨members, exchanged⟩ :=
      same_members (members_swap (Ne.symm ne) onChain' onChain (f.after before)) behind
    rw [pair, pair, after_append, after_append, after_append, after_append]
    refine ⟨members, fun t => ?_⟩
    rw [exchanges_append, exchanges_append, exchanges_append, exchanges_append, exchanged t,
      exchanges_swap (Ne.symm ne) onChain' onChain]

/-- The fork of a fork is alone when the steps of its relatives behind the forks are deleted. -/
theorem trackers_independent_forked :
    let f := single (.whole 3)
    let steps : List (Nat × Action) :=
      [(0, .push ['a']), (0, .fork), (0, .push ['b']), (0, .fork), (1, .push ['c']), (1, .fork),
        (0, .clear), (3, .push ['a']), (1, .pop)]
    Addressed f.members.length steps ∧ TrackersIndependent f steps ∧
      thin [true] steps (own 1 steps 3) =
        [(0, .push ['a']), (0, .fork), (1, .push ['c']), (1, .fork), (2, .push ['a'])] ∧
      f.exchanges 3 steps = [(.push ['a'], .refused (.cycle [['a'], ['c']] ['a']))] := by
  intro f steps
  have addressed : Addressed f.members.length steps := by decide
  exact ⟨addressed, trackers_independent f steps addressed, by decide, by decide⟩

end MarkdownOutlets
