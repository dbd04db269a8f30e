import MarkdownOutlets.Tracker.Basic

/-! # Families of trackers

  Branches of a composition that run side by side each have a tracker of
  their own, forked from that of the branch they belong to. All trackers of
  a family share one set: the sources that ever joined one of their chains.
-/

namespace MarkdownOutlets

namespace Tracker

/-- Trackers that were forked from one another. -/
structure Family where
  /-- The sources that joined a chain, each once, in order of joining. -/
  visited : List Text
  /-- The trackers, in order of creation. -/
  members : List Tracker
  deriving DecidableEq, Repr

/-- What can be done with a member of a family. -/
inductive Action
  /-- Let a source join the chain. -/
  | push (path : Text)
  /-- Let the innermost source leave the chain. -/
  | pop
  /-- Forget the chain, and the set shared by the family. -/
  | clear
  /-- Ask whether a source ever joined a chain of the family. -/
  | hasVisited (path : Text)
  /-- Add a tracker with the same chain to the family. -/
  | fork
  deriving DecidableEq, Repr

/-- The answer to an action. -/
inductive Reply
  /-- It was done. -/
  | done
  /-- The source may not join the chain. -/
  | refused (problem : Problem)
  /-- Whether the source was visited. -/
  | visited (answer : Bool)
  /-- The index of the new member. -/
  | forked (index : Nat)
  deriving DecidableEq, Repr

namespace Family

/-- A family of one tracker. -/
def single (limit : Limit) : Family := { visited := [], members := [.empty limit] }

/-- A source joined one of the chains. -/
def visit (f : Family) (path : Text) : Family :=
  if f.visited.contains path then f else { f with visited := f.visited ++ [path] }

/-- The family with another tracker as its member of that index. -/
def set (f : Family) (index : Nat) (t : Tracker) : Family :=
  { f with members := f.members.set index t }

/-- One action on the member of that index; nothing happens if there is no
    such member. -/
def step (f : Family) (index : Nat) (action : Action) : Reply × Family :=
  match f.members[index]? with
  | none => (.done, f)
  | some t =>
    match action with
    | .push path =>
      match t.push path with
      | .error problem => (.refused problem, f)
      | .ok t' => (.done, (f.set index t').visit path)
    | .pop => (.done, f.set index t.pop)
    | .clear => (.done, { f.set index (.empty t.limit) with visited := [] })
    | .hasVisited path => (.visited (f.visited.contains path), f)
    | .fork => (.forked f.members.length, { f with members := f.members ++ [t] })

/-- The answers to a sequence of actions, and the family behind it. -/
def run (f : Family) : List (Nat × Action) → List Reply × Family
  | [] => ([], f)
  | (index, action) :: rest =>
    let (reply, f) := f.step index action
    let (replies, f) := f.run rest
    (reply :: replies, f)

/-- The visited sources in the order of their code points. -/
def visitedSorted (f : Family) : List Text := f.visited.mergeSort Text.le

end Family

end Tracker

end MarkdownOutlets
