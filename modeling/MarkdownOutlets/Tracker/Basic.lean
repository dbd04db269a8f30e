import MarkdownOutlets.Problem.Basic

/-! # Trackers

  A tracker holds the chain of sources that are being composed, from the
  outermost to the innermost. A source joins the chain only if the chain is
  shorter than the limit and does not hold the source already.
-/

namespace MarkdownOutlets

/-- The chain of the sources that are being composed. -/
structure Tracker where
  /-- Greatest length of the chain. -/
  limit : Limit
  /-- The paths of the sources, the outermost first. -/
  chain : List Text
  deriving DecidableEq, Repr

namespace Tracker

/-- A tracker with an empty chain. -/
def empty (limit : Limit) : Tracker := { limit, chain := [] }

/-- Length of the chain. -/
def depth (t : Tracker) : Nat := t.chain.length

/-- How many more sources may join the chain. -/
def remaining (t : Tracker) : Scalar := t.limit.remaining t.depth

/-- The tracker after a source joined the chain as its innermost one. A
    chain at its limit takes no source, not even to find a cycle. -/
def push (t : Tracker) (path : Text) : Except Problem Tracker :=
  if t.limit.reached t.depth then .error (.depth t.chain t.limit path)
  else if path ∈ t.chain then .error (.cycle (t.chain.dropWhile (· != path)) path)
  else .ok { t with chain := t.chain ++ [path] }

/-- The tracker without the innermost source. -/
def pop (t : Tracker) : Tracker := { t with chain := t.chain.dropLast }

theorem push_eq_ok {t t' : Tracker} {path : Text} :
    t.push path = .ok t' ↔ t.limit.reached t.depth = false ∧ path ∉ t.chain ∧
      t' = { t with chain := t.chain ++ [path] } := by
  unfold push
  cases t.limit.reached t.depth with
  | true => simp
  | false => by_cases mem : path ∈ t.chain <;> simp [mem, eq_comm]

theorem push_eq_error {t : Tracker} {path : Text} {problem : Problem} :
    t.push path = .error problem ↔
      t.limit.reached t.depth = true ∧ problem = .depth t.chain t.limit path ∨
      t.limit.reached t.depth = false ∧ path ∈ t.chain ∧
        problem = .cycle (t.chain.dropWhile (· != path)) path := by
  unfold push
  cases t.limit.reached t.depth with
  | true => simp [eq_comm]
  | false => by_cases mem : path ∈ t.chain <;> simp [mem, eq_comm]

/-- A source that joined the chain and leaves it again leaves it as it was. -/
theorem pop_of_push {t t' : Tracker} {path : Text} (h : t.push path = .ok t') : t'.pop = t := by
  obtain ⟨-, -, rfl⟩ := push_eq_ok.mp h
  simp [pop]

end Tracker

end MarkdownOutlets
