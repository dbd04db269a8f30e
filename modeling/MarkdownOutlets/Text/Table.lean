import MarkdownOutlets.Text.Basic

/-! # Tables of texts

  Texts by name, in the order in which the names were first given one.
-/

namespace MarkdownOutlets

/-- What an association list holds at a key, entry by entry. -/
theorem lookup_cons_eq {α β : Type} [BEq α] [LawfulBEq α] [DecidableEq α] (key first : α)
    (value : β) (rest : List (α × β)) : List.lookup key ((first, value) :: rest) =
      if key = first then some value else List.lookup key rest := by
  rw [List.lookup_cons]
  by_cases same : key = first
  · rw [if_pos same, beq_iff_eq.mpr same]
  · rw [if_neg same, beq_eq_false_iff_ne.mpr same]

/-- Texts by name; no name occurs twice. -/
abbrev TextTable := List (Text × Text)

namespace TextTable

/-- The text of a name. -/
def get? (table : TextTable) (name : Text) : Option Text := table.lookup name

/-- The table after a text was given to a name: a name that is present keeps
    its place. -/
def put : TextTable → (name text : Text) → TextTable
  | [], name, text => [(name, text)]
  | (n, t) :: rest, name, text =>
    if n = name then (n, text) :: rest else (n, t) :: put rest name text

/-- The table without a name. -/
def erase (table : TextTable) (name : Text) : TextTable := table.filter fun row => row.1 ≠ name

end TextTable

end MarkdownOutlets
