import MarkdownOutlets.Data.Value

/-! # Documents

  A document is a body, which is a text or the path of a source, and a value
  for each of its slots. A slot value is a text, the content of a source
  taken as it is, the result of a function, or another document.
-/

namespace MarkdownOutlets

/-- Where the text of a document comes from. -/
inductive Body
  /-- The text itself. -/
  | text (t : Text)
  /-- The path of a source. -/
  | source (path : Text)
  deriving DecidableEq, Repr

/-- A slot value. -/
inductive Slot
  /-- A text, used as it is. -/
  | literal (t : Text)
  /-- The path of a source whose text is used as it is. -/
  | source (path : Text)
  /-- A function that produces the text. -/
  | callback (c : Callback)
  /-- A document with slots of its own. -/
  | document (body : Body) (slots : List (Scalar × Slot))
  deriving Repr

/-- Induction over a slot value, with the property at hand for every value
    that a document gives to a name. -/
theorem Slot.induct {P : Slot → Prop} (literal : ∀ t, P (.literal t))
    (source : ∀ path, P (.source path)) (callback : ∀ c, P (.callback c))
    (document : ∀ body slots, (∀ name value, slots.lookup name = some value → P value) →
      P (.document body slots))
    (value : Slot) : P value := by
  induction value using Slot.rec
    (motive_2 := fun slots => ∀ name value, slots.lookup name = some value → P value)
    (motive_3 := fun entry => P entry.2) with
  | literal t => exact literal t
  | source path => exact source path
  | callback c => exact callback c
  | document body slots ih => exact document body slots ih
  | nil =>
    rename_i name value found
    simp at found
  | cons entry rest ih_entry ih_rest =>
    rename_i name value found
    obtain ⟨key, first⟩ := entry
    rw [List.lookup_cons] at found
    by_cases h : name == key
    · simp only [h] at found
      exact Option.some.inj found ▸ ih_entry
    · simp only [h] at found
      exact ih_rest name value found
  | mk key value ih => exact ih

/-- Slot values by name, in order. Names are texts in every document that
    was written as a mapping; another key names no outlet. -/
abbrev Slots := List (Scalar × Slot)

/-- A document. -/
structure Document where
  /-- Where its text comes from. -/
  body : Body
  /-- Its slot values. -/
  slots : Slots
  deriving Repr

namespace Document

/-- A document as a slot value. -/
def toSlot (d : Document) : Slot := .document d.body d.slots

end Document

namespace Slots

/-- The slots after a value was given to a name: a name that is present
    keeps its place. -/
def put : Slots → (name : Scalar) → (value : Slot) → Slots
  | [], name, value => [(name, value)]
  | (k, v) :: rest, name, value =>
    if k.sameKey name then (k, value) :: rest else (k, v) :: put rest name value

/-- The slots with all values of another mapping put on top. -/
def overlay (slots top : Slots) : Slots :=
  top.foldl (fun slots entry => put slots entry.1 entry.2) slots

end Slots

/-! ### Source paths -/

/-- A body with its source path passed through a function. -/
def Body.mapPath (f : Text → Text) : Body → Body
  | .text t => .text t
  | .source path => .source (f path)

mutual

/-- A slot value with every source path in it passed through a function. -/
def Slot.mapPaths (f : Text → Text) : Slot → Slot
  | .source path => .source (f path)
  | .document body slots => .document (body.mapPath f) (Slots.mapPaths f slots)
  | slot => slot

/-- Slot values with every source path in them passed through a function. -/
def Slots.mapPaths (f : Text → Text) : List (Scalar × Slot) → List (Scalar × Slot)
  | [] => []
  | (name, slot) :: rest => (name, Slot.mapPaths f slot) :: Slots.mapPaths f rest

end

mutual

/-- What a function finds first at the source paths in a slot value. Those of
    its slots come before its own. -/
def Slot.findPath? {α : Type} (f : Text → Option α) : Slot → Option α
  | .source path => f path
  | .document (.source path) slots => (Slots.findPath? f slots).or (f path)
  | .document (.text _) slots => Slots.findPath? f slots
  | _ => none

/-- What a function finds first at the source paths in slot values. -/
def Slots.findPath? {α : Type} (f : Text → Option α) : List (Scalar × Slot) → Option α
  | [] => none
  | (_, slot) :: rest => (Slot.findPath? f slot).or (Slots.findPath? f rest)

end

/-- A document with every source path in it passed through a function. -/
def Document.mapPaths (f : Text → Text) (d : Document) : Document :=
  { body := d.body.mapPath f, slots := Slots.mapPaths f d.slots }

end MarkdownOutlets
