import MarkdownOutlets.Template.Region
import MarkdownOutlets.Template.Marker

/-! # Templates

  A template is a text with its protected regions and its outlets: the
  markers that no protected region contains. Filling replaces each outlet by
  the text given for its name and leaves the others as they stand; what is
  put in is never read again.
-/

namespace MarkdownOutlets

/-- The elements of a list without repetition, each at its first place. -/
def distinct [DecidableEq α] : List α → List α
  | [] => []
  | x :: xs => x :: (distinct xs).filter (· ≠ x)

/-- A text read for its outlets. -/
structure Template where
  /-- The text itself. -/
  text : Text
  /-- Its code blocks, in order. -/
  regions : List Region
  /-- Its markers outside of code blocks, in order. -/
  outlets : List Occurrence
  deriving DecidableEq, Repr

namespace Template

/-- Reads a text. -/
def ofText (t : Text) : Template :=
  let regions := Region.ofText t
  { text := t
    regions
    outlets := (Occurrence.ofText t).filter fun o =>
      !regions.any fun r => r.contains o.start o.stop }

/-- The names of the outlets, each once, in the order in which they first
    occur. -/
def names (t : Template) : List Text := distinct (t.outlets.map (·.name))

/-- Replaces the characters of one occurrence. -/
def replaceAt (o : Occurrence) (new : Text) (t : Text) : Text :=
  t.take o.start ++ new ++ t.drop o.stop

/-- Puts the given texts in the place of the outlets of their names. The
    last outlet is replaced first, so that the offsets of those before it
    stay right. -/
def fill (t : Template) (given : Text → Option Text) : Text :=
  t.outlets.foldr (fun o filled =>
    match given o.name with
    | some new => replaceAt o new filled
    | none => filled) t.text

end Template

theorem mem_distinct [DecidableEq α] {x : α} {xs : List α} : x ∈ distinct xs ↔ x ∈ xs := by
  induction xs with
  | nil => simp [distinct]
  | cons y ys ih => by_cases h : x = y <;> simp [distinct, ih, h]

theorem nodup_distinct [DecidableEq α] (xs : List α) : (distinct xs).Nodup := by
  induction xs with
  | nil => simp [distinct]
  | cons y ys ih => exact List.nodup_cons.2 ⟨by simp, ih.filter _⟩

end MarkdownOutlets
