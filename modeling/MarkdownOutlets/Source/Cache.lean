import MarkdownOutlets.Data.Value

/-! # Caches

  A cache is a mapping of the caller in which texts of sources are kept by
  path. It may hold other entries as well, which are left alone.
-/

namespace MarkdownOutlets

/-- A mapping of texts by path, with whatever else the caller put there. -/
abbrev Cache := Entries

namespace Cache

/-- What the cache holds for a path. -/
def held? (c : Cache) (path : Text) : Option Value := c.get? (.text path)

/-- The cache after it was given a text for a path: a path that is present
    keeps its place. -/
def remember (c : Cache) (path text : Text) : Cache := c.put (.text path) (.text text)

@[simp] theorem held?_nil (path : Text) : held? [] path = none := rfl

theorem get?_remember (c : Cache) (path text : Text) (key : Scalar) :
    (c.remember path text).get? key = if key = .text path then some (.text text) else c.get? key :=
  Entries.get?_put_text c path (.text text) key

theorem held?_remember (c : Cache) (path text q : Text) :
    (c.remember path text).held? q = if q = path then some (.text text) else c.held? q := by
  simp [held?, get?_remember]

/-- The cache holds nothing but texts for paths. -/
def IsTextual (c : Cache) : Prop := ∀ path v, c.held? path = some v → ∃ t, v = .text t

/-- A text for a path is one more text. -/
theorem IsTextual.remember {c : Cache} (textual : c.IsTextual) (path text : Text) :
    (c.remember path text).IsTextual := by
  intro q v found
  rw [held?_remember] at found
  split at found
  · exact ⟨text, (Option.some.inj found).symm⟩
  · exact textual q v found

end Cache

end MarkdownOutlets
