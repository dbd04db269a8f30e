import MarkdownOutlets.Proofs.Path.NormalForm
import MarkdownOutlets.Source.Memory

/-! # Paths of sources in memory

  A source in memory writes every path in one way: a slash, and names with
  slashes between them, none of which leads above (`MemorySource.isCanonical_resolve`).
  Such a path means itself, whatever it may be relative to
  (`MemorySource.resolve_of_isCanonical`).

  The canonical text of a path depends on the names in it only. The names of two
  paths with a slash between them are those of both, so that one may be made
  canonical before the other is added (`MemorySource.canonical_append`). To resolve
  a path in the directory that another one means is to resolve both at once
  (`MemorySource.resolve_in_resolved`).
-/

namespace MarkdownOutlets

namespace MemorySource

open FilePath

/-- The text of an absolute path without a detour. -/
def IsCanonical (t : Text) : Prop :=
  ∃ names, t = '/' :: joinNames names ∧ (∀ name ∈ names, IsName name) ∧ up ∉ names

/-- A path without a detour stays as it is. -/
theorem canonical_of_isCanonical {t : Text} (h : IsCanonical t) : canonical t = t := by
  obtain ⟨names, rfl, are_names, no_up⟩ := h
  have found : namesOf ('/' :: joinNames names) = names := by
    rw [namesOf_slash, namesOf_joinNames are_names]
  rw [canonical, found, normalNames_of_isNormal (isNormal_of_notMem no_up)]

/-- It means itself, whatever the directory and the base. -/
theorem resolve_of_isCanonical {t : Text} (h : IsCanonical t) (cwd : Text) (base : Option Text)
    (mode : ResolveFrom) : resolve cwd t base mode = t := by
  have stays := canonical_of_isCanonical h
  obtain ⟨names, rfl, -⟩ := h
  exact stays

/-! ### Canonical texts -/

/-- What remains of the names in a text behind a root are names. -/
theorem isName_of_mem_normalNames {t name : Text} (mem : name ∈ normalNames true (namesOf t)) :
    IsName name := by
  have proper : FilePath.IsProper ⟨.single, namesOf t⟩ := fun _ mem => isName_of_mem_namesOf mem
  exact proper.normal name mem

/-- The names in a canonical text are what remains of those in the text. -/
theorem namesOf_canonical (t : Text) : namesOf (canonical t) = normalNames true (namesOf t) := by
  rw [canonical, namesOf_slash, namesOf_joinNames fun _ mem => isName_of_mem_normalNames mem]

theorem isCanonical_canonical (t : Text) : IsCanonical (canonical t) :=
  ⟨_, rfl, fun _ mem => isName_of_mem_normalNames mem, up_notMem_normalNames _⟩

/-- Of two texts with a slash between them, the first one may be made canonical before. -/
theorem canonical_append (a b : Text) :
    canonical (a ++ '/' :: b) = canonical (canonical a ++ '/' :: b) := by
  rw [canonical, canonical, namesOf_append_slash, namesOf_append_slash, namesOf_canonical,
    normalNames_normalNames_append]

/-- The step to the directory above takes the last name back. At the root there is none, and
    nothing happens. -/
theorem namesOf_canonical_up (t : Text) :
    namesOf (canonical (t ++ '/' :: up)) = (namesOf (canonical t)).dropLast := by
  rw [namesOf_canonical, namesOf_canonical, namesOf_append_slash, namesOf_name isName_up,
    normalNames, List.foldl_append, List.foldl_cons, List.foldl_nil, ← normalNames,
    follow_up_of_notMem (up_notMem_normalNames _)]

/-! ### Relative paths -/

/-- Slashes at the end of a text say nothing about the names. -/
theorem namesOf_dropEndWhile (t : Text) :
    namesOf (Text.dropEndWhile (· == '/') t) = namesOf t := by
  -- A text is what is left of it and slashes.
  have exists_slashes (t : Text) :
      ∃ n, t = Text.dropEndWhile (· == '/') t ++ List.replicate n '/' := by
    induction t with
    | nil => exact ⟨0, rfl⟩
    | cons c cs ih =>
      obtain ⟨n, eq⟩ := ih
      unfold Text.dropEndWhile
      split
      · rename_i none_left
        rw [none_left, List.nil_append] at eq
        split
        · rename_i slash
          rw [eq, beq_iff_eq.mp slash]
          exact ⟨n + 1, rfl⟩
        · exact ⟨n, by rw [List.singleton_append, ← eq]⟩
      · exact ⟨n, by rw [List.cons_append, ← eq]⟩
  have without_slashes (n : Nat) (t : Text) : namesOf (t ++ List.replicate n '/') = namesOf t := by
    induction n with
    | zero => rw [List.replicate_zero, List.append_nil]
    | succ n ih =>
      rw [List.replicate_succ', ← List.append_assoc, namesOf_append_slash, ih, namesOf_nil,
        List.append_nil]
  obtain ⟨n, eq⟩ := exists_slashes t
  rw [← without_slashes n, ← eq]

/-- A relative path follows the names of the directory that it is relative to. -/
theorem resolve_relative {path : Text} (relative : path.head? ≠ some '/') (cwd : Text)
    (base : Option Text) (mode : ResolveFrom) :
    resolve cwd path base mode = canonical (anchor cwd base mode ++ '/' :: path) := by
  unfold resolve
  split
  · exact absurd rfl relative
  · rw [canonical, canonical, namesOf_append_slash, namesOf_append_slash, namesOf_dropEndWhile]

/-- Whatever a path is relative to, its source has a canonical text. -/
theorem isCanonical_resolve (cwd path : Text) (base : Option Text) (mode : ResolveFrom) :
    IsCanonical (resolve cwd path base mode) := by
  unfold resolve
  split
  · exact isCanonical_canonical _
  · exact isCanonical_canonical _

/-- To resolve a relative path in the directory that another one means is to resolve both at
    once. -/
theorem resolve_in_resolved {a b : Text} (nonempty : a ≠ []) (relative : b.head? ≠ some '/')
    (cwd : Text) (base : Option Text) (mode : ResolveFrom) :
    resolve cwd b (some (resolve cwd a base mode)) .cwd = resolve cwd (a ++ '/' :: b) base mode := by
  have directory : anchor cwd (some (resolve cwd a base mode)) .cwd = resolve cwd a base mode := by
    obtain ⟨names, eq, -⟩ := isCanonical_resolve cwd a base mode
    rw [eq]
    rfl
  rw [resolve_relative relative, directory]
  obtain ⟨c, rest, rfl⟩ := List.exists_cons_of_ne_nil nonempty
  by_cases slash : c = '/'
  · subst slash
    exact (canonical_append _ b).symm
  · have relative_a : (c :: rest).head? ≠ some '/' := fun eq => slash (Option.some.inj eq)
    have relative_both : (c :: rest ++ '/' :: b).head? ≠ some '/' := relative_a
    rw [resolve_relative relative_a, resolve_relative relative_both, ← canonical_append,
      List.append_assoc, List.cons_append]

end MemorySource

end MarkdownOutlets
