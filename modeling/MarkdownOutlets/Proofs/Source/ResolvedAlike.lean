import MarkdownOutlets.Proofs.Source.CanonicalPaths
import MarkdownOutlets.Proofs.Source.MemoryPaths

/-! # Sources in files and in memory

  A source in files resolves paths by their roots and names, a source in memory by
  their texts. They do the same where both have the same directories: one root, and
  no home directory (`FileSource.resolve_relative_eq`). The directory that a path is
  relative to has the same names in both (`FileSource.anchor_eq`), and a text with
  another one behind a slash has the names of both.

  An absolute path is taken as it is from files, and made canonical in memory. The
  two agree where there is no step to the directory above
  (`FileSource.resolve_absolute_eq`).

  The main statement is `resolved_alike`.
-/

namespace MarkdownOutlets

open FilePath

/-! ### Directories of documents -/

/-- What stands behind the last separator has none. -/
theorem Text.cutLast_append {sep : Char} (a : Text) {b : Text} (not_mem : sep ∉ b) :
    cutLast sep (a ++ sep :: b) = some (a, b) := by
  have none_behind : cutLast sep b = none := by
    induction b with
    | nil => rfl
    | cons c cs ih =>
      rw [List.mem_cons, not_or] at not_mem
      simp only [cutLast, ih not_mem.2, if_neg (Ne.symm not_mem.1)]
  induction a with
  | nil => simp only [List.nil_append, cutLast, none_behind, if_true]
  | cons c cs ih => simp only [List.cons_append, cutLast, ih]

theorem FilePath.joinNames_concat (first : Text) (rest : List Text) (last : Text) :
    joinNames (first :: rest ++ [last]) = joinNames (first :: rest) ++ '/' :: last := by
  induction rest generalizing first with
  | nil => rw [List.singleton_append, joinNames_cons_cons, joinNames_singleton, joinNames_singleton]
  | cons second rest ih =>
    have behind := ih second
    rw [List.cons_append] at behind
    rw [List.cons_append, List.cons_append, joinNames_cons_cons, behind, joinNames_cons_cons,
      List.append_assoc, List.cons_append]

namespace MemorySource

/-- The directory of a document has the names of the document but for the last one. -/
theorem namesOf_directory {document : Text} (canonical : IsCanonical document) :
    namesOf (directory document) = (namesOf document).dropLast := by
  obtain ⟨names, rfl, are_names, -⟩ := canonical
  rw [namesOf_slash, namesOf_joinNames are_names]
  rcases List.eq_nil_or_concat names with rfl | ⟨front, last, rfl⟩
  · rfl
  · rw [List.concat_eq_append] at are_names ⊢
    rw [List.dropLast_concat]
    have no_slash : '/' ∉ last := (are_names last (by simp)).no_slash
    cases front with
    | nil =>
      have cut : Text.cutLast '/' ('/' :: last) = some ([], last) := Text.cutLast_append [] no_slash
      rw [List.nil_append, joinNames_singleton, directory, cut]
      rfl
    | cons first front =>
      have cut : Text.cutLast '/' ('/' :: joinNames (first :: front) ++ '/' :: last) =
          some ('/' :: joinNames (first :: front), last) := Text.cutLast_append _ no_slash
      rw [joinNames_concat, ← List.cons_append, directory, cut]
      have front_names : ∀ name ∈ first :: front, IsName name := fun name mem =>
        are_names name (List.mem_append_left _ mem)
      exact (namesOf_slash _).trans (namesOf_joinNames front_names)

/-- A canonical path has one root. -/
theorem root_of_isCanonical {t : Text} (canonical : IsCanonical t) : Root.ofText t = .single := by
  obtain ⟨names, rfl, are_names, -⟩ := canonical
  have found : Root.ofText (Root.single.slashes ++ joinNames names) = .single :=
    ofText_slashes are_names
  exact found

end MemorySource

/-! ### Roots -/

theorem Root.ofText_eq_relative {t : Text} : Root.ofText t = .relative ↔ t.head? ≠ some '/' := by
  unfold Root.ofText
  split
  · simp
  · split <;> simp
  · simp
  · rename_i not_slash
    refine iff_of_true rfl fun head => ?_
    obtain ⟨rest, rfl⟩ := List.head?_eq_some_iff.mp head
    exact not_slash rest rfl

/-! ### Resolving -/

namespace FileSource

/-- A base that means the same directory for both kinds of source: an absolute path with one
    root. As the path of a document, it is written in the way in which paths are resolved. -/
structure IsSharedBase (mode : ResolveFrom) (base : Text) : Prop where
  /-- It starts with a slash, and not with exactly two. -/
  root : (ofText base).root = .single
  /-- The path of a document is canonical. -/
  document : mode = .file → MemorySource.IsCanonical base

/-- The first name of the path does not stand for a home directory. -/
def NoHome (path : Text) : Prop := ∀ name, (namesOf path).head? = some name → name.head? ≠ some '~'

variable {s : FileSource} {cwd path : Text} {base : Option Text} {mode : ResolveFrom}

/-- A path is relative to a directory with the same names. -/
theorem anchor_eq (canonical : MemorySource.IsCanonical cwd)
    (at_cwd : s.directory.getD s.places.cwd = .ofText cwd)
    (shared : ∀ b, base = some b → IsSharedBase mode b) :
    s.anchor base mode =
      { root := .single, names := namesOf (MemorySource.anchor cwd base mode) } := by
  have written {t : Text} (root : (ofText t).root = .single) :
      ofText t = { root := .single, names := namesOf t } := by
    rw [← root]
    rfl
  have without_base : s.directory.getD s.places.cwd = { root := .single, names := namesOf cwd } :=
    at_cwd.trans (written (MemorySource.root_of_isCanonical canonical))
  cases base with
  | none => cases mode <;> exact without_base
  | some b =>
    have is_shared := shared b rfl
    cases b with
    | nil => cases is_shared.root
    | cons c rest =>
      cases mode with
      | cwd => exact written is_shared.root
      | file =>
        have names := MemorySource.namesOf_directory (is_shared.document rfl)
        unfold anchor MemorySource.anchor
        simp only [FilePath.parent, written is_shared.root, names]

theorem expand_of_noHome (places : Places) (no_home : NoHome path) :
    places.expand (.ofText path) = .ofText path := by
  unfold Places.expand
  split
  · rename_i user rest _ names_eq
    have first : (namesOf path).head? = some ('~' :: user) := congrArg List.head? names_eq
    exact absurd rfl (no_home _ first)
  · rfl

/-- A relative path has the same source in files and in memory. -/
theorem resolve_relative_eq (canonical : MemorySource.IsCanonical cwd)
    (at_cwd : s.directory.getD s.places.cwd = .ofText cwd)
    (shared : ∀ b, base = some b → IsSharedBase mode b) (relative : path.head? ≠ some '/')
    (no_home : NoHome path) :
    s.resolve path base mode = MemorySource.resolve cwd path base mode := by
  have not_absolute : (FilePath.ofText path).isAbsolute = false :=
    decide_eq_false (Decidable.not_not.mpr (Root.ofText_eq_relative.mpr relative))
  have anchored := anchor_eq canonical at_cwd shared
  have absolute : s.places.absolute (s.anchor base mode) = s.anchor base mode :=
    join_of_isAbsolute (by rw [anchored]; rfl)
  rw [MemorySource.resolve_relative relative, MemorySource.canonical, namesOf_append_slash]
  unfold resolve
  dsimp only
  rw [expand_of_noHome s.places no_home, not_absolute, absolute, anchored, FilePath.join,
    not_absolute]
  rfl

/-- An absolute path without a step to the directory above has the same source in files and
    in memory. -/
theorem resolve_absolute_eq (s : FileSource) (cwd : Text) (root : (FilePath.ofText path).root = .single)
    (straight : up ∉ (FilePath.ofText path).names) (base base' : Option Text)
    (mode mode' : ResolveFrom) :
    s.resolve path base mode = MemorySource.resolve cwd path base' mode' := by
  have absolute : (FilePath.ofText path).isAbsolute = true := by
    rw [isAbsolute, root]
    rfl
  have from_memory : MemorySource.resolve cwd path base' mode' = MemorySource.canonical path := by
    unfold MemorySource.resolve
    split
    · rfl
    · rename_i not_slash
      have relative : Root.ofText path = .relative := Root.ofText_eq_relative.mpr fun head => by
        obtain ⟨rest, eq⟩ := List.head?_eq_some_iff.mp head
        exact not_slash rest eq
      cases relative.symm.trans root
  have normal : normalNames true (namesOf path) = namesOf path :=
    normalNames_of_isNormal (isNormal_of_notMem straight)
  unfold resolve
  dsimp only
  rw [expand_of_isAbsolute absolute, absolute, if_pos rfl, from_memory, MemorySource.canonical,
    normal]
  unfold toText
  rw [root]
  rfl

end FileSource

/-! ### Both kinds of source -/

/-- A source in files and one in memory resolve paths in the same way. -/
structure ResolvedAlike (s : FileSource) (cwd : Text) : Prop where
  /-- Relative paths that do not start in a home directory: the source is a slash and names with
      slashes between them, none of which is empty or a step to the directory itself or to the
      one above. -/
  relative : ∀ path base mode, path.head? ≠ some '/' → FileSource.NoHome path →
    (∀ b, base = some b → FileSource.IsSharedBase mode b) →
      s.resolve path base mode = MemorySource.resolve cwd path base mode ∧
        MemorySource.IsCanonical (s.resolve path base mode)
  /-- Absolute paths that do not start with exactly two slashes and have no step to the
      directory above: base and mode do not matter. -/
  absolute : ∀ path, (ofText path).root = .single → up ∉ (ofText path).names →
    ∀ base base' mode mode',
      s.resolve path base mode = MemorySource.resolve cwd path base' mode'

/-- Sources in files and in memory with the same working directory resolve paths in the same
    way. -/
theorem resolved_alike {s : FileSource} {cwd : Text} (canonical : MemorySource.IsCanonical cwd)
    (at_cwd : s.directory.getD s.places.cwd = .ofText cwd) : ResolvedAlike s cwd := by
  constructor
  case relative =>
    intro path base mode relative no_home shared
    have same := FileSource.resolve_relative_eq canonical at_cwd shared relative no_home
    exact ⟨same, same ▸ MemorySource.isCanonical_resolve cwd path base mode⟩
  case absolute =>
    intro path root straight base base' mode mode'
    exact FileSource.resolve_absolute_eq s cwd root straight base base' mode mode'

/-- Repeated slashes, steps to the directory itself and steps above the root make no
    difference. -/
theorem resolved_alike_detours :
    MemorySource.IsCanonical "/w".toList ∧
    workFiles.directory.getD workFiles.places.cwd = .ofText "/w".toList ∧
    ResolvedAlike workFiles "/w".toList ∧
    workFiles.resolve "../.././/../b/c.md".toList (some "///x/./y//".toList) .cwd =
      MemorySource.resolve "/w".toList "../.././/../b/c.md".toList (some "///x/./y//".toList) .cwd ∧
    workFiles.resolve "../.././/../b/c.md".toList (some "///x/./y//".toList) .cwd =
      "/b/c.md".toList := by
  have canonical : MemorySource.IsCanonical "/w".toList :=
    MemorySource.isCanonical_canonical "/w".toList
  have alike : ResolvedAlike workFiles "/w".toList := resolved_alike canonical rfl
  refine ⟨canonical, rfl, alike, ?_, by decide⟩
  refine (alike.relative _ _ .cwd (by decide) ?_ ?_).1
  · intro name first
    obtain rfl : up = name := Option.some.inj first
    decide
  · rintro b ⟨⟩
    exact ⟨by decide, fun file => by cases file⟩

end MarkdownOutlets
