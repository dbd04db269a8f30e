import Mathlib.Data.List.Nodup
import Mathlib.Data.List.Range
import MarkdownOutlets.Files.Tree
import MarkdownOutlets.Proofs.Data.FileData
import MarkdownOutlets.Proofs.Files.Programs
import MarkdownOutlets.Text.Table

/-! # Changes of file trees

  What is at a place after an entry was put somewhere (`FileTree.get?_put`), and for each
  change when it is made and what the tree is then (`FileTree.append_eq_ok` and the
  others). An entry that is put at an empty place and erased again leaves the tree as it
  was (`FileTree.erase_put`).

  A path is looked up in directories, so that it leads to the same place as long as the
  directories are there (`FileTree.KeepsDirectories.locate`). There are always more names
  to try for a new file than entries (`FileTree.exists_unused`).
-/

namespace MarkdownOutlets

namespace FileTree

variable {t t' s : FileTree} {place q : List Text} {p : FilePath}

/-! ### Places -/

@[simp] theorem get?_root (t : FileTree) : t.get? [] = some .directory := if_pos rfl

theorem ne_nil_of_get? (other : t.get? place ≠ some .directory) : place ≠ [] := by
  rintro rfl
  exact other t.get?_root

theorem lookup_putEntry (place : List Text) (entry : FileEntry)
    (entries : List (List Text × FileEntry)) (q : List Text) :
    (putEntry place entry entries).lookup q =
      if q = place then some entry else entries.lookup q := by
  induction entries with
  | nil => exact lookup_cons_eq q place entry []
  | cons first rest ih =>
    obtain ⟨key, e⟩ := first
    unfold putEntry
    by_cases here : key = place
    · subst here
      rw [if_pos rfl, lookup_cons_eq, lookup_cons_eq]
      by_cases same : q = key
      · rw [if_pos same, if_pos same]
      · rw [if_neg same, if_neg same, if_neg same]
    · rw [if_neg here, lookup_cons_eq, lookup_cons_eq, ih]
      by_cases same : q = key
      · subst same
        rw [if_pos rfl, if_pos rfl, if_neg here]
      · rw [if_neg same, if_neg same]

/-- What is at a place after an entry was put at one other than the root. -/
theorem get?_put (t : FileTree) (nonempty : place ≠ []) (entry : FileEntry) (q : List Text) :
    (t.put place entry).get? q = if q = place then some entry else t.get? q := by
  unfold get? put
  by_cases root : q = []
  · subst root
    rw [if_pos rfl, if_neg nonempty.symm, if_pos rfl]
  · rw [if_neg root, if_neg root, lookup_putEntry]

theorem put_put (t : FileTree) (place : List Text) (first entry : FileEntry) :
    (t.put place first).put place entry = t.put place entry := by
  unfold put
  congr 1
  show putEntry place entry (putEntry place first t.entries) = putEntry place entry t.entries
  induction t.entries with
  | nil => simp [putEntry]
  | cons row rest ih =>
    obtain ⟨key, e⟩ := row
    by_cases here : key = place
    · simp [putEntry, here]
    · simp [putEntry, here, ih]

theorem erase_put (absent : t.get? place = none) (entry : FileEntry) :
    (t.put place entry).erase place = t := by
  obtain ⟨cwd, entries⟩ := t
  unfold put erase
  congr 1
  have unused : entries.lookup place = none := by
    unfold get? at absent
    split at absent
    · cases absent
    · exact absent
  show (putEntry place entry entries).filter (fun e => e.1 ≠ place) = entries
  clear absent
  induction entries with
  | nil => simp [putEntry]
  | cons row rest ih =>
    obtain ⟨key, e⟩ := row
    rw [lookup_cons_eq] at unused
    have other : ¬ key = place := by
      rintro rfl
      simp at unused
    rw [if_neg (Ne.symm other)] at unused
    rw [putEntry, if_neg other, List.filter_cons_of_pos (by simpa using other), ih unused]

/-! ### Looking paths up -/

theorem walk_cons_eq_ok {name : Text} {rest : List Text} :
    t.walk place (name :: rest) = .ok q ↔ t.get? place = some .directory ∧
      (Utf8.encode name).length ≤ maxNameLength ∧
      t.walk (if name = FilePath.up then place.dropLast else place ++ [name]) rest = .ok q := by
  rw [walk]
  cases t.get? place with
  | none => simp
  | some e =>
    cases e with
    | file content => simp
    | directory =>
      by_cases long : maxNameLength < (Utf8.encode name).length
      · simp [if_pos long, Nat.not_le.mpr long]
      · simp only [if_neg long, Nat.not_lt.mp long, true_and]
        by_cases is_up : name = FilePath.up
        · rw [if_pos is_up, if_pos is_up]
        · rw [if_neg is_up, if_neg is_up]

/-- The names of a path lead to some place, and from there on. -/
theorem walk_append_eq_ok {first rest : List Text} :
    t.walk place (first ++ rest) = .ok q ↔
      ∃ between, t.walk place first = .ok between ∧ t.walk between rest = .ok q := by
  induction first generalizing place with
  | nil => simp [walk]
  | cons name first ih =>
    rw [List.cons_append, walk_cons_eq_ok, ih]
    simp only [walk_cons_eq_ok]
    constructor
    · rintro ⟨directory, short, between, first, on⟩
      exact ⟨between, ⟨directory, short, first⟩, on⟩
    · rintro ⟨between, ⟨directory, short, first⟩, on⟩
      exact ⟨directory, short, between, first, on⟩

/-- Names other than that of the directory above lead straight on. -/
theorem walk_straight {names : List Text} (straight : FilePath.up ∉ names)
    (leads : t.walk place names = .ok q) : q = place ++ names := by
  induction names generalizing place with
  | nil => simpa [walk] using leads.symm
  | cons name rest ih =>
    obtain ⟨proper, rest_straight⟩ := not_or.mp (List.mem_cons.not.mp straight)
    obtain ⟨_, _, on⟩ := walk_cons_eq_ok.mp leads
    rw [if_neg (Ne.symm proper)] at on
    simpa using ih rest_straight on

/-- The directories of the first tree are directories in the second one, and so is the
    working directory the same. -/
structure KeepsDirectories (t s : FileTree) : Prop where
  /-- The working directory. -/
  cwd : s.cwd = t.cwd
  /-- The directories. -/
  directories : ∀ place, t.get? place = some .directory → s.get? place = some .directory

theorem KeepsDirectories.walk (keeps : KeepsDirectories t s) {names : List Text}
    (leads : t.walk place names = .ok q) : s.walk place names = .ok q := by
  induction names generalizing place with
  | nil => exact leads
  | cons name rest ih =>
    obtain ⟨directory, short, on⟩ := walk_cons_eq_ok.mp leads
    exact walk_cons_eq_ok.mpr ⟨keeps.directories place directory, short, ih on⟩

theorem locate_eq_ok : t.locate p = .ok q ↔ (∀ name ∈ p.names, '\x00' ∉ name) ∧
    (Utf8.encode p.toText).length ≤ maxPathLength ∧
    t.walk (if p.isAbsolute then [] else t.cwd) p.names = .ok q := by
  have good_names :
      (¬ p.names.any (·.contains '\x00') = true) ↔ ∀ name ∈ p.names, '\x00' ∉ name := by
    simp
  unfold locate
  constructor
  · intro found
    split at found
    · cases found
    · rename_i good
      split at found
      · cases found
      · rename_i short
        split at found
        · rename_i place leads
          cases found
          exact ⟨good_names.mp good, Nat.not_lt.mp short, leads⟩
        · cases found
  · rintro ⟨good, short, leads⟩
    rw [if_neg (good_names.mpr good), if_neg (Nat.not_lt.mpr short), leads]

/-- A path goes on to lead to its place. -/
theorem KeepsDirectories.locate (keeps : KeepsDirectories t s) (leads : t.locate p = .ok q) :
    s.locate p = .ok q := by
  obtain ⟨good, short, walks⟩ := locate_eq_ok.mp leads
  exact locate_eq_ok.mpr ⟨good, short, keeps.cwd ▸ keeps.walk walks⟩

theorem find_eq_ok {entry : FileEntry} :
    t.find p = .ok (place, entry) ↔ t.locate p = .ok place ∧ t.get? place = some entry := by
  unfold find
  rw [bind_eq_ok]
  constructor
  · rintro ⟨there, leads, found⟩
    split at found
    · rename_i e at_there
      cases found
      exact ⟨leads, at_there⟩
    · cases found
  · rintro ⟨leads, at_place⟩
    refine ⟨place, leads, ?_⟩
    rw [at_place]
    rfl

/-- One more name leads from the place of a directory to a place in it. -/
theorem locate_name {name : Text} (found : t.locate p = .ok place) (proper : name ≠ FilePath.up)
    (leads : t.locate { p with names := p.names ++ [name] } = .ok q) : q = place ++ [name] := by
  obtain ⟨_, _, walks⟩ := locate_eq_ok.mp found
  obtain ⟨_, _, on⟩ := locate_eq_ok.mp leads
  obtain ⟨between, to_between, from_between⟩ := walk_append_eq_ok.mp on
  cases walks.symm.trans to_between
  obtain ⟨_, _, ends⟩ := walk_cons_eq_ok.mp from_between
  rw [if_neg proper] at ends
  exact (Except.ok.inj ends).symm

/-! ### Directories that stay -/

theorem KeepsDirectories.of_put (free : t.get? place ≠ some .directory) (entry : FileEntry) :
    KeepsDirectories t (t.put place entry) where
  cwd := rfl
  directories := by
    intro q directory
    have other : q ≠ place := by
      rintro rfl
      exact free directory
    rw [get?_put t (ne_nil_of_get? free), if_neg other, directory]

/-- A new file makes nothing a directory. -/
theorem KeepsDirectories.put_file (free : t.get? place ≠ some .directory) (content : Bytes) :
    KeepsDirectories (t.put place (.file content)) t where
  cwd := rfl
  directories := by
    intro q directory
    rw [get?_put t (ne_nil_of_get? free)] at directory
    split at directory
    · cases directory
    · exact directory

/-! ### Changes that are made -/

theorem makeDirectory_eq_ok : t.makeDirectory p = .ok s ↔
    ∃ place, t.locate p = .ok place ∧ t.get? place = none ∧ s = t.put place .directory := by
  unfold makeDirectory
  rw [bind_eq_ok]
  constructor
  · rintro ⟨place, leads, made⟩
    split at made
    · cases made
    · rename_i absent
      exact ⟨place, leads, absent, (Except.ok.inj made).symm⟩
  · rintro ⟨place, leads, absent, rfl⟩
    refine ⟨place, leads, ?_⟩
    rw [absent]
    rfl

theorem append_eq_ok {bytes : Bytes} : t.append p bytes = .ok s ↔
    ∃ place old, t.find p = .ok (place, .file old) ∧ s = t.put place (.file (old ++ bytes)) := by
  unfold append
  rw [bind_eq_ok]
  constructor
  · rintro ⟨⟨place, entry⟩, found, made⟩
    cases entry with
    | directory => cases made
    | file old => exact ⟨place, old, found, (Except.ok.inj made).symm⟩
  · rintro ⟨place, old, found, rfl⟩
    exact ⟨_, found, rfl⟩

theorem remove_eq_ok : t.remove p = .ok s ↔
    ∃ place content, t.find p = .ok (place, .file content) ∧ s = t.erase place := by
  unfold remove
  rw [bind_eq_ok]
  constructor
  · rintro ⟨⟨place, entry⟩, found, made⟩
    cases entry with
    | directory => cases made
    | file content => exact ⟨place, content, found, (Except.ok.inj made).symm⟩
  · rintro ⟨place, content, found, rfl⟩
    exact ⟨_, found, rfl⟩

theorem replace_eq_ok {target : FilePath} : t.replace p target = .ok s ↔
    ∃ source content place, t.find p = .ok (source, .file content) ∧ t.locate target = .ok place ∧
      t.get? place ≠ some .directory ∧ s = (t.erase source).put place (.file content) := by
  unfold replace
  constructor
  · intro made
    split at made
    · cases made
    · cases made
    · cases made
    · rename_i source content place found leads
      split at made
      · cases made
      · rename_i free
        exact ⟨source, content, place, found, leads, free, (Except.ok.inj made).symm⟩
  · rintro ⟨source, content, place, found, leads, free, rfl⟩
    rw [found, leads]
    dsimp only
    split
    · rename_i directory
      exact absurd directory free
    · rfl

/-! ### New names -/

theorem ofNat_injective : Function.Injective Text.ofNat := by
  intro m n same
  rw [← Nat.ofDigitChars_toDigits (b := 10) (n := m) (by decide) (by decide),
    ← Nat.ofDigitChars_toDigits (b := 10) (n := n) (by decide) (by decide)]
  exact congrArg (Nat.ofDigitChars 10 · 0) same

/-- The names that a new file may get. -/
def namesTried (t : FileTree) : List Text :=
  (List.range (t.entries.length + 1)).map fun n => "tmp".toList ++ Text.ofNat n

/-- There are more names to try than entries, so one of them is not in use. -/
theorem exists_unused (t : FileTree) (directory : List Text) :
    ∃ name ∈ t.namesTried, t.get? (directory ++ [name]) = none := by
  by_contra! used
  let places := t.namesTried.map fun name => directory ++ [name]
  have distinct : places.Nodup := by
    refine (List.nodup_range.map ?_).map ?_
    · intro m n same
      exact ofNat_injective (List.append_cancel_left same)
    · intro a b same
      exact List.singleton_inj.mp (List.append_cancel_left same)
  have kept : places ⊆ t.entries.map Prod.fst := by
    intro place mem
    obtain ⟨name, tried, rfl⟩ := List.mem_map.mp mem
    by_contra absent
    refine used name tried ?_
    unfold get?
    rw [if_neg (by simp), List.lookup_eq_none_iff]
    intro row row_mem
    have differs : directory ++ [name] ≠ row.1 := by
      rintro same
      exact absent (same ▸ List.mem_map_of_mem row_mem)
    simpa using differs
  have bound := distinct.length_le_of_subset kept
  simp only [places, namesTried, List.length_map, List.length_range] at bound
  omega

theorem freshName_spec (t : FileTree) (directory : List Text) :
    t.freshName directory ∈ t.namesTried ∧
      t.get? (directory ++ [t.freshName directory]) = none := by
  have fresh : t.freshName directory = (t.namesTried.find? fun name =>
      (t.get? (directory ++ [name])).isNone).getD "tmp".toList := rfl
  rw [fresh]
  cases found : t.namesTried.find? fun name => (t.get? (directory ++ [name])).isNone with
  | none =>
    obtain ⟨name, tried, unused⟩ := t.exists_unused directory
    exact absurd unused (by simpa using List.find?_eq_none.mp found name tried)
  | some name =>
    have unused := List.find?_some found
    exact ⟨List.mem_of_find?_eq_some found, by simpa using unused⟩

theorem freshName_ne_up (t : FileTree) (directory : List Text) :
    t.freshName directory ≠ FilePath.up := by
  obtain ⟨n, -, named⟩ := List.mem_map.mp (t.freshName_spec directory).1
  rw [← named]
  intro same
  cases same

theorem createTemporary_eq_ok {directory : FilePath} :
    t.createTemporary directory = .ok (p, s) ↔ ∃ place, t.find directory = .ok (place, .directory) ∧
      p = { directory with names := directory.names ++ [t.freshName place] } ∧
      (∃ q, t.locate p = .ok q) ∧ s = t.put (place ++ [t.freshName place]) (.file []) := by
  unfold createTemporary
  rw [bind_eq_ok]
  constructor
  · rintro ⟨⟨place, entry⟩, found, made⟩
    cases entry with
    | file content => cases made
    | directory =>
      obtain ⟨q, leads, done⟩ := bind_eq_ok.mp made
      cases done
      exact ⟨place, found, rfl, ⟨q, leads⟩, rfl⟩
  · rintro ⟨place, found, rfl, ⟨q, leads⟩, rfl⟩
    exact ⟨_, found, bind_eq_ok.mpr ⟨q, leads, rfl⟩⟩

/-! ### Runs -/

section runs

variable {α β : Type} (t : FileTree) (input : Text)

theorem run_ask (r : FileRequest) (next : r.Answer → FileProgram α) :
    t.run input (FileProgram.request r >>= next) =
      (answer input r t).2.run input (next (answer input r t).1) := rfl

theorem run_bind (first : FileProgram β) (k : β → FileProgram α) :
    t.run input (first >>= k) = (t.run input first).2.run input (k (t.run input first).1) :=
  FileProgram.run_bind_apply (answer input) first k t

end runs

end FileTree

end MarkdownOutlets
