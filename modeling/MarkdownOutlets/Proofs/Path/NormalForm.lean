import MarkdownOutlets.Path.Basic

/-! # Normal forms of paths

  A path that was read from a text has names only: no empty one, no `.`, and
  none with a slash in it. All operations keep this. The text of such a path
  means the path again (`ofText_toText`).

  A normal sequence of names begins with the steps that lead above the start
  of a relative path, and has no other ones. To normalise a path gives a
  normal sequence and changes none (`isNormal_normalNames`,
  `normalNames_of_isNormal`), so that to normalise twice is to normalise once.
-/

namespace MarkdownOutlets

namespace FilePath

/-! ### Names -/

/-- A text is fit to be a name in a path. -/
structure IsName (name : Text) : Prop where
  /-- It is not empty. -/
  nonempty : name ≠ []
  /-- It is not the name of the directory itself. -/
  not_here : name ≠ here
  /-- It has no slash. -/
  no_slash : '/' ∉ name

theorem isName_up : IsName up := ⟨by decide, by decide, by decide⟩

theorem isName_of_mem_namesOf {t name : Text} (mem : name ∈ namesOf t) : IsName name := by
  unfold namesOf at mem
  obtain ⟨piece, kept⟩ := List.mem_filter.mp mem
  simp only [decide_eq_true_eq] at kept
  exact ⟨kept.1, kept.2, Text.not_mem_of_mem_split piece⟩

theorem namesOf_nil : namesOf [] = [] := rfl

/-- A slash in front says nothing about the names. -/
@[simp] theorem namesOf_slash (t : Text) : namesOf ('/' :: t) = namesOf t := by
  simp [namesOf, Text.split]

/-- A name in front of a slash is the first name. -/
theorem namesOf_append {name : Text} (is_name : IsName name) (rest : Text) :
    namesOf (name ++ '/' :: rest) = name :: namesOf rest := by
  unfold namesOf
  rw [Text.split_append is_name.no_slash, List.filter_cons_of_pos]
  simpa using ⟨is_name.nonempty, is_name.not_here⟩

theorem namesOf_name {name : Text} (is_name : IsName name) : namesOf name = [name] := by
  unfold namesOf
  rw [Text.split_of_notMem is_name.no_slash, List.filter_cons_of_pos, List.filter_nil]
  simpa using ⟨is_name.nonempty, is_name.not_here⟩

/-- The names on both sides of a slash. -/
theorem namesOf_append_slash (a b : Text) : namesOf (a ++ '/' :: b) = namesOf a ++ namesOf b := by
  rw [namesOf, Text.split_append_cons, List.filter_append]
  rfl

@[simp] theorem joinNames_cons_cons (first second : Text) (rest : List Text) :
    joinNames (first :: second :: rest) = first ++ '/' :: joinNames (second :: rest) := rfl

theorem joinNames_singleton (name : Text) : joinNames [name] = name := by
  simp [joinNames, Text.join]

/-- Names with slashes between them are found again. -/
theorem namesOf_joinNames {names : List Text} (are_names : ∀ name ∈ names, IsName name) :
    namesOf (joinNames names) = names := by
  induction names with
  | nil => rfl
  | cons first rest ih =>
    have first_name := are_names first List.mem_cons_self
    have rest_names := ih fun name mem => are_names name (List.mem_cons_of_mem first mem)
    cases rest with
    | nil => rw [joinNames_singleton, namesOf_name first_name]
    | cons second rest => rw [joinNames_cons_cons, namesOf_append first_name, rest_names]

/-- Names with slashes between them do not begin with a slash. -/
theorem joinNames_eq_nil_or_cons {names : List Text} (are_names : ∀ name ∈ names, IsName name) :
    joinNames names = [] ∨ ∃ c rest, c ≠ '/' ∧ joinNames names = c :: rest := by
  cases names with
  | nil => exact .inl rfl
  | cons first rest =>
    right
    have first_name := are_names first List.mem_cons_self
    obtain ⟨c, tail, rfl⟩ := List.exists_cons_of_ne_nil first_name.nonempty
    have not_slash : c ≠ '/' := by
      intro slash
      exact first_name.no_slash (slash ▸ List.mem_cons_self)
    cases rest with
    | nil => exact ⟨c, tail, not_slash, joinNames_singleton _⟩
    | cons second rest => exact ⟨c, _, not_slash, rfl⟩

/-- The slashes of a root are found again in front of names. -/
theorem ofText_slashes {root : Root} {names : List Text}
    (are_names : ∀ name ∈ names, IsName name) :
    Root.ofText (root.slashes ++ joinNames names) = root := by
  rcases joinNames_eq_nil_or_cons are_names with empty | ⟨c, rest, not_slash, starts⟩
  · rw [empty]
    cases root <;> rfl
  · rw [starts]
    cases root <;> simp [Root.slashes, Root.ofText, not_slash]

theorem namesOf_slashes (root : Root) (t : Text) : namesOf (root.slashes ++ t) = namesOf t := by
  cases root <;> simp [Root.slashes]

/-! ### Proper paths -/

/-- Whatever stands between the slashes of the path is a name. -/
def IsProper (p : FilePath) : Prop := ∀ name ∈ p.names, IsName name

variable {p q : FilePath} {places : Places}

theorem isProper_ofText (t : Text) : (ofText t).IsProper := fun _ mem => isName_of_mem_namesOf mem

/-- The text of a proper path means the path. -/
theorem ofText_toText (proper : p.IsProper) : ofText p.toText = p := by
  obtain ⟨root, names⟩ := p
  have written : ofText (root.slashes ++ joinNames names) = ⟨root, names⟩ := by
    unfold ofText
    rw [ofText_slashes proper, namesOf_slashes, namesOf_joinNames proper]
  unfold toText
  split
  · -- The path without root and names is written as the directory itself.
    rename_i is_relative no_names
    cases is_relative
    cases no_names
    rfl
  · exact written

/-- Proper paths with the same text are the same. -/
theorem toText_inj (proper : p.IsProper) (proper_q : q.IsProper) :
    p.toText = q.toText ↔ p = q := by
  constructor
  · intro same
    rw [← ofText_toText proper, same, ofText_toText proper_q]
  · rintro rfl
    rfl

theorem IsProper.join (proper : p.IsProper) (proper_q : q.IsProper) : (p.join q).IsProper := by
  unfold FilePath.join
  split
  · exact proper_q
  · intro name mem
    rcases List.mem_append.mp mem with mem | mem
    · exact proper name mem
    · exact proper_q name mem

theorem IsProper.parent (proper : p.IsProper) : p.parent.IsProper :=
  fun name mem => proper name (List.dropLast_subset _ mem)

theorem IsProper.absolute (proper : p.IsProper) (cwd : places.cwd.IsProper) :
    (places.absolute p).IsProper :=
  cwd.join proper

/-- Every home directory that can be meant consists of names. -/
def Places.HasProperHomes (places : Places) : Prop :=
  ∀ user home, places.homeOf? user = some home → home.IsProper

/-- Where nobody is known but the user, one directory matters. -/
theorem Places.hasProperHomes_of_alone (alone : places.users = []) (home : places.home.IsProper) :
    places.HasProperHomes := by
  intro user other known
  unfold Places.homeOf? at known
  split at known
  · exact Option.some.inj known ▸ home
  · rw [alone] at known
    cases known

theorem IsProper.expand (proper : p.IsProper) (homes : places.HasProperHomes) :
    (places.expand p).IsProper := by
  unfold Places.expand
  split
  · rename_i user rest _ names
    split
    · rename_i home known
      intro name mem
      rcases List.mem_append.mp mem with mem | mem
      · exact homes user home known name mem
      · exact proper name (names ▸ List.mem_cons_of_mem _ mem)
    · exact proper
  · exact proper

/-! ### Absolute paths -/

@[simp] theorem isAbsolute_normal (p : FilePath) : p.normal.isAbsolute = p.isAbsolute := rfl

@[simp] theorem isAbsolute_parent (p : FilePath) : p.parent.isAbsolute = p.isAbsolute := rfl

theorem join_of_isAbsolute (absolute : q.isAbsolute = true) : p.join q = q := if_pos absolute

theorem isAbsolute_join (absolute : p.isAbsolute = true) (q : FilePath) :
    (p.join q).isAbsolute = true := by
  unfold FilePath.join
  split
  · assumption
  · exact absolute

theorem isAbsolute_absolute (cwd : places.cwd.isAbsolute = true) (p : FilePath) :
    (places.absolute p).isAbsolute = true :=
  isAbsolute_join cwd p

/-- Only a relative path is taken for one in a home directory. -/
theorem expand_of_isAbsolute (absolute : p.isAbsolute = true) : places.expand p = p := by
  unfold Places.expand
  split
  · rename_i is_relative _
    rw [isAbsolute, is_relative] at absolute
    cases absolute
  · rfl

/-- The text is that of an absolute path, in the way in which paths are written. -/
def IsSettled (t : Text) : Prop := (ofText t).isAbsolute = true ∧ (ofText t).toText = t

theorem isSettled_toText (absolute : p.isAbsolute = true) (proper : p.IsProper) :
    IsSettled p.toText := by
  unfold IsSettled
  rw [ofText_toText proper]
  exact ⟨absolute, rfl⟩

/-- The surroundings of a program: the working directory is an absolute path, and it
    and every home directory consist of names. -/
structure Places.IsSound (places : Places) : Prop where
  /-- The working directory is absolute. -/
  absolute : places.cwd.isAbsolute = true
  /-- It consists of names. -/
  cwd : places.cwd.IsProper
  /-- So does every home directory. -/
  homes : places.HasProperHomes

/-! ### Normal sequences of names -/

/-- The steps that lead above the start come first, and there are none of them
    behind a root. -/
def IsNormal (rooted : Bool) (names : List Text) : Prop :=
  ∃ above rest, names = List.replicate above up ++ rest ∧ up ∉ rest ∧ (rooted = true → above = 0)

variable {rooted : Bool} {names : List Text}

theorem isNormal_nil : IsNormal rooted [] := ⟨0, [], rfl, List.not_mem_nil, fun _ => rfl⟩

/-- One more name behind a normal sequence leaves it normal. -/
theorem IsNormal.follow (normal : IsNormal rooted names) (name : Text) :
    IsNormal rooted (follow rooted names name) := by
  obtain ⟨above, rest, rfl, no_up, at_root⟩ := normal
  unfold FilePath.follow
  by_cases is_up : name = up
  · rw [if_pos is_up]
    rcases List.eq_nil_or_concat rest with rfl | ⟨front, last, rfl⟩
    · -- There is no name to take back, only steps above the start.
      rw [List.append_nil, List.getLast?_replicate]
      by_cases start : above = 0
      · subst start
        cases rooted with
        | true => exact isNormal_nil
        | false => exact ⟨1, [], rfl, List.not_mem_nil, fun never => absurd never Bool.false_ne_true⟩
      · rw [if_neg start]
        simp only [if_true]
        refine ⟨above + 1, [], ?_, List.not_mem_nil, fun is_rooted => absurd (at_root is_rooted) start⟩
        rw [List.append_nil, List.replicate_succ']
    · rw [List.concat_eq_append] at no_up ⊢
      rw [List.mem_append, not_or, List.mem_singleton] at no_up
      rw [← List.append_assoc, List.getLast?_concat, List.dropLast_concat]
      simp only [if_neg (Ne.symm no_up.2)]
      exact ⟨above, front, rfl, no_up.1, at_root⟩
  · rw [if_neg is_up]
    refine ⟨above, rest ++ [name], by rw [List.append_assoc], ?_, at_root⟩
    rw [List.mem_append, List.mem_singleton]
    rintro (mem | same)
    · exact no_up mem
    · exact is_up same.symm

/-- Normalising gives a normal sequence. -/
theorem isNormal_normalNames (rooted : Bool) (names : List Text) :
    IsNormal rooted (normalNames rooted names) := by
  unfold normalNames
  -- What was followed so far is normal at every step.
  have from_normal (sofar : List Text) (normal : IsNormal rooted sofar) :
      IsNormal rooted (names.foldl (FilePath.follow rooted) sofar) := by
    induction names generalizing sofar with
    | nil => exact normal
    | cons name rest ih => exact ih _ (normal.follow name)
  exact from_normal [] isNormal_nil

/-- Names that are not the directory above follow one another. -/
theorem foldl_follow_of_notMem {rest : List Text} (no_up : up ∉ rest) (sofar : List Text) :
    rest.foldl (follow rooted) sofar = sofar ++ rest := by
  induction rest generalizing sofar with
  | nil => simp
  | cons name rest ih =>
    rw [List.mem_cons, not_or] at no_up
    rw [List.foldl_cons, ih no_up.2, follow, if_neg (Ne.symm no_up.1), List.append_assoc]
    rfl

/-- The steps above the start of a relative path stay. -/
theorem foldl_follow_replicate (above : Nat) :
    (List.replicate above up).foldl (follow false) [] = List.replicate above up := by
  induction above with
  | zero => rfl
  | succ above ih =>
    rw [List.replicate_succ', List.foldl_append, ih, List.foldl_cons, List.foldl_nil, follow,
      if_pos rfl, List.getLast?_replicate]
    by_cases start : above = 0
    · subst start
      rfl
    · rw [if_neg start]
      exact if_pos rfl

/-- A normal sequence stays as it is. -/
theorem normalNames_of_isNormal (normal : IsNormal rooted names) :
    normalNames rooted names = names := by
  obtain ⟨above, rest, rfl, no_up, at_root⟩ := normal
  unfold normalNames
  rw [List.foldl_append, foldl_follow_of_notMem no_up]
  cases rooted with
  | true =>
    rw [at_root rfl]
    rfl
  | false => rw [foldl_follow_replicate]

/-- Without steps to the directory above, a sequence is normal. -/
theorem isNormal_of_notMem (no_up : up ∉ names) : IsNormal rooted names :=
  ⟨0, names, rfl, no_up, fun _ => rfl⟩

/-- To follow names from a normalised sequence is to normalise both together. -/
theorem normalNames_normalNames_append (names more : List Text) :
    normalNames rooted (normalNames rooted names ++ more) = normalNames rooted (names ++ more) := by
  have normal : normalNames rooted (normalNames rooted names) = normalNames rooted names :=
    normalNames_of_isNormal (isNormal_normalNames rooted names)
  unfold normalNames at normal ⊢
  rw [List.foldl_append, normal, List.foldl_append]

/-- Behind a root, the step to the directory above takes the last name back, if there is
    one. -/
theorem follow_up_of_notMem {sofar : List Text} (no_up : up ∉ sofar) :
    follow true sofar up = sofar.dropLast := by
  unfold follow
  rw [if_pos rfl]
  cases last : sofar.getLast? with
  | none =>
    rw [List.getLast?_eq_none_iff.mp last]
    rfl
  | some name =>
    have ne : name ≠ up := fun same => no_up (same ▸ List.mem_of_getLast? last)
    simp only [if_neg ne]

/-- Behind a root no step leads above. -/
theorem up_notMem_normalNames (names : List Text) : up ∉ normalNames true names := by
  obtain ⟨above, rest, shape, no_up, at_root⟩ := isNormal_normalNames true names
  rw [at_root rfl] at shape
  rw [shape]
  exact no_up

/-! ### Normal paths -/

/-- To normalise a normal path changes nothing. -/
@[simp] theorem normal_normal (p : FilePath) : p.normal.normal = p.normal := by
  unfold normal
  congr 1
  exact normalNames_of_isNormal (isNormal_normalNames _ _)

theorem normal_of_notMem (no_up : up ∉ p.names) : p.normal = p := by
  unfold normal
  rw [normalNames_of_isNormal (isNormal_of_notMem no_up)]

/-- Every name of a normalised sequence was there before, or leads above. -/
theorem mem_of_mem_follow {sofar : List Text} {name other : Text}
    (mem : other ∈ follow rooted sofar name) : other ∈ sofar ∨ other = name ∨ other = up := by
  unfold follow at mem
  split at mem
  · split at mem
    · split at mem
      · cases mem
      · exact .inr (.inr (List.mem_singleton.mp mem))
    · split at mem
      · rcases List.mem_append.mp mem with mem | mem
        · exact .inl mem
        · exact .inr (.inr (List.mem_singleton.mp mem))
      · exact .inl (List.dropLast_subset _ mem)
  · rcases List.mem_append.mp mem with mem | mem
    · exact .inl mem
    · exact .inr (.inl (List.mem_singleton.mp mem))

theorem IsProper.normal (proper : p.IsProper) : p.normal.IsProper := by
  -- The names followed so far are names.
  have each (names sofar : List Text) (are_names : ∀ name ∈ names, IsName name)
      (so_far : ∀ name ∈ sofar, IsName name) :
      ∀ name ∈ names.foldl (follow p.isAbsolute) sofar, IsName name := by
    induction names generalizing sofar with
    | nil => exact so_far
    | cons first rest ih =>
      refine ih _ (fun name mem => are_names name (List.mem_cons_of_mem first mem)) fun name mem => ?_
      rcases mem_of_mem_follow mem with mem | rfl | rfl
      · exact so_far name mem
      · exact are_names name List.mem_cons_self
      · exact isName_up
  exact each p.names [] proper (fun _ mem => absurd mem List.not_mem_nil)

end FilePath

end MarkdownOutlets
