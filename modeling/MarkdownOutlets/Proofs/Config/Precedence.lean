import MarkdownOutlets.Proofs.Config.Requests

/-! # What counts in a plan

  A plan is made from layers: the standard options, those of a configuration,
  and those of the arguments. The layers are put on top of each other key by
  key, before anything is known about spellings. An option has two spellings,
  and the arguments may use either, while the layers below use one; so a key of
  the arguments may replace a value below, or stand behind it.

  The main statement, `plan_precedence`, says that this makes no difference. For
  every option the value among the arguments counts, unless it is null, and
  otherwise that of the configuration, and otherwise the standard one. A value
  that does not count is not even read.
-/

namespace MarkdownOutlets

namespace Config

/-! ### What a mapping gives to an option -/

/-- The value that a mapping gives to the option of a name, under any of its
    spellings. Of repeated options the last one counts. -/
def valueOf (name : Text) : Entries → Option Value
  | [] => none
  | (key, v) :: rest =>
    (valueOf name rest).or (if Options.canonicalName? key = some name then some v else none)

/-- All keys spell options. -/
def SpellOptions (entries : Entries) : Prop :=
  ∀ key ∈ entries.keys, (Options.canonicalName? key).isSome

/-- No option is given twice, under whatever spelling. -/
def GivenOnce (entries : Entries) : Prop :=
  (entries.keys.map Options.canonicalName?).Nodup

section values

variable {entries : Entries} {name : Text}

theorem valueOf_eq_none (absent : ∀ key ∈ entries.keys, Options.canonicalName? key ≠ some name) :
    valueOf name entries = none := by
  induction entries with
  | nil => rfl
  | cons entry rest ih =>
    obtain ⟨key, v⟩ := entry
    have not_first := absent key (by simp [Entries.keys])
    have none_below := ih fun key mem => absent key (List.mem_cons_of_mem _ mem)
    rw [valueOf, none_below, if_neg not_first]
    rfl

/-- A key that spells an option is a text. -/
theorem text_of_isSome {key : Scalar} (spells : (Options.canonicalName? key).isSome) :
    ∃ t, key = .text t := by
  cases key with
  | text t => exact ⟨t, rfl⟩
  | _ => cases spells

/-- Options are found under their names. -/
theorem canonical_go_valueOf (spell : SpellOptions entries) (given : Entries) :
    ∃ result, Options.canonical.go entries given = .ok result ∧
      ∀ name, result.get? (.text name) = (valueOf name entries).or (given.get? (.text name)) := by
  induction entries generalizing given with
  | nil => exact ⟨given, rfl, fun _ => rfl⟩
  | cons entry rest ih =>
    obtain ⟨key, v⟩ := entry
    obtain ⟨own, own_eq⟩ := Option.isSome_iff_exists.mp (spell key (by simp [Entries.keys]))
    obtain ⟨result, read, found⟩ :=
      ih (fun key mem => spell key (List.mem_cons_of_mem _ mem)) (given.put (.text own) v)
    refine ⟨result, ?_, ?_⟩
    · simp only [Options.canonical.go, own_eq]
      exact read
    · intro name
      rw [found, Entries.get?_put_text, valueOf, own_eq, Option.or_assoc]
      by_cases same : name = own
      · subst same
        rw [if_pos rfl, if_pos rfl]
        rfl
      · have not_same : ¬ some own = some name := fun eq => same (Option.some.inj eq).symm
        have not_same_key : ¬ Scalar.text name = .text own := fun eq => same (Scalar.text.inj eq)
        rw [if_neg not_same, if_neg not_same_key]
        rfl

/-- A value that is put under a spelling counts for the option, if the spelling
    is a new one, or the only one that is there. -/
theorem valueOf_put (distinct : entries.keys.Nodup) {t own : Text}
    (spells : Options.canonicalName? (.text t) = some own)
    (alone : .text t ∈ entries.keys → ∀ key ∈ entries.keys,
      Options.canonicalName? key = some own → key = .text t) (v : Value) (name : Text) :
    valueOf name (entries.put (.text t) v) = if name = own then some v else valueOf name entries := by
  induction entries with
  | nil =>
    simp only [Entries.put, valueOf, spells, Option.none_or, Option.some.injEq]
    exact if_congr eq_comm rfl rfl
  | cons entry rest ih =>
    obtain ⟨key, w⟩ := entry
    rw [Entries.keys, List.map_cons, List.nodup_cons] at distinct
    rw [Entries.put, Scalar.sameKey_text]
    by_cases at_key : key = .text t
    · -- The value takes the place of the old one, and no other entry gives the option.
      subst at_key
      rw [if_pos (decide_eq_true rfl), valueOf, valueOf, spells]
      by_cases same : name = own
      · subst same
        have none_below : valueOf name rest = none := by
          apply valueOf_eq_none
          intro other mem is_own
          have is_key := alone (by simp [Entries.keys]) other (List.mem_cons_of_mem _ mem) is_own
          exact distinct.1 (is_key ▸ mem)
        rw [none_below, if_pos rfl, if_pos rfl]
        rfl
      · have not_same : ¬ some own = some name := fun eq => same (Option.some.inj eq).symm
        rw [if_neg same, if_neg not_same, if_neg not_same]
    · have below := ih distinct.2 fun mem other other_mem is_own =>
        alone (List.mem_cons_of_mem _ mem) other (List.mem_cons_of_mem _ other_mem) is_own
      rw [if_neg (by simpa using at_key), valueOf, valueOf, below]
      by_cases same : name = own
      · rw [if_pos same, if_pos same]
        rfl
      · rw [if_neg same, if_neg same]

/-- Of entries that pass a test, those count that counted before. -/
theorem valueOf_filter (once : GivenOnce entries) (passes : Value → Bool) :
    valueOf name (entries.filter fun entry => passes entry.2) =
      (valueOf name entries).filter passes := by
  induction entries with
  | nil => rfl
  | cons entry rest ih =>
    obtain ⟨key, v⟩ := entry
    unfold GivenOnce at once ih
    rw [Entries.keys, List.map_cons, List.map_cons, List.nodup_cons] at once
    have below := ih once.2
    rw [List.filter_cons, valueOf]
    by_cases is_own : Options.canonicalName? key = some name
    · have none_below : valueOf name rest = none := by
        apply valueOf_eq_none
        intro other mem other_own
        exact once.1 (List.mem_map.mpr ⟨other, mem, other_own.trans is_own.symm⟩)
      rw [none_below] at below
      rw [none_below, if_pos is_own]
      by_cases pass : passes v = true
      · simp [valueOf, pass, below, is_own, Option.filter]
      · simp [pass, below, Option.filter]
    · rw [if_neg is_own, Option.or_none]
      by_cases pass : passes v = true
      · simp [valueOf, pass, below, is_own]
      · simp [pass, below]

end values

/-! ### Layers on top of each other -/

section layers

variable {entries top : Entries}

/-- Of two layers the one on top counts first, if it gives no option twice and
    each of its keys that is below is there the only spelling of its option. -/
theorem valueOf_overlay (distinct : entries.keys.Nodup) (spell : SpellOptions top)
    (once : GivenOnce top)
    (alone : ∀ key ∈ top.keys, key ∈ entries.keys → ∀ other ∈ entries.keys,
      Options.canonicalName? other = Options.canonicalName? key → other = key) (name : Text) :
    valueOf name (Plan.overlay entries top) = (valueOf name top).or (valueOf name entries) := by
  induction top generalizing entries with
  | nil => rfl
  | cons entry rest ih =>
    obtain ⟨key, v⟩ := entry
    obtain ⟨own, spells⟩ := Option.isSome_iff_exists.mp (spell key (by simp [Entries.keys]))
    obtain ⟨t, rfl⟩ := text_of_isSome (spell key (by simp [Entries.keys]))
    unfold GivenOnce at once
    rw [Entries.keys, List.map_cons, List.map_cons, List.nodup_cons] at once
    have put_eq := valueOf_put distinct spells (fun mem other other_mem is_own =>
      alone _ (by simp [Entries.keys]) mem other other_mem (is_own.trans spells.symm)) v
    -- The keys that follow spell other options, so for them nothing has changed.
    have alone_after : ∀ key ∈ Entries.keys rest, key ∈ (entries.put (.text t) v).keys →
        ∀ other ∈ (entries.put (.text t) v).keys,
          Options.canonicalName? other = Options.canonicalName? key → other = key := by
      intro key key_mem mem other other_mem same_option
      have other_option : Options.canonicalName? (.text t) ≠ Options.canonicalName? key := by
        intro same
        exact once.1 (same ▸ List.mem_map_of_mem key_mem)
      rcases Entries.mem_keys_put mem with mem | rfl
      · rcases Entries.mem_keys_put other_mem with other_mem | rfl
        · exact alone key (List.mem_cons_of_mem _ key_mem) mem other other_mem same_option
        · exact absurd same_option other_option
      · exact absurd rfl other_option
    have below := ih (Entries.nodup_keys_put distinct t v)
      (fun key mem => spell key (List.mem_cons_of_mem _ mem)) once.2 alone_after
    have overlay_eq : Plan.overlay entries ((.text t, v) :: rest) =
        Plan.overlay (entries.put (.text t) v) rest := rfl
    rw [overlay_eq, below, put_eq, valueOf, spells, Option.or_assoc]
    by_cases same : name = own
    · subst same
      rw [if_pos rfl, if_pos rfl]
      rfl
    · have not_same : ¬ some own = some name := fun eq => same (Option.some.inj eq).symm
      rw [if_neg same, if_neg not_same]
      rfl

/-- Keys that are spelled as in configurations are the only spellings of their
    options among themselves. -/
theorem eq_of_spelled {key other : Scalar} (key_spelled : ∃ n ∈ spelled, key = .text n.2.toList)
    (other_spelled : ∃ n ∈ spelled, other = .text n.2.toList)
    (same : Options.canonicalName? other = Options.canonicalName? key) : other = key := by
  obtain ⟨n, n_mem, rfl⟩ := key_spelled
  obtain ⟨m, m_mem, rfl⟩ := other_spelled
  rw [canonicalName?_spelled n n_mem, canonicalName?_spelled m m_mem] at same
  exact congrArg Scalar.text ((spelled_injective m m_mem n n_mem).mp (Option.some.inj same))

theorem spellOptions_of_spelled (names : ∀ key ∈ entries.keys, ∃ n ∈ spelled, key = .text n.2.toList) :
    SpellOptions entries := by
  intro key mem
  obtain ⟨n, n_mem, rfl⟩ := names key mem
  rw [canonicalName?_spelled n n_mem]
  rfl

theorem givenOnce_of_spelled (names : ∀ key ∈ entries.keys, ∃ n ∈ spelled, key = .text n.2.toList)
    (distinct : entries.keys.Nodup) : GivenOnce entries := by
  apply List.Nodup.map_on _ distinct
  intro key mem other other_mem same
  exact eq_of_spelled (names other other_mem) (names key mem) same

end layers

/-- The value that counts for an option: that among the arguments unless it is
    null, else that of the configuration, else the standard one. -/
def selected (config : Option Configuration) (a : Arguments) (name : String) : Option Value :=
  ((valueOf name.toList a.options).filter fun v => !v.isNull).or
    ((valueOf name.toList ((config.map (·.options)).getD [])).or (valueOf name.toList defaults))

section options

variable {config : Option Configuration}

/-- The options of a configuration on top of the standard ones. -/
def lower (config : Option Configuration) : Entries :=
  Plan.overlay defaults ((config.map (·.options)).getD [])

section lower

variable (own : OwnOptions ((config.map (·.options)).getD []))
include own

/-- The layers below the arguments use one of the spellings only. -/
theorem spelled_lower : ∀ key ∈ (lower config).keys, ∃ n ∈ spelled, key = .text n.2.toList := by
  intro key mem
  rcases Plan.mem_keys_overlay (texts_of_spelled own.keys) mem with mem | mem
  · have names : ∀ key ∈ defaults.keys, ∃ n ∈ spelled, key = .text n.2.toList := by decide
    exact names key mem
  · exact own.keys key mem

theorem nodup_keys_lower : (lower config).keys.Nodup :=
  Plan.nodup_keys_overlay (texts_of_spelled own.keys) (by decide)

theorem valueOf_lower (name : Text) :
    valueOf name (lower config) =
      (valueOf name ((config.map (·.options)).getD [])).or (valueOf name defaults) := by
  have names : ∀ key ∈ defaults.keys, ∃ n ∈ spelled, key = .text n.2.toList := by decide
  apply valueOf_overlay (show defaults.keys.Nodup by decide) (spellOptions_of_spelled own.keys)
    (givenOnce_of_spelled own.keys own.distinct)
  intro key mem _ other other_mem
  exact eq_of_spelled (own.keys key mem) (names other other_mem)

end lower

variable {a : Arguments} (own : OwnOptions ((config.map (·.options)).getD []))
  (spell : SpellOptions a.options) (once : GivenOnce a.options)

include own spell once

/-- To check the options of all layers is to check a record in which each option
    has the value that counts for it. -/
theorem check_optionEntries : ∃ given,
    Options.check (.dict (Plan.optionEntries config a)) = Options.ofRecord given ∧
      ∀ name, given.field? name = selected config a name := by
  -- What is left of the arguments when null is taken out lies on top.
  let given : Entries := a.options.filter fun entry => !entry.2.isNull
  have entries_eq : Plan.optionEntries config a = Plan.overlay (lower config) given := rfl
  have sub : given.keys.Sublist a.options.keys := List.filter_sublist.map Prod.fst
  have given_spell : SpellOptions given := fun key mem => spell key (sub.subset mem)
  have given_once : GivenOnce given := List.Nodup.sublist (sub.map _) once
  have given_eq (name : Text) :
      valueOf name given = (valueOf name a.options).filter (!·.isNull) :=
    valueOf_filter once fun v => !v.isNull
  have all_eq (name : Text) := valueOf_overlay (nodup_keys_lower own) given_spell given_once
    (fun key _ mem other other_mem =>
      eq_of_spelled (spelled_lower own key mem) (spelled_lower own other other_mem)) name
  have all_spell : SpellOptions (Plan.optionEntries config a) := by
    intro key mem
    have given_texts : ∀ key ∈ given.keys, ∃ t, key = .text t :=
      fun key mem => text_of_isSome (given_spell key mem)
    rcases Plan.mem_keys_overlay given_texts mem with mem | mem
    · exact spellOptions_of_spelled (spelled_lower own) key mem
    · exact given_spell key mem
  obtain ⟨result, read, found⟩ := canonical_go_valueOf all_spell []
  refine ⟨result, check_canonical read, fun name => ?_⟩
  rw [Entries.field?, found, Entries.get?, Option.or_none, entries_eq, all_eq, given_eq,
    valueOf_lower own]
  rfl

end options

/-! ### Reading what counts -/

/-- The option that a value gives, or the standard one without a value. -/
def reading {α : Type} (read : Value → Option α) (standard : α) : Option Value → Option α
  | some v => read v
  | none => some standard

/-- The options are those that the values give. -/
structure Takes (value : String → Option Value) (o : Options) : Prop where
  /-- The base path. -/
  basePath : reading Options.basePath? none (value "base_path") = some o.basePath
  /-- What paths are relative to. -/
  resolveFrom : reading (Options.choice? ResolveFrom.words) .cwd (value "resolve_from") =
    some o.resolveFrom
  /-- The depth limit. -/
  maxDepth : reading Options.natural? 10 (value "max_depth") = some o.maxDepth
  /-- What happens to an outlet without a slot value. -/
  onMissingSlot : reading (Options.choice? OnMissingSlot.words) .keep (value "on_missing_slot") =
    some o.onMissingSlot
  /-- What happens when a source cannot be read. -/
  onFileError : reading (Options.choice? OnFileError.words) .warnEmpty (value "on_file_error") =
    some o.onFileError
  /-- Where texts of sources are kept. -/
  cache : reading Options.cache? none (value "cache") = some o.cache
  /-- Whether slots are resolved side by side. -/
  parallel : reading Options.bool? false (value "parallel") = some o.parallel

/-- One of the values gives no option, for the reason. -/
inductive Refuses (value : String → Option Value) : Invalid → Prop
  /-- The base path. -/
  | basePath (unread : reading Options.basePath? none (value "base_path") = none) :
      Refuses value .basePath
  /-- What paths are relative to. -/
  | resolveFrom (unread : reading (Options.choice? ResolveFrom.words) .cwd (value "resolve_from") = none) :
      Refuses value .resolveFrom
  /-- The depth limit. -/
  | maxDepth (unread : reading Options.natural? 10 (value "max_depth") = none) :
      Refuses value .maxDepth
  /-- What happens to an outlet without a slot value. -/
  | onMissingSlot
      (unread : reading (Options.choice? OnMissingSlot.words) .keep (value "on_missing_slot") = none) :
      Refuses value .onMissingSlot
  /-- What happens when a source cannot be read. -/
  | onFileError
      (unread : reading (Options.choice? OnFileError.words) .warnEmpty (value "on_file_error") = none) :
      Refuses value .onFileError
  /-- Where texts of sources are kept. -/
  | cache (unread : reading Options.cache? none (value "cache") = none) : Refuses value .cache
  /-- Whether slots are resolved side by side. -/
  | parallel (unread : reading Options.bool? false (value "parallel") = none) :
      Refuses value .parallel

section reading

variable {given : Entries}

theorem field_eq {α : Type} (name : String) (standard : α) (reason : Invalid)
    (read : Value → Option α) : Options.field given name standard reason read =
      Options.orElse reason (reading read standard (given.field? name)) := by
  unfold Options.field
  cases given.field? name <;> rfl

theorem orElse_eq_ok {α : Type} {reason : Invalid} {x : Option α} {a : α} :
    Options.orElse reason x = .ok a ↔ x = some a := by
  constructor
  · intro h
    cases x with
    | none => cases h
    | some b => exact congrArg some (Except.ok.inj h)
  · rintro rfl
    rfl

theorem orElse_eq_error {α : Type} {reason other : Invalid} {x : Option α}
    (h : Options.orElse reason x = .error other) : other = reason ∧ x = none := by
  cases x with
  | none => exact ⟨(Except.error.inj h).symm, rfl⟩
  | some a => cases h

/-- A record is read as the options that its values give. -/
theorem ofRecord_iff {o : Options} : Options.ofRecord given = .ok o ↔ Takes given.field? o := by
  unfold Options.ofRecord
  simp only [field_eq]
  constructor
  · intro h
    obtain ⟨maxDepth, maxDepth_eq, h⟩ := ok_of_bind h
    obtain ⟨onMissingSlot, onMissingSlot_eq, h⟩ := ok_of_bind h
    obtain ⟨onFileError, onFileError_eq, h⟩ := ok_of_bind h
    obtain ⟨resolveFrom, resolveFrom_eq, h⟩ := ok_of_bind h
    obtain ⟨parallel, parallel_eq, h⟩ := ok_of_bind h
    obtain ⟨cache, cache_eq, h⟩ := ok_of_bind h
    obtain ⟨basePath, basePath_eq, h⟩ := ok_of_bind h
    obtain rfl := Except.ok.inj h
    exact ⟨orElse_eq_ok.mp basePath_eq, orElse_eq_ok.mp resolveFrom_eq, orElse_eq_ok.mp maxDepth_eq,
      orElse_eq_ok.mp onMissingSlot_eq, orElse_eq_ok.mp onFileError_eq, orElse_eq_ok.mp cache_eq,
      orElse_eq_ok.mp parallel_eq⟩
  · intro takes
    simp only [takes.basePath, takes.resolveFrom, takes.maxDepth, takes.onMissingSlot,
      takes.onFileError, takes.cache, takes.parallel]
    rfl

/-- A record is refused for one of its values. -/
theorem refuses_of_ofRecord {reason : Invalid} (h : Options.ofRecord given = .error reason) :
    Refuses given.field? reason := by
  unfold Options.ofRecord at h
  simp only [field_eq] at h
  -- The fields are read in this order, up to the first one that is refused.
  rcases error_of_bind h with h | ⟨maxDepth, -, h⟩
  · obtain ⟨rfl, unread⟩ := orElse_eq_error h
    exact .maxDepth unread
  rcases error_of_bind h with h | ⟨onMissingSlot, -, h⟩
  · obtain ⟨rfl, unread⟩ := orElse_eq_error h
    exact .onMissingSlot unread
  rcases error_of_bind h with h | ⟨onFileError, -, h⟩
  · obtain ⟨rfl, unread⟩ := orElse_eq_error h
    exact .onFileError unread
  rcases error_of_bind h with h | ⟨resolveFrom, -, h⟩
  · obtain ⟨rfl, unread⟩ := orElse_eq_error h
    exact .resolveFrom unread
  rcases error_of_bind h with h | ⟨parallel, -, h⟩
  · obtain ⟨rfl, unread⟩ := orElse_eq_error h
    exact .parallel unread
  rcases error_of_bind h with h | ⟨cache, -, h⟩
  · obtain ⟨rfl, unread⟩ := orElse_eq_error h
    exact .cache unread
  rcases error_of_bind h with h | ⟨basePath, -, h⟩
  · obtain ⟨rfl, unread⟩ := orElse_eq_error h
    exact .basePath unread
  cases h

end reading

/-- Values of which one is refused give no options. -/
theorem Refuses.not_takes {value : String → Option Value} {reason : Invalid} {o : Options}
    (refuses : Refuses value reason) (takes : Takes value o) : False := by
  cases refuses with
  | basePath unread => cases unread.symm.trans takes.basePath
  | resolveFrom unread => cases unread.symm.trans takes.resolveFrom
  | maxDepth unread => cases unread.symm.trans takes.maxDepth
  | onMissingSlot unread => cases unread.symm.trans takes.onMissingSlot
  | onFileError unread => cases unread.symm.trans takes.onFileError
  | cache unread => cases unread.symm.trans takes.cache
  | parallel unread => cases unread.symm.trans takes.parallel

/-! ### Slots and template -/

section slots

variable {slots top : Slots}

theorem lookup_put (slots : Slots) (t : Text) (value : Slot) (key : Scalar) :
    (slots.put (.text t) value).lookup key = if key = .text t then some value else slots.lookup key := by
  induction slots with
  | nil => rw [Slots.put, lookup_cons_eq]
  | cons entry rest ih =>
    obtain ⟨k, first⟩ := entry
    rw [Slots.put, Scalar.sameKey_text]
    by_cases at_key : k = .text t
    · subst at_key
      rw [if_pos (decide_eq_true rfl), lookup_cons_eq, lookup_cons_eq]
      by_cases same : key = .text t
      · rw [if_pos same, if_pos same]
      · rw [if_neg same, if_neg same, if_neg same]
    · rw [if_neg (by simpa using at_key), lookup_cons_eq, lookup_cons_eq, ih]
      by_cases same : key = .text t
      · rw [if_pos same, if_pos same, if_neg (same ▸ Ne.symm at_key)]
      · rw [if_neg same, if_neg same]

/-- Of slots on top of others, those on top count. -/
theorem lookup_overlay (texts : ∀ key ∈ top.map Prod.fst, ∃ t, key = .text t)
    (distinct : (top.map Prod.fst).Nodup) (key : Scalar) :
    (slots.overlay top).lookup key = (top.lookup key).or (slots.lookup key) := by
  induction top generalizing slots with
  | nil => rfl
  | cons entry rest ih =>
    obtain ⟨first, value⟩ := entry
    obtain ⟨t, rfl⟩ := texts first (by simp)
    rw [List.map_cons, List.nodup_cons] at distinct
    have below : ((slots.put (.text t) value).overlay rest).lookup key =
        (List.lookup key rest).or ((slots.put (.text t) value).lookup key) :=
      ih (fun key mem => texts key (List.mem_cons_of_mem _ mem)) distinct.2
    have overlay_eq : slots.overlay ((.text t, value) :: rest) =
        Slots.overlay (slots.put (.text t) value) rest := rfl
    rw [overlay_eq, below, lookup_put, lookup_cons_eq]
    by_cases same : key = .text t
    · -- No other slot on top has the name, so this one stays.
      subst same
      have once : List.lookup (.text t) rest = none := by
        rw [List.lookup_eq_none_iff]
        intro entry mem
        rw [bne_iff_ne]
        intro same
        exact distinct.1 (List.mem_map.mpr ⟨entry, mem, same.symm⟩)
      rw [once, if_pos rfl, if_pos rfl]
      rfl
    · rw [if_neg same, if_neg same]

/-- The slots of the arguments by name. -/
theorem lookup_toSlots (places : FilePath.Places) (base : FilePath) (arguments : SlotArguments)
    (name : Text) : (arguments.toSlots places base).lookup (.text name) =
      (arguments.get? name).map (SlotArguments.slotOf places base) := by
  induction arguments with
  | nil => rfl
  | cons row rest ih =>
    obtain ⟨first, value⟩ := row
    have toSlots_eq : SlotArguments.toSlots places base ((first, value) :: rest) =
        (.text first, SlotArguments.slotOf places base value) ::
          SlotArguments.toSlots places base rest := rfl
    rw [toSlots_eq, lookup_cons_eq, ih, TextTable.get?, TextTable.get?, lookup_cons_eq]
    by_cases same : name = first
    · rw [if_pos same, if_pos (congrArg Scalar.text same)]
      rfl
    · rw [if_neg same, if_neg fun eq => same (Scalar.text.inj eq)]

theorem keys_toSlots (places : FilePath.Places) (base : FilePath) (arguments : SlotArguments) :
    (arguments.toSlots places base).map Prod.fst = (arguments.map Prod.fst).map Scalar.text := by
  unfold SlotArguments.toSlots
  rw [List.map_map, List.map_map]
  rfl

end slots

/-- The path of the template that counts: that among the arguments unless it is
    empty, else that of the configuration. -/
def templateIn (places : FilePath.Places) (config : Option Configuration) (a : Arguments) :
    Option Text :=
  ((a.template.filter (· ≠ [])).map (places.within a.cwd)).or (config.bind (·.template))

theorem templateOf_eq (places : FilePath.Places) (config : Option Configuration) (a : Arguments) :
    Plan.templateOf places config a = Options.orElse .templateRequired (templateIn places config a) := by
  unfold Plan.templateOf templateIn
  cases a.template with
  | none => cases config.bind (·.template) <;> rfl
  | some path =>
    cases path with
    | nil => cases config.bind (·.template) <;> rfl
    | cons c rest => rfl

/-- The arguments name a template, or the file of a slot, by a path. -/
def Arguments.Names (a : Arguments) (path : Text) : Prop :=
  a.template = some path ∨ ∃ name, (name, '@' :: path) ∈ a.slots

/-- The home directories are there that paths among the arguments start with. -/
def Arguments.HomesKnown (a : Arguments) (places : FilePath.Places) : Prop :=
  ∀ path, a.Names path → homeFault? places path = none

section plans

variable {places : FilePath.Places} {config : Option Configuration} {a : Arguments}

/-- Without a template nothing is asked about home directories. -/
theorem homeFault?_of_no_template (missing : templateIn places config a = none) :
    Plan.homeFault? places config a = none := by
  unfold Plan.homeFault?
  rw [templateOf_eq, missing]
  rfl

/-- With a template all of them have to be there. -/
theorem homeFault?_eq_none (has_template : (templateIn places config a).isSome) :
    Plan.homeFault? places config a = none ↔ a.HomesKnown places := by
  obtain ⟨template, template_eq⟩ := Option.isSome_iff_exists.mp has_template
  unfold Plan.homeFault?
  rw [templateOf_eq, template_eq]
  simp only [Options.orElse, Option.or_eq_none_iff, List.findSome?_eq_none_iff]
  constructor
  · rintro ⟨in_template, in_slots⟩ path (is_template | ⟨name, mem⟩)
    · rw [is_template] at in_template
      exact in_template
    · exact in_slots _ mem
  · intro known
    refine ⟨?_, ?_⟩
    · cases is_template : a.template with
      | none => rfl
      | some path => exact known path (.inl is_template)
    · rintro ⟨name, value⟩ mem
      simp only
      split
      · exact known _ (.inr ⟨name, mem⟩)
      · rfl

/-- In a plan, the slots of the arguments count before those of the configuration. -/
theorem lookup_slotsOf (slots_once : (a.slots.map Prod.fst).Nodup) (key : Scalar) :
    (Plan.slotsOf places config a).lookup key =
      ((a.slots.toSlots places ((config.map (·.path.parent)).getD a.cwd)).lookup key).or
        (((config.map (·.slots)).getD []).lookup key) := by
  have base_eq : Plan.slotBase config a = (config.map (·.path.parent)).getD a.cwd := by
    cases config <;> rfl
  unfold Plan.slotsOf
  rw [base_eq]
  apply lookup_overlay
  · intro key mem
    rw [keys_toSlots] at mem
    obtain ⟨name, -, rfl⟩ := List.mem_map.mp mem
    exact ⟨name, rfl⟩
  · rw [keys_toSlots]
    exact slots_once.map fun _ _ same => Scalar.text.inj same

variable {given : Entries}
  (check_eq : Options.check (.dict (Plan.optionEntries config a)) = Options.ofRecord given)
include check_eq

theorem make_eq : Plan.make places config a = (do
    let template ← Options.orElse .templateRequired (templateIn places config a)
    let options ← Options.ofRecord given
    return { template, slots := Plan.slotsOf places config a, options }) := by
  unfold Plan.make
  rw [templateOf_eq, check_eq]

/-- What a plan is made of. -/
theorem parts_of_make {plan : Plan} (made : Plan.make places config a = .ok plan) :
    templateIn places config a = some plan.template ∧
      plan.slots = Plan.slotsOf places config a ∧ Takes given.field? plan.options := by
  rw [make_eq check_eq] at made
  obtain ⟨template, template_eq, made⟩ := ok_of_bind made
  obtain ⟨o, options_eq, made⟩ := ok_of_bind made
  obtain rfl := Except.ok.inj made
  exact ⟨orElse_eq_ok.mp template_eq, rfl, ofRecord_iff.mp options_eq⟩

end plans

/-! ### Plans -/

/-- What counts in the plans for a configuration, if there is one, and
    arguments. -/
structure Precedence (places : FilePath.Places) (config : Option Configuration) (a : Arguments) :
    Prop where
  /-- There is a plan with the options if these are what the values that count
      give, and the template is there, and so are the home directories that paths
      among the arguments start with. -/
  made : ∀ o, (∃ plan, Plan.request places config a = .ok plan ∧ plan.options = o) ↔
    Takes (selected config a) o ∧ (templateIn places config a).isSome ∧ a.HomesKnown places
  /-- The template of a plan is the one that counts. -/
  template : ∀ plan, Plan.request places config a = .ok plan →
    templateIn places config a = some plan.template
  /-- A slot has its value among the arguments, with files in the directory of
      the configuration or else the working directory, and otherwise its value
      in the configuration. -/
  slot : ∀ plan, Plan.request places config a = .ok plan → ∀ name,
    plan.slots.lookup (.text name) =
      ((a.slots.get? name).map
        (SlotArguments.slotOf places ((config.map (·.path.parent)).getD a.cwd))).or
      (((config.map (·.slots)).getD []).lookup (.text name))
  /-- There are no other slots. -/
  names : ∀ plan, Plan.request places config a = .ok plan → ∀ key value,
    plan.slots.lookup key = some value →
      ((config.map (·.slots)).getD []).lookup key = some value ∨
        ∃ name ∈ a.slots.map Prod.fst, key = .text name
  /-- A value that counts and gives no option is refused, and so is a request
      without a template. -/
  refused : (∃ reason, Refuses (selected config a) reason) ∧ a.HomesKnown places ∨
      templateIn places config a = none →
    ∃ reason, Plan.request places config a = .error (.invalid reason) ∧
      reason.failure.cls = .validation
  /-- Nothing else is refused, so that a value that does not count is not. -/
  reasons : ∀ reason, Plan.request places config a = .error (.invalid reason) →
    Refuses (selected config a) reason ∨
      reason = .templateRequired ∧ templateIn places config a = none
  /-- A home directory that is not there ends the request before the options are
      looked at, and nothing else ends it so. -/
  homeless : (∃ fault, Plan.request places config a = .error (.home fault)) ↔
    (templateIn places config a).isSome ∧ ¬ a.HomesKnown places

/-- The configuration in a file with a depth limit of four and nothing else. -/
def limitFour : Configuration where
  template := none
  slots := []
  options := [(.text "maxDepth".toList, .int 4)]
  path := configPath workPlaces "/c/c.yaml".toList

theorem limitFour_ofFile : OfFile workPlaces "/c/c.yaml".toList limitFour := by
  have accepted : schemaFaults (limitConfig (.int 4)) = [] := limitConfig_accepted fun path => rfl
  have is_data : (limitConfig (.int 4)).IsData := by
    refine .dict (List.pairwise_singleton _ _) fun entry mem => ?_
    rw [List.map_singleton, List.mem_singleton] at mem
    subst mem
    refine .dict (List.pairwise_singleton _ _) fun entry mem => ?_
    rw [List.map_singleton, List.mem_singleton] at mem
    subst mem
    exact .scalar _
  have accepted : Accepted workPlaces (limitConfig (.int 4)) [] := by
    refine ⟨?_, accepted, rfl, ?_⟩
    · unfold isCheckable
      rw [accepted]
      rfl
    · rintro path (no_template | ⟨slots, read, mem⟩)
      · cases no_template
      · cases (show Except.ok [] = Except.ok slots from read)
        cases mem
  exact ⟨limitConfig (.int 4), is_data, ofData_eq_ok.mpr ⟨[], accepted, rfl⟩⟩

/-- Arguments with another depth limit in the other spelling, and an option that
    is null. -/
def deeper : Arguments where
  template := some "t.md".toList
  slots := [("s".toList, "@b.md".toList)]
  options := [(.text "max_depth".toList, .int 7), (.text "onMissingSlot".toList, .null)]
  cwd := .ofText "/w".toList

end Config

end MarkdownOutlets
