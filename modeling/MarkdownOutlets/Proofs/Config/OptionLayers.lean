import MarkdownOutlets.Config.Plan
import MarkdownOutlets.Proofs.Config.Configuration

/-! # Options that the schema accepts

  The options of a configuration are checked twice: by the schema, when the
  configuration is loaded, and together with the standard options, when a plan
  is made. The schema is the stricter of the two in all respects but one. A
  number without a fraction counts as an integer for it, even if it is written
  as a float; the depth limit has to be an integer.

  The main statement, `accepted_options`, says that otherwise the second check
  lets pass what the first one did: each option is the one given, or the
  standard one.
-/

namespace MarkdownOutlets

/-! ### Keys of a mapping -/

namespace Entries

/-- The keys, in their order. -/
def keys (entries : Entries) : List Scalar := entries.map Prod.fst

theorem get?_eq_none_of_notMem {entries : Entries} {t : Text} (not_mem : .text t ∉ entries.keys) :
    entries.get? (.text t) = none := by
  induction entries with
  | nil => rfl
  | cons entry rest ih =>
    rw [keys, List.map_cons, List.mem_cons, not_or] at not_mem
    simp only [get?, Scalar.sameKey_text, decide_eq_true_eq]
    rw [if_neg (Ne.symm not_mem.1)]
    exact ih not_mem.2

/-- A text that is put into a mapping stays at its place, or goes to the end. -/
theorem keys_put (entries : Entries) (t : Text) (v : Value) :
    (entries.put (.text t) v).keys =
      if .text t ∈ entries.keys then entries.keys else entries.keys ++ [.text t] := by
  induction entries with
  | nil => rfl
  | cons entry rest ih =>
    obtain ⟨key, w⟩ := entry
    by_cases same : key = .text t
    · simp [put, keys, same]
    · simp only [put, Scalar.sameKey_text, same, decide_false, Bool.false_eq_true, if_false]
      simp only [keys, List.map_cons] at ih ⊢
      rw [ih]
      by_cases mem : Scalar.text t ∈ List.map Prod.fst rest
      · simp [mem]
      · simp [mem, Ne.symm same]

theorem nodup_keys_put {entries : Entries} (distinct : entries.keys.Nodup) (t : Text) (v : Value) :
    (entries.put (.text t) v).keys.Nodup := by
  rw [keys_put]
  split
  · exact distinct
  · rename_i not_mem
    exact distinct.append (List.nodup_singleton _) (List.disjoint_singleton.mpr not_mem)

theorem mem_keys_put {entries : Entries} {t : Text} {v : Value} {key : Scalar}
    (mem : key ∈ (entries.put (.text t) v).keys) : key ∈ entries.keys ∨ key = .text t := by
  rw [keys_put] at mem
  split at mem
  · exact .inl mem
  · simpa using mem

/-- Of entries that pass a test, a key that occurs once has its value, if it passes. -/
theorem get?_filter {entries : Entries} (distinct : entries.keys.Nodup) (passes : Value → Bool)
    (t : Text) : Entries.get? (entries.filter fun entry => passes entry.2) (.text t) =
      (entries.get? (.text t)).filter passes := by
  induction entries with
  | nil => rfl
  | cons entry rest ih =>
    obtain ⟨key, v⟩ := entry
    rw [keys, List.map_cons, List.nodup_cons] at distinct
    have below := ih distinct.2
    by_cases same : key = .text t
    · have once : get? rest (.text t) = none := get?_eq_none_of_notMem (same ▸ distinct.1)
      rw [once] at below
      by_cases pass : passes v = true
      · simp [get?, same, pass, Option.filter]
      · simp [get?, same, pass, below, Option.filter]
    · by_cases pass : passes v = true
      · simp [get?, same, pass, below]
      · simp [get?, same, pass, below]

end Entries

namespace Config

/-! ### Mappings on top of each other -/

namespace Plan

variable {top : Entries}

/-- What is on top counts first. -/
theorem get?_overlay (texts : ∀ key ∈ top.keys, ∃ t, key = .text t) (distinct : top.keys.Nodup)
    (entries : Entries) (t : Text) :
    (overlay entries top).get? (.text t) = (top.get? (.text t)).or (entries.get? (.text t)) := by
  induction top generalizing entries with
  | nil => rfl
  | cons entry rest ih =>
    obtain ⟨key, v⟩ := entry
    obtain ⟨u, rfl⟩ := texts key (by simp [Entries.keys])
    rw [Entries.keys, List.map_cons, List.nodup_cons] at distinct
    have below := ih (fun key mem => texts key (List.mem_cons_of_mem _ mem)) distinct.2
      (entries.put (.text u) v)
    rw [overlay] at below ⊢
    rw [List.foldl_cons, below, Entries.get?_put_text]
    by_cases same : t = u
    · -- No other entry on top has the key, so this one stays.
      subst same
      simp [Entries.get?, Entries.get?_eq_none_of_notMem distinct.1]
    · simp [Entries.get?, same, Ne.symm same]

theorem nodup_keys_overlay (texts : ∀ key ∈ top.keys, ∃ t, key = .text t) {entries : Entries}
    (distinct : entries.keys.Nodup) : (overlay entries top).keys.Nodup := by
  induction top generalizing entries with
  | nil => exact distinct
  | cons entry rest ih =>
    obtain ⟨key, v⟩ := entry
    obtain ⟨u, rfl⟩ := texts key (by simp [Entries.keys])
    exact ih (fun key mem => texts key (List.mem_cons_of_mem _ mem))
      (Entries.nodup_keys_put distinct u v)

theorem mem_keys_overlay (texts : ∀ key ∈ top.keys, ∃ t, key = .text t) {entries : Entries}
    {key : Scalar} (mem : key ∈ (overlay entries top).keys) : key ∈ entries.keys ∨ key ∈ top.keys := by
  induction top generalizing entries with
  | nil => exact .inl mem
  | cons entry rest ih =>
    obtain ⟨first, v⟩ := entry
    obtain ⟨u, rfl⟩ := texts first (by simp [Entries.keys])
    rcases ih (fun key mem => texts key (List.mem_cons_of_mem _ mem)) mem with mem | mem
    · rcases Entries.mem_keys_put mem with mem | rfl
      · exact .inl mem
      · exact .inr (by simp [Entries.keys])
    · exact .inr (List.mem_cons_of_mem _ mem)

end Plan

/-! ### Spellings -/

/-- The options that a configuration may give, by name and with the spelling that
    it uses. -/
def spelled : List (String × String) :=
  [("base_path", "basePath"), ("resolve_from", "resolveFrom"), ("max_depth", "maxDepth"),
   ("on_missing_slot", "onMissingSlot"), ("on_file_error", "onFileError"), ("parallel", "parallel")]

theorem canonicalName?_spelled :
    ∀ n ∈ spelled, Options.canonicalName? (.text n.2.toList) = some n.1.toList := by
  decide

theorem spelled_injective :
    ∀ n ∈ spelled, ∀ m ∈ spelled, n.1.toList = m.1.toList ↔ n.2.toList = m.2.toList := by
  decide

theorem texts_of_spelled {entries : Entries}
    (names : ∀ key ∈ entries.keys, ∃ n ∈ spelled, key = .text n.2.toList) :
    ∀ key ∈ entries.keys, ∃ t, key = .text t := by
  intro key mem
  obtain ⟨n, -, is_text⟩ := names key mem
  exact ⟨_, is_text⟩

/-- Options that a configuration may spell are found under their names. -/
theorem canonical_go {entries : Entries}
    (names : ∀ key ∈ entries.keys, ∃ n ∈ spelled, key = .text n.2.toList)
    (distinct : entries.keys.Nodup) (given : Entries) :
    ∃ result, Options.canonical.go entries given = .ok result ∧
      (∀ n ∈ spelled, result.field? n.1 = (entries.field? n.2).or (given.field? n.1)) ∧
      ∀ name : String, (∀ n ∈ spelled, name.toList ≠ n.1.toList) →
        result.field? name = given.field? name := by
  induction entries generalizing given with
  | nil => exact ⟨given, rfl, fun _ _ => rfl, fun _ _ => rfl⟩
  | cons entry rest ih =>
    obtain ⟨key, value⟩ := entry
    obtain ⟨n, n_mem, rfl⟩ := names key (by simp [Entries.keys])
    rw [Entries.keys, List.map_cons, List.nodup_cons] at distinct
    obtain ⟨result, read, spellings, others⟩ :=
      ih (fun key mem => names key (List.mem_cons_of_mem _ mem)) distinct.2
        (given.put (.text n.1.toList) value)
    refine ⟨result, ?_, fun m m_mem => ?_, fun name other => ?_⟩
    · simp only [Options.canonical.go, canonicalName?_spelled n n_mem]
      exact read
    · rw [spellings m m_mem]
      simp only [Entries.field?, Entries.get?_put_text, Entries.get?, Scalar.text_sameKey,
        Scalar.text.injEq, decide_eq_true_eq]
      by_cases same : m.1.toList = n.1.toList
      · -- The spelling occurs once, so the value that was put is not replaced.
        have spelling := (spelled_injective m m_mem n n_mem).mp same
        have once : Entries.get? rest (.text m.2.toList) = none :=
          Entries.get?_eq_none_of_notMem (spelling ▸ distinct.1)
        simp [same, spelling, spelling ▸ once]
      · have spelling := mt (spelled_injective m m_mem n n_mem).mpr same
        simp [same, spelling]
    · rw [others name other]
      simp [Entries.field?, Entries.get?_put_text, other n n_mem]

/-- To check a mapping of options is to check its entries under their names. -/
theorem check_canonical {entries given : Entries} (read : Options.canonical entries = .ok given) :
    Options.check (.dict entries) = Options.ofRecord given := by
  simp only [Options.check, Value.isNull, Value.entries?, read, Bool.false_eq_true, if_false]
  rfl

/-- The check of options given over the standard ones finds them under their names. -/
theorem check_overlay {own : Entries}
    (names : ∀ key ∈ own.keys, ∃ n ∈ spelled, key = .text n.2.toList) (distinct : own.keys.Nodup) :
    ∃ given, Options.check (.dict (Plan.overlay defaults own)) = Options.ofRecord given ∧
      (∀ n ∈ spelled, given.field? n.1 = (own.field? n.2).or (defaults.field? n.2)) ∧
      given.field? "cache" = none := by
  have texts := texts_of_spelled names
  have defaults_names : ∀ key ∈ defaults.keys, ∃ n ∈ spelled, key = .text n.2.toList := by decide
  have overlay_names : ∀ key ∈ (Plan.overlay defaults own).keys, ∃ n ∈ spelled,
      key = .text n.2.toList := fun key mem =>
    (Plan.mem_keys_overlay texts mem).elim (defaults_names key) (names key)
  obtain ⟨given, read, spellings, others⟩ :=
    canonical_go overlay_names (Plan.nodup_keys_overlay texts (by decide)) []
  refine ⟨given, ?_, fun n mem => ?_, others "cache" (by decide)⟩
  · exact check_canonical read
  · rw [spellings n mem, Entries.field?, Plan.get?_overlay texts distinct]
    exact Option.or_none

/-! ### Values that are accepted -/

/-- The options in the data of a configuration. -/
def optionsIn (data : Value) : Entries :=
  ((((Rule.members? data).getD []).field? "options").bind Value.entries?).getD []

/-- Options that the schema accepts. -/
structure Acceptable (own : Entries) : Prop where
  /-- The keys are spelled as in configurations. -/
  keys : ∀ key ∈ own.keys, ∃ n ∈ spelled, key = .text n.2.toList
  /-- The base path is a text. -/
  basePath : ∀ v, own.field? "basePath" = some v → ∃ t, v = .text t
  /-- A choice is made by its word. -/
  resolveFrom : ∀ v, own.field? "resolveFrom" = some v → ∃ c : ResolveFrom, v = .text c.word
  /-- The depth limit is a natural number, or written as a float. -/
  maxDepth : ∀ v, own.field? "maxDepth" = some v →
    (∃ n : Nat, v = .int n) ∨ ∃ b, v = .scalar (.float b)
  /-- A choice is made by its word. -/
  onMissingSlot : ∀ v, own.field? "onMissingSlot" = some v → ∃ c : OnMissingSlot, v = .text c.word
  /-- A choice is made by its word. -/
  onFileError : ∀ v, own.field? "onFileError" = some v → ∃ c : OnFileError, v = .text c.word
  /-- The choice of side-by-side resolution is a truth value. -/
  parallel : ∀ v, own.field? "parallel" = some v → ∃ b, v = .bool b

section forms

variable {path : List Scalar} {v : Value}

theorem bool_of_kind (accepted : (Form.kind .boolean).rule path v = []) : ∃ b, v = .bool b := by
  have is_bool := Rule.kind_eq_nil.mp accepted
  cases v with
  | scalar s =>
    cases s with
    | bool b => exact ⟨b, rfl⟩
    | _ => cases is_bool
  | _ => cases is_bool

theorem word_of_choice {α : Type} (words : List (Text × α)) {word : α → Text}
    (spells : ∀ entry ∈ words, entry.1 = word entry.2)
    (accepted : (Form.choice (words.map Prod.fst)).rule path v = []) : ∃ c, v = .text (word c) := by
  obtain ⟨_, mem, rfl⟩ := Rule.choice_eq_nil.mp accepted
  obtain ⟨entry, entry_mem, rfl⟩ := List.mem_map.mp mem
  exact ⟨entry.2, by rw [spells entry entry_mem]⟩

theorem number_of_natural (accepted : Form.natural.rule path v = []) :
    (∃ n : Nat, v = .int n) ∨ ∃ b, v = .scalar (.float b) := by
  have both := Rule.all_eq_nil.mp accepted
  have is_integer := Rule.kind_eq_nil.mp (both (.kind .integer) (by simp))
  have not_negative : (!Rule.isNegative v) = true :=
    Rule.require_eq_nil.mp (both .nonNegative (by simp))
  cases v with
  | scalar s =>
    cases s with
    | int i =>
      have least : 0 ≤ i := by simpa [Rule.isNegative] using not_negative
      exact .inl ⟨i.toNat, by rw [Int.toNat_of_nonneg least]; rfl⟩
    | float b => exact .inr ⟨b, rfl⟩
    | _ => cases is_integer
  | _ => cases is_integer

end forms

theorem acceptable_of_form {path : List Scalar} {v : Value}
    (accepted : Form.options.rule path v = []) : ∃ own, Rule.members? v = some own ∧ Acceptable own := by
  obtain ⟨own, is_object, keys, each⟩ := Form.closed_eq_nil.mp accepted
  refine ⟨own, is_object, ?_, ?_, ?_, ?_, ?_, ?_, ?_⟩
  · intro key mem
    obtain ⟨entry, entry_mem, rfl⟩ := List.mem_map.mp mem
    obtain ⟨m, m_mem, key_eq⟩ := keys entry entry_mem
    have is_spelled : m.1 ∈ spelled.map Prod.snd := List.mem_map_of_mem (f := Prod.fst) m_mem
    obtain ⟨n, n_mem, spelling⟩ := List.mem_map.mp is_spelled
    exact ⟨n, n_mem, by rw [key_eq, spelling]⟩
  · exact fun x found => text_of_kind (each ("basePath", .kind .text) (by simp) x found)
  · exact fun x found => word_of_choice ResolveFrom.words (by decide)
      (each ("resolveFrom", .choice (ResolveFrom.words.map Prod.fst)) (by simp [ResolveFrom.words])
        x found)
  · exact fun x found => number_of_natural (each ("maxDepth", .natural) (by simp) x found)
  · exact fun x found => word_of_choice OnMissingSlot.words (by decide)
      (each ("onMissingSlot", .choice (OnMissingSlot.words.map Prod.fst))
        (by simp [OnMissingSlot.words]) x found)
  · exact fun x found => word_of_choice OnFileError.words (by decide)
      (each ("onFileError", .choice (OnFileError.words.map Prod.fst)) (by simp [OnFileError.words])
        x found)
  · exact fun x found => bool_of_kind (each ("parallel", .kind .boolean) (by simp) x found)

/-- The options of a configuration that the schema accepts. -/
theorem acceptable {data : Value} (accepted : schemaFaults data = []) : Acceptable (optionsIn data) := by
  obtain ⟨entries, is_object, -, each⟩ := Form.closed_eq_nil.mp (schemaFaults_eq_nil.mp accepted)
  unfold optionsIn
  rw [is_object, Option.getD_some]
  cases found : entries.field? "options" with
  | none => exact ⟨nofun, nofun, nofun, nofun, nofun, nofun, nofun⟩
  | some v =>
    obtain ⟨own, own_members, own_acceptable⟩ :=
      acceptable_of_form (each ("options", Form.options.described "options") (by simp) v found)
    have own_entries : v.entries? = some own := by
      cases v with
      | dict entries => exact own_members
      | sharedCache entries => exact own_members
      | _ => cases own_members
    rw [Option.bind_some, own_entries, Option.getD_some]
    exact own_acceptable

/-! ### The second check -/

/-- The option has the value given, or if there is none, the standard one. -/
def Chosen {α : Type} (own : Entries) (spelling : String) (write : α → Value) (standard a : α) : Prop :=
  own.field? spelling = some (write a) ∨ own.field? spelling = none ∧ a = standard

/-- The options are those given, over the standard ones. -/
structure Layered (own : Entries) (o : Options) : Prop where
  /-- The base path, for which there is no standard. -/
  basePath : own.field? "basePath" = o.basePath.map Value.text
  /-- What paths are relative to. -/
  resolveFrom : Chosen own "resolveFrom" (fun c : ResolveFrom => .text c.word) .file o.resolveFrom
  /-- The depth limit. -/
  maxDepth : Chosen own "maxDepth" (fun n : Nat => .int n) 10 o.maxDepth
  /-- What happens to an outlet without a slot value. -/
  onMissingSlot : Chosen own "onMissingSlot" (fun c : OnMissingSlot => .text c.word) .keep
    o.onMissingSlot
  /-- What happens when a source cannot be read. -/
  onFileError : Chosen own "onFileError" (fun c : OnFileError => .text c.word) .warnEmpty
    o.onFileError
  /-- There is no cache. -/
  cache : o.cache = none
  /-- Whether slots are resolved side by side. -/
  parallel : Chosen own "parallel" .bool true o.parallel

/-- A field that can be read back has the value given, or the standard one. -/
theorem field_chosen {own given : Entries} {name spelling : String} {α : Type} (write : α → Value)
    (read : Value → Option α) (standard : α)
    (layers : given.field? name = (own.field? spelling).or (defaults.field? spelling))
    (is_standard : defaults.field? spelling = some (write standard))
    (reads : ∀ a, read (write a) = some a)
    (written : ∀ v, own.field? spelling = some v → ∃ a, v = write a) :
    ∃ a, (∀ unset reason, Options.field given name unset reason read = .ok a) ∧
      Chosen own spelling write standard a := by
  unfold Options.field Chosen
  rw [layers, is_standard]
  cases found : own.field? spelling with
  | none => exact ⟨standard, by simp [reads, Options.orElse], .inr ⟨rfl, rfl⟩⟩
  | some v =>
    obtain ⟨a, rfl⟩ := written v found
    exact ⟨a, by simp [reads, Options.orElse], .inl rfl⟩

theorem ofRecord_layered {own given : Entries} (acceptable : Acceptable own)
    (layers : ∀ n ∈ spelled, given.field? n.1 = (own.field? n.2).or (defaults.field? n.2))
    (no_cache : given.field? "cache" = none)
    (no_float : ∀ b, own.field? "maxDepth" ≠ some (.scalar (.float b))) :
    ∃ o, Options.ofRecord given = .ok o ∧ Layered own o := by
  have is_natural (v : Value) (found : own.field? "maxDepth" = some v) : ∃ n : Nat, v = .int n :=
    (acceptable.maxDepth v found).resolve_right fun ⟨b, is_float⟩ => no_float b (is_float ▸ found)
  obtain ⟨maxDepth, maxDepth_read, maxDepth_chosen⟩ :=
    field_chosen (fun n : Nat => .int n) Options.natural? 10
      (layers ("max_depth", "maxDepth") (by decide)) rfl (fun n => rfl) is_natural
  obtain ⟨onMissingSlot, onMissingSlot_read, onMissingSlot_chosen⟩ :=
    field_chosen (fun c : OnMissingSlot => .text c.word) (Options.choice? OnMissingSlot.words) .keep
      (layers ("on_missing_slot", "onMissingSlot") (by decide)) rfl (by rintro ⟨⟩ <;> rfl)
      acceptable.onMissingSlot
  obtain ⟨onFileError, onFileError_read, onFileError_chosen⟩ :=
    field_chosen (fun c : OnFileError => .text c.word) (Options.choice? OnFileError.words) .warnEmpty
      (layers ("on_file_error", "onFileError") (by decide)) rfl (by rintro ⟨⟩ <;> rfl)
      acceptable.onFileError
  obtain ⟨resolveFrom, resolveFrom_read, resolveFrom_chosen⟩ :=
    field_chosen (fun c : ResolveFrom => .text c.word) (Options.choice? ResolveFrom.words) .file
      (layers ("resolve_from", "resolveFrom") (by decide)) rfl (by rintro ⟨⟩ <;> rfl)
      acceptable.resolveFrom
  obtain ⟨parallel, parallel_read, parallel_chosen⟩ :=
    field_chosen .bool Options.bool? true (layers ("parallel", "parallel") (by decide)) rfl
      (fun b => rfl) acceptable.parallel
  -- There is no standard base path.
  obtain ⟨basePath, basePath_read, basePath_given⟩ : ∃ basePath,
      Options.field given "base_path" none .basePath Options.basePath? = .ok basePath ∧
        own.field? "basePath" = basePath.map Value.text := by
    have layers := layers ("base_path", "basePath") (by decide)
    unfold Options.field
    rw [layers]
    cases found : own.field? "basePath" with
    | none => exact ⟨none, rfl, rfl⟩
    | some v =>
      obtain ⟨t, rfl⟩ := acceptable.basePath v found
      exact ⟨some t, rfl, rfl⟩
  have cache_read : Options.field given "cache" none .cache Options.cache? = .ok none := by
    rw [Options.field, no_cache]
  refine ⟨{ basePath, resolveFrom, maxDepth, onMissingSlot, onFileError, parallel }, ?_,
    ⟨basePath_given, resolveFrom_chosen, maxDepth_chosen, onMissingSlot_chosen, onFileError_chosen,
      rfl, parallel_chosen⟩⟩
  simp only [Options.ofRecord, maxDepth_read, onMissingSlot_read, onFileError_read,
    resolveFrom_read, parallel_read, cache_read, basePath_read]
  rfl

/-- A depth limit that is written as a float is refused. -/
theorem ofRecord_float {own given : Entries} {b : Binary64}
    (layers : ∀ n ∈ spelled, given.field? n.1 = (own.field? n.2).or (defaults.field? n.2))
    (is_float : own.field? "maxDepth" = some (.scalar (.float b))) :
    Options.ofRecord given = .error .maxDepth := by
  have found : given.field? "max_depth" = some (.scalar (.float b)) := by
    rw [layers ("max_depth", "maxDepth") (by decide), is_float]
    rfl
  simp only [Options.ofRecord, Options.field, found]
  rfl

/-! ### Both checks -/

/-- What the second check does with options that the schema accepts. -/
structure CheckedAgain (data : Value) : Prop where
  /-- It lets them pass, unless the depth limit is written as a float. -/
  passes : (∀ b, (optionsIn data).field? "maxDepth" ≠ some (.scalar (.float b))) →
    ∃ o, Options.check (.dict (Plan.overlay defaults (optionsIn data))) = .ok o ∧
      Layered (optionsIn data) o
  /-- Such a depth limit is refused. -/
  refuses : ∀ b, (optionsIn data).field? "maxDepth" = some (.scalar (.float b)) →
    Options.check (.dict (Plan.overlay defaults (optionsIn data))) = .error .maxDepth
  /-- Without options among the arguments, the plan of a loaded configuration has
      these options; it can only lack a template, or the home directory that a path
      among the arguments starts with. -/
  plan : (∀ b, (optionsIn data).field? "maxDepth" ≠ some (.scalar (.float b))) →
    ∀ {places : FilePath.Places} {p : FilePath} {config : Configuration} {a : Arguments},
      Configuration.ofData places p data = .ok config → (∀ entry ∈ a.options, entry.2.isNull) →
        (∃ plan, Plan.request places (some config) a = .ok plan ∧
          Layered (optionsIn data) plan.options) ∨
        Plan.request places (some config) a = .error (.invalid .templateRequired) ∨
        ∃ fault, Plan.homeFault? places (some config) a = some fault ∧
          Plan.request places (some config) a = .error (.home fault)

/-- The options of a configuration that was loaded are those of its data. -/
theorem options_ofData {data : Value} {places : FilePath.Places} {p : FilePath}
    {config : Configuration} (loaded : Configuration.ofData places p data = .ok config) :
    config.options = optionsIn data := by
  obtain ⟨slots, accepted, rfl⟩ := ofData_eq_ok.mp loaded
  obtain ⟨entries, members, -⟩ := Form.closed_eq_nil.mp (schemaFaults_eq_nil.mp accepted.accepted)
  unfold optionsIn memberOf
  rw [members]
  rfl

theorem templateOf_cases (places : FilePath.Places) (config : Option Configuration) (a : Arguments) :
    (∃ template, Plan.templateOf places config a = .ok template) ∨
      Plan.templateOf places config a = .error .templateRequired := by
  unfold Plan.templateOf
  split
  · exact .inl ⟨_, rfl⟩
  · exact .inl ⟨_, rfl⟩
  · exact .inr rfl

/-- What the schema accepts passes the check that is made with a plan, but for a
    depth limit that is written as a float. -/
theorem accepted_options {data : Value} (accepted : schemaFaults data = [])
    (distinct : (optionsIn data).keys.Nodup) : CheckedAgain data := by
  have acceptable := acceptable accepted
  obtain ⟨given, check_eq, layers, no_cache⟩ := check_overlay acceptable.keys distinct
  have passes (no_float : ∀ b, (optionsIn data).field? "maxDepth" ≠ some (.scalar (.float b))) :
      ∃ o, Options.check (.dict (Plan.overlay defaults (optionsIn data))) = .ok o ∧
        Layered (optionsIn data) o := by
    rw [check_eq]
    exact ofRecord_layered acceptable layers no_cache no_float
  refine ⟨passes, fun b is_float => ?_, fun no_float places p config a loaded unset => ?_⟩
  · rw [check_eq]
    exact ofRecord_float layers is_float
  · obtain ⟨o, checked, layered⟩ := passes no_float
    have entries : Plan.optionEntries (some config) a = Plan.overlay defaults (optionsIn data) := by
      have none_left : a.options.filter (fun entry => !entry.2.isNull) = [] := by
        simpa using unset
      rw [Plan.optionEntries, none_left, Option.map_some, Option.getD_some, options_ofData loaded]
      rfl
    unfold Plan.request
    cases homes : Plan.homeFault? places (some config) a with
    | some fault => exact .inr (.inr ⟨fault, rfl, rfl⟩)
    | none =>
      simp only
      unfold Plan.make
      rw [entries, checked]
      rcases templateOf_cases places (some config) a with ⟨template, found⟩ | missing
      · rw [found]
        exact .inl ⟨_, rfl, layered⟩
      · rw [missing]
        exact .inr (.inl rfl)

/-- A configuration with a depth limit and nothing else. -/
def limitConfig (limit : Scalar) : Value := .object [("options", .object [("maxDepth", .scalar limit)])]

theorem limitConfig_accepted {limit : Scalar}
    (accepted : ∀ path, Form.natural.rule path (.scalar limit) = []) :
    schemaFaults (limitConfig limit) = [] :=
  schemaFaults_options.mpr
    ((Form.closed_single (m := ("maxDepth", .natural)) (by decide) (by simp)).mpr (accepted _))

theorem limit_of_limitConfig (limit : Scalar) :
    (optionsIn (limitConfig limit)).field? "maxDepth" = some (.scalar limit) := by
  simp [optionsIn, limitConfig, Value.object, Rule.members?, Value.entries?, Entries.field?,
    Entries.get?]

/-- A depth limit of three. -/
theorem accepted_options_three :
    schemaFaults (limitConfig (.int 3)) = [] ∧ (optionsIn (limitConfig (.int 3))).keys.Nodup ∧
      CheckedAgain (limitConfig (.int 3)) := by
  have accepted : schemaFaults (limitConfig (.int 3)) = [] := limitConfig_accepted fun path => rfl
  have distinct : (optionsIn (limitConfig (.int 3))).keys.Nodup := by decide
  exact ⟨accepted, distinct, accepted_options accepted distinct⟩

/-- The depth limit 2.0 passes the first check and not the second one. -/
theorem float_limit_refused :
    ¬ ∀ data, schemaFaults data = [] → (optionsIn data).keys.Nodup →
      ∃ o, Options.check (.dict (Plan.overlay defaults (optionsIn data))) = .ok o := by
  intro passes
  let two : Scalar := .float (.ofDecimal false 20 (-1))
  have accepted : schemaFaults (limitConfig two) = [] := limitConfig_accepted fun path => rfl
  have distinct : (optionsIn (limitConfig two)).keys.Nodup := by decide
  obtain ⟨given, check_eq, layers, -⟩ := check_overlay (acceptable accepted).keys distinct
  obtain ⟨o, checked⟩ := passes _ accepted distinct
  rw [check_eq, ofRecord_float layers (limit_of_limitConfig two)] at checked
  cases checked

end Config

end MarkdownOutlets
