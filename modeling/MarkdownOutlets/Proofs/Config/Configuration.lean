import MarkdownOutlets.Config.Configuration
import MarkdownOutlets.Proofs.Composition.SourcePaths
import MarkdownOutlets.Proofs.Config.Schema
import MarkdownOutlets.Proofs.Data.FileData

/-! # From data to a configuration

  Data is a configuration when it passes the schema, its slots can be read and
  every home directory that its paths start with is there (`ofData_eq_ok`).
  Otherwise there is a refusal, with two exceptions. A refusal quotes what it
  is about, and an integer may have too many digits to be quoted; and a home
  directory that is not there is no matter of the configuration.

  The main statement, `data_end`, says that there is no third exception: every
  refusal about data whose integers can all be quoted can be put into words.
-/

namespace MarkdownOutlets

/-! ### Paths -/

mutual

/-- Nothing is found at the paths of a slot value if there is nothing to be found at
    any of them. -/
theorem Slot.findPath?_eq_none {α : Type} {f : Text → Option α} : (slot : Slot) →
    (slot.findPath? f = none ↔ ∀ path ∈ slot.sourcePaths, f path = none)
  | .literal _ => by simp [Slot.findPath?, Slot.sourcePaths]
  | .callback _ => by simp [Slot.findPath?, Slot.sourcePaths]
  | .source _ => by simp [Slot.findPath?, Slot.sourcePaths]
  | .document body slots => by
    have inner := Slots.findPath?_eq_none (f := f) slots
    cases body with
    | text _ => simpa [Slot.findPath?, Slot.sourcePaths, Body.sourcePaths] using inner
    | source path =>
      simp only [Slot.findPath?, Slot.sourcePaths, Body.sourcePaths, Option.or_eq_none_iff, inner,
        List.cons_append, List.nil_append, List.forall_mem_cons]
      exact And.comm

theorem Slots.findPath?_eq_none {α : Type} {f : Text → Option α} : (slots : List (Scalar × Slot)) →
    (Slots.findPath? f slots = none ↔ ∀ path ∈ Slots.sourcePaths slots, f path = none)
  | [] => by simp [Slots.findPath?, Slots.sourcePaths]
  | (_, slot) :: rest => by
    have first := Slot.findPath?_eq_none (f := f) slot
    have others := Slots.findPath?_eq_none (f := f) rest
    simp only [Slots.findPath?, Slots.sourcePaths, Option.or_eq_none_iff, first, others,
      List.forall_mem_append]

end

mutual

/-- What is found at the paths of a slot value is found at one of them. -/
theorem Slot.exists_of_findPath? {α : Type} {f : Text → Option α} {a : α} : (slot : Slot) →
    slot.findPath? f = some a → ∃ path ∈ slot.sourcePaths, f path = some a
  | .literal _, found => by cases found
  | .callback _, found => by cases found
  | .source path, found => ⟨path, List.mem_singleton_self path, found⟩
  | .document (.text _) slots, found => Slots.exists_of_findPath? slots found
  | .document (.source path) slots, found => by
    rcases Option.or_eq_some_iff.mp found with found | ⟨-, found⟩
    · obtain ⟨inner, mem, at_inner⟩ := Slots.exists_of_findPath? slots found
      exact ⟨inner, List.mem_cons_of_mem path mem, at_inner⟩
    · exact ⟨path, List.mem_cons_self, found⟩

theorem Slots.exists_of_findPath? {α : Type} {f : Text → Option α} {a : α} :
    (slots : List (Scalar × Slot)) → Slots.findPath? f slots = some a →
      ∃ path ∈ Slots.sourcePaths slots, f path = some a
  | [], found => by cases found
  | (_, slot) :: rest, found => by
    rcases Option.or_eq_some_iff.mp found with found | ⟨-, found⟩
    · obtain ⟨path, mem, at_path⟩ := Slot.exists_of_findPath? slot found
      exact ⟨path, List.mem_append_left _ mem, at_path⟩
    · obtain ⟨path, mem, at_path⟩ := Slots.exists_of_findPath? rest found
      exact ⟨path, List.mem_append_right _ mem, at_path⟩

end

namespace Config

/-! ### The parts of the data -/

/-- What the data has under a name. -/
def memberOf (data : Value) (name : String) : Option Value :=
  (Rule.members? data).bind (Entries.field? · name)

/-- The slots in the data, as they are read. -/
def slotsIn (data : Value) : Value := (memberOf data "slots").getD .null

/-- The data names a template, or a file of a slot, by a path. -/
def NamesPath (data : Value) (path : Text) : Prop :=
  (memberOf data "template").bind Value.text? = some path ∨
    ∃ slots, slotsOf (slotsIn data) = .ok slots ∧ path ∈ Slots.sourcePaths slots

variable {places : FilePath.Places} {p : FilePath} {data : Value}

/-- What is a configuration passed the schema and has slots that can be read, and the
    home directories that its paths start with are there. -/
structure Accepted (places : FilePath.Places) (data : Value) (slots : Slots) : Prop where
  /-- The check of the schema comes to an end. -/
  checkable : isCheckable data = true
  /-- It finds no fault. -/
  accepted : schemaFaults data = []
  /-- The slots can be read. -/
  slots : slotsOf (slotsIn data) = .ok slots
  /-- The home directories are there. -/
  homes : ∀ path, NamesPath data path → homeFault? places path = none

/-- The home directories are there that the paths of slots and the template start with. -/
theorem no_homeFault {slots : Slots} (read : slotsOf (slotsIn data) = .ok slots) :
    (Slots.findPath? (homeFault? places) slots).or
        (((memberOf data "template").bind Value.text?).bind (homeFault? places)) = none ↔
      ∀ path, NamesPath data path → homeFault? places path = none := by
  rw [Option.or_eq_none_iff, Slots.findPath?_eq_none]
  constructor
  · rintro ⟨in_slots, in_template⟩ path (is_template | ⟨others, read_others, mem⟩)
    · rw [is_template] at in_template
      exact in_template
    · rw [read] at read_others
      exact in_slots path (Except.ok.inj read_others ▸ mem)
  · intro known
    refine ⟨fun path mem => known path (.inr ⟨slots, read, mem⟩), ?_⟩
    cases is_template : (memberOf data "template").bind Value.text? with
    | none => rfl
    | some path => exact known path (.inl is_template)

/-- Data is a configuration if it is accepted, and not otherwise. -/
theorem ofData_eq_ok {config : Configuration} :
    Configuration.ofData places p data = .ok config ↔ ∃ slots, Accepted places data slots ∧
      config =
        { template := ((memberOf data "template").bind Value.text?).map (places.within p.parent)
          slots := Slots.mapPaths (places.within p.parent) slots
          options := ((memberOf data "options").bind Value.entries?).getD []
          path := p } := by
  constructor
  · intro loaded
    unfold Configuration.ofData at loaded
    cases members : Rule.members? data with
    | none =>
      rw [members] at loaded
      cases loaded
    | some entries =>
      have in_data (name : String) : memberOf data name = entries.field? name := by
        rw [memberOf, members, Option.bind_some]
      simp only [members] at loaded
      split at loaded
      case h_1 => cases loaded
      case h_2 => cases loaded
      case h_3 checkable accepted =>
        rw [← in_data "slots", ← in_data "template", ← in_data "options", ← slotsIn] at loaded
        split at loaded
        · cases loaded
        · rename_i slots read
          split at loaded
          · cases loaded
          · rename_i homes
            exact ⟨slots, ⟨checkable, accepted, read, (no_homeFault read).mp homes⟩,
              (Except.ok.inj loaded).symm⟩
  · rintro ⟨slots, ⟨checkable, accepted, read, homes⟩, rfl⟩
    have homes := (no_homeFault read).mpr homes
    obtain ⟨entries, members, -⟩ := Form.closed_eq_nil.mp (schemaFaults_eq_nil.mp accepted)
    unfold slotsIn at read
    simp only [memberOf, members, Option.bind_some] at read homes ⊢
    simp only [Configuration.ofData, members, checkable, accepted, read, homes]

/-! ### What faults quote -/

section writable

variable {path : List Scalar} {v : Value} {fault : SchemaFault}

/-- The keys and values of a mapping that can be quoted can be quoted. -/
theorem writable_of_members {entries : Entries} (members : Rule.members? v = some entries)
    (writable : v.isWritable = true) :
    ∀ entry ∈ entries, entry.1.isWritable = true ∧ entry.2.isWritable = true := by
  cases v with
  | dict own =>
    obtain rfl := Option.some.inj members
    exact Value.areWritableEntries_iff.mp writable
  | sharedCache own =>
    obtain rfl := Option.some.inj members
    exact Value.areWritableEntries_iff.mp writable
  | _ => cases members

/-- The faults that a rule finds quote nothing but what is in the value. -/
def Rule.Quotes (rule : Rule) : Prop :=
  ∀ {path : List Scalar} {v : Value}, path.all Scalar.isWritable = true → v.isWritable = true →
    ∀ fault ∈ rule path v, fault.isWritable = true

namespace Rule

theorem writable_require {holds : Bool} {violation : Violation}
    (mem : fault ∈ require holds path violation) (at_path : path.all Scalar.isWritable = true)
    (writable : violation.isWritable = true) : fault.isWritable = true := by
  unfold require at mem
  split at mem
  · cases mem
  · rw [List.mem_singleton.mp mem, SchemaFault.isWritable, at_path, writable]
    rfl

theorem quotes_all {rules : List Rule} (each : ∀ rule ∈ rules, rule.Quotes) : (all rules).Quotes := by
  intro path v at_path writable fault mem
  obtain ⟨rule, rule_mem, mem⟩ := List.mem_flatMap.mp mem
  exact each rule rule_mem at_path writable fault mem

theorem quotes_kind (k : Kind) : (kind k).Quotes := fun at_path writable _ mem =>
  writable_require mem at_path writable

theorem quotes_choice (words : List Text) : (choice words).Quotes := fun at_path writable _ mem =>
  writable_require mem at_path writable

theorem quotes_nonEmpty : nonEmpty.Quotes := fun at_path writable _ mem =>
  writable_require mem at_path writable

theorem quotes_nonNegative : nonNegative.Quotes := fun at_path writable _ mem =>
  writable_require mem at_path writable

theorem quotes_closed (names : List Text) : (closed names).Quotes := by
  intro path v at_path writable fault mem
  refine writable_require mem at_path ?_
  refine List.all_eq_true.mpr fun key key_mem => ?_
  obtain ⟨entry, entry_mem, is_key⟩ := List.mem_filterMap.mp (List.mem_mergeSort.mp key_mem)
  cases members : members? v with
  | none => simp [members] at entry_mem
  | some entries =>
    rw [members, Option.getD_some] at entry_mem
    simp only [Option.ite_none_left_eq_some, Option.some.injEq] at is_key
    exact is_key.2 ▸ (writable_of_members members writable entry entry_mem).1

theorem quotes_member (name : String) {rule : Rule} (quotes : rule.Quotes) :
    (member name rule).Quotes := by
  intro path v at_path writable fault mem
  unfold member at mem
  split at mem
  · rename_i x found
    obtain ⟨entries, members, found⟩ := Option.bind_eq_some_iff.mp found
    have x_writable := (writable_of_members members writable _ (Entries.mem_of_field? found)).2
    refine quotes ?_ x_writable fault mem
    rw [List.all_append, at_path]
    rfl
  · cases mem

theorem quotes_everyValue (holds : Value → Bool) : (everyValue holds).Quotes := by
  intro path v at_path writable fault mem
  obtain ⟨⟨key, x⟩, entry_mem, mem⟩ := List.mem_flatMap.mp mem
  cases members : members? v with
  | none => simp [members] at entry_mem
  | some entries =>
    rw [members, Option.getD_some] at entry_mem
    obtain ⟨key_writable, x_writable⟩ := writable_of_members members writable _ entry_mem
    refine writable_require mem ?_ x_writable
    unfold pathTo
    split
    · exact at_path
    · rw [List.all_append, at_path, List.all_cons, key_writable]
      rfl

theorem quotes_slotNames : slotNames.Quotes := by
  intro path v at_path writable fault mem
  obtain ⟨⟨key, x⟩, entry_mem, mem⟩ := List.mem_flatMap.mp mem
  cases members : members? v with
  | none => simp [members] at entry_mem
  | some entries =>
    rw [members, Option.getD_some] at entry_mem
    exact writable_require mem at_path (writable_of_members members writable _ entry_mem).1

end Rule

namespace Form

theorem quotes_closed {members : List (String × Form)} (each : ∀ m ∈ members, m.2.rule.Quotes) :
    (closed members).rule.Quotes := by
  refine Rule.quotes_all fun rule mem => ?_
  simp only [List.cons_append, List.nil_append, List.mem_cons, List.mem_map] at mem
  rcases mem with rfl | rfl | ⟨m, m_mem, rfl⟩
  · exact Rule.quotes_kind .object
  · exact Rule.quotes_closed _
  · exact Rule.quotes_member m.1 (each m m_mem)

theorem quotes_nonEmptyText : nonEmptyText.rule.Quotes :=
  Rule.quotes_all (List.forall_mem_cons.mpr ⟨Rule.quotes_kind .text,
    List.forall_mem_singleton.mpr Rule.quotes_nonEmpty⟩)

theorem quotes_natural : natural.rule.Quotes :=
  Rule.quotes_all (List.forall_mem_cons.mpr ⟨Rule.quotes_kind .integer,
    List.forall_mem_singleton.mpr Rule.quotes_nonNegative⟩)

theorem quotes_slots : slots.rule.Quotes :=
  Rule.quotes_all (List.forall_mem_cons.mpr ⟨Rule.quotes_kind .object,
    List.forall_mem_cons.mpr ⟨Rule.quotes_slotNames,
      List.forall_mem_singleton.mpr (Rule.quotes_everyValue isSlot)⟩⟩)

theorem quotes_options : options.rule.Quotes := by
  refine quotes_closed fun m mem => ?_
  simp only [List.mem_cons, List.not_mem_nil, or_false] at mem
  rcases mem with rfl | rfl | rfl | rfl | rfl | rfl
  · exact Rule.quotes_kind .text
  · exact Rule.quotes_choice _
  · exact quotes_natural
  · exact Rule.quotes_choice _
  · exact Rule.quotes_choice _
  · exact Rule.quotes_kind .boolean

theorem quotes_config : config.rule.Quotes := by
  refine quotes_closed fun m mem => ?_
  simp only [List.mem_cons, List.not_mem_nil, or_false] at mem
  rcases mem with rfl | rfl | rfl
  · exact quotes_nonEmptyText
  · exact quotes_slots
  · exact quotes_options

end Form

/-- The check of data whose integers can all be quoted comes to an end. -/
theorem isCheckable_of_isWritable (writable : v.isWritable = true) : isCheckable v = true := by
  refine Bool.and_eq_true_iff.mpr ⟨List.all_eq_true.mpr fun fault mem => ?_,
    List.all_eq_true.mpr fun slot mem => ?_⟩
  · exact Form.quotes_config rfl writable fault (List.mem_mergeSort.mp mem)
  · obtain ⟨entry, entry_mem, rfl⟩ := List.mem_map.mp mem
    cases own : Rule.members? v with
    | none => simp [own] at entry_mem
    | some entries =>
      rw [own, Option.bind_some] at entry_mem
      cases found : entries.field? "slots" with
      | none => simp [found] at entry_mem
      | some given =>
        have given_writable := (writable_of_members own writable _ (Entries.mem_of_field? found)).2
        rw [found, Option.bind_some] at entry_mem
        cases inner : Rule.members? given with
        | none => simp [inner] at entry_mem
        | some slots =>
          rw [inner, Option.getD_some] at entry_mem
          exact (writable_of_members inner given_writable _ entry_mem).2

end writable

/-! ### What refusals of slots quote -/

section reading

open Document

variable {place : Text} {reason : Invalid}

/-- A value that is not found under one name only is refused without a quotation. -/
theorem writable_of_pick {entries : Entries} {names : List Text}
    (refused : pick entries names place = .error reason) : reason.isWritable = true := by
  unfold pick at refused
  split at refused
  · cases refused
  · cases refused
  · rw [← Except.error.inj refused]
    rfl

theorem writable_of_recordOf {entries : Entries} {slots : Except Invalid Entries}
    (inner : ∀ reason, slots = .error reason → reason.isWritable = true)
    (refused : recordOf entries slots place = .error reason) : reason.isWritable = true := by
  unfold recordOf at refused
  rcases error_of_bind refused with refused | ⟨text, -, refused⟩
  · exact writable_of_pick refused
  rcases error_of_bind refused with refused | ⟨source, -, refused⟩
  · exact writable_of_pick refused
  split at refused
  · rw [← Except.error.inj refused]
    rfl
  · split at refused
    · rw [← Except.error.inj refused]
      rfl
    · rcases error_of_bind refused with refused | ⟨records, -, refused⟩
      · exact inner reason refused
      · cases refused

theorem writable_of_slotRecordOf {entries : Entries} {slots : Except Invalid Entries}
    (inner : ∀ reason, slots = .error reason → reason.isWritable = true)
    (refused : slotRecordOf entries slots place = .error reason) : reason.isWritable = true := by
  unfold slotRecordOf at refused
  split at refused
  · exact writable_of_recordOf inner refused
  · rcases error_of_bind refused with refused | ⟨text, -, refused⟩
    · exact writable_of_pick refused
    rcases error_of_bind refused with refused | ⟨source, -, refused⟩
    · exact writable_of_pick refused
    split at refused
    · cases refused
    · split at refused
      · cases refused
      · exact writable_of_recordOf inner refused

mutual

/-- A refusal to read slots quotes nothing but names of slots in the value. -/
theorem writable_of_slotRecord : (v : Value) → v.isWritable = true → {place : Text} →
    {reason : Invalid} → slotRecord v place = .error reason → reason.isWritable = true
  | .literal _, _, _, _, refused | .source _, _, _, _, refused | .callback _, _, _, _, refused
  | .document .., _, _, _, refused | .callable _, _, _, _, refused => by cases refused
  | .frozen, _, _, _, refused => by
    unfold slotRecord at refused
    refine writable_of_slotRecordOf (fun _ inner => ?_) refused
    cases inner
  | .dict entries, writable, _, _, refused | .sharedCache entries, writable, _, _, refused =>
    writable_of_slotRecordOf (fun _ inner => writable_of_slotsEntry entries writable inner) refused
  | .scalar s, _, _, _, refused => by
    cases s with
    | text t => cases refused
    | _ =>
      rw [← Except.error.inj refused]
      rfl
  | .list _, _, _, _, refused | .options _, _, _, _, refused => by
    rw [← Except.error.inj refused]
    rfl

theorem writable_of_slotRecords : (entries : List (Scalar × Value)) →
    Value.areWritableEntries entries = true → {place : Text} → {reason : Invalid} →
      slotRecords entries place = .error reason → reason.isWritable = true
  | [], _, _, _, refused => by cases refused
  | (name, value) :: rest, writable, place, reason, refused => by
    simp only [Value.areWritableEntries, Bool.and_eq_true] at writable
    obtain ⟨⟨name_writable, value_writable⟩, rest_writable⟩ := writable
    cases name with
    | text t =>
      rcases error_of_bind refused with refused | ⟨slot, -, refused⟩
      · exact writable_of_slotRecord value value_writable refused
      rcases error_of_bind refused with refused | ⟨others, -, refused⟩
      · exact writable_of_slotRecords rest rest_writable refused
      · cases refused
    | _ =>
      rw [← Except.error.inj refused]
      exact name_writable

theorem writable_of_slotsGiven : (v : Value) → v.isWritable = true → {place : Text} →
    {reason : Invalid} → slotsGiven v place = .error reason → reason.isWritable = true
  | .dict entries, writable, _, _, refused | .sharedCache entries, writable, _, _, refused =>
    writable_of_slotRecords entries writable refused
  | .frozen, _, _, _, refused => by cases refused
  | .scalar s, _, _, _, refused => by
    simp only [slotsGiven] at refused
    split at refused
    · rw [← Except.error.inj refused]
      rfl
    · cases refused
  | .list items, _, _, _, refused => by
    simp only [slotsGiven] at refused
    split at refused
    · rw [← Except.error.inj refused]
      rfl
    · cases refused
  | .literal _, _, _, _, refused | .source _, _, _, _, refused | .callback _, _, _, _, refused
  | .document .., _, _, _, refused | .callable _, _, _, _, refused | .options _, _, _, _, refused => by
    rw [← Except.error.inj refused]
    rfl

theorem writable_of_slotsEntry : (entries : List (Scalar × Value)) →
    Value.areWritableEntries entries = true → {place : Text} → {reason : Invalid} →
      slotsEntry entries place = .error reason → reason.isWritable = true
  | [], _, _, _, refused => by cases refused
  | (name, value) :: rest, writable, place, reason, refused => by
    simp only [Value.areWritableEntries, Bool.and_eq_true] at writable
    obtain ⟨⟨-, value_writable⟩, rest_writable⟩ := writable
    unfold slotsEntry at refused
    split at refused
    · exact writable_of_slotsGiven value value_writable refused
    · exact writable_of_slotsEntry rest rest_writable refused

end

theorem writable_of_checkBody {text source : Value}
    (refused : checkBody text source place = .error reason) : reason.isWritable = true := by
  unfold checkBody at refused
  repeat' split at refused
  all_goals cases refused
  all_goals rfl

mutual

/-- A refusal of records quotes nothing. -/
theorem writable_of_checkSlot : (v : Value) → {place : Text} → {reason : Invalid} →
    checkSlot v place = .error reason → reason.isWritable = true
  | .literal text, _, _, refused => by
    unfold checkSlot at refused
    split at refused
    · cases refused
    · rw [← Except.error.inj refused]
      rfl
  | .source path, _, _, refused => by
    unfold checkSlot at refused
    split at refused
    · cases refused
    · rw [← Except.error.inj refused]
      rfl
  | .callback func, _, _, refused => by
    unfold checkSlot at refused
    split at refused
    · cases refused
    · rw [← Except.error.inj refused]
      rfl
  | .document text source slots, _, _, refused => by
    unfold checkSlot at refused
    rcases error_of_bind refused with refused | ⟨body, -, refused⟩
    · exact writable_of_checkBody refused
    rcases error_of_bind refused with refused | ⟨own, -, refused⟩
    · exact writable_of_checkSlotField slots refused
    · cases refused
  | .scalar _, _, _, refused | .list _, _, _, refused | .dict _, _, _, refused
  | .frozen, _, _, refused | .sharedCache _, _, _, refused | .callable _, _, _, refused
  | .options _, _, _, refused => by
    rw [← Except.error.inj refused]
    rfl

theorem writable_of_checkSlotField : (v : Value) → {place : Text} → {reason : Invalid} →
    checkSlotField v place = .error reason → reason.isWritable = true
  | .dict entries, _, _, refused | .sharedCache entries, _, _, refused =>
    writable_of_checkSlots entries refused
  | .frozen, _, _, refused => by cases refused
  | .scalar _, _, _, refused | .list _, _, _, refused | .literal _, _, _, refused
  | .source _, _, _, refused | .callback _, _, _, refused | .callable _, _, _, refused
  | .document .., _, _, refused | .options _, _, _, refused => by
    rw [← Except.error.inj refused]
    rfl

theorem writable_of_checkSlots : (entries : List (Scalar × Value)) → {place : Text} →
    {reason : Invalid} → checkSlots entries place = .error reason → reason.isWritable = true
  | [], _, _, refused => by cases refused
  | (_, value) :: rest, _, _, refused => by
    unfold checkSlots at refused
    rcases error_of_bind refused with refused | ⟨slot, -, refused⟩
    · exact writable_of_checkSlot value refused
    rcases error_of_bind refused with refused | ⟨others, -, refused⟩
    · exact writable_of_checkSlots rest refused
    · cases refused

end

theorem writable_of_slotsOf {v : Value} (writable : v.isWritable = true)
    (refused : slotsOf v = .error reason) : reason.isWritable = true := by
  unfold slotsOf at refused
  rcases error_of_bind refused with refused | ⟨records, -, refused⟩
  · exact writable_of_slotsGiven v writable refused
  · exact writable_of_checkSlots records refused

end reading

/-! ### Every end -/

/-- The ways in which the attempt can end to read data as a configuration. -/
inductive DataEnd (places : FilePath.Places) (data : Value) :
    Except LoadFault Configuration → Prop
  /-- There is a configuration. -/
  | loaded (config : Configuration) : DataEnd places data (.ok config)
  /-- It is refused. -/
  | refused (fault : ConfigFault) : DataEnd places data (.error (.config fault))
  /-- An integer in it has too many digits to be quoted. -/
  | unwritable (not_writable : data.isWritable = false) :
      DataEnd places data (.error (.value .unwritable))
  /-- A path in it starts with a home directory that is not there. -/
  | homeless {path : Text} {fault : FilePath.HomeFault} (named : NamesPath data path)
      (no_home : homeFault? places path = some fault) :
      DataEnd places data (.error (.value (.home fault)))

theorem slotsIn_isWritable (writable : data.isWritable = true) : (slotsIn data).isWritable = true := by
  unfold slotsIn memberOf
  cases members : Rule.members? data with
  | none => rfl
  | some entries =>
    rw [Option.bind_some]
    cases found : entries.field? "slots" with
    | none => rfl
    | some given => exact (writable_of_members members writable _ (Entries.mem_of_field? found)).2

/-- All data comes to one of these ends. -/
theorem data_end (places : FilePath.Places) (p : FilePath) (data : Value) :
    DataEnd places data (Configuration.ofData places p data) := by
  -- What cannot be put into words is about data that cannot be quoted.
  have not_writable {P : Prop} (writes : data.isWritable = true → P) (fails : ¬ P) :
      data.isWritable = false :=
    Bool.eq_false_iff.mpr fun writable => fails (writes writable)
  unfold Configuration.ofData
  cases members : Rule.members? data with
  | none => exact .refused _
  | some entries =>
    have in_data (name : String) : memberOf data name = entries.field? name := by
      rw [memberOf, members, Option.bind_some]
    simp only
    split
    case h_1 unchecked =>
      exact .unwritable (not_writable isCheckable_of_isWritable (by simp [unchecked]))
    case h_2 => exact .refused _
    case h_3 =>
      rw [← in_data "slots", ← in_data "template", ← slotsIn]
      cases read : slotsOf (slotsIn data) with
      | error reason =>
        have writes (writable : data.isWritable = true) : reason.isWritable = true :=
          writable_of_slotsOf (slotsIn_isWritable writable) read
        by_cases writable : reason.isWritable = true
        · simp only [writable, if_true]
          exact .refused _
        · simp only [writable]
          exact .unwritable (not_writable writes writable)
      | ok slots =>
        simp only
        split
        · rename_i fault found
          rcases Option.or_eq_some_iff.mp found with in_slots | ⟨-, in_template⟩
          · obtain ⟨path, mem, no_home⟩ := Slots.exists_of_findPath? slots in_slots
            exact .homeless (.inr ⟨slots, read, mem⟩) no_home
          · obtain ⟨path, is_template, no_home⟩ := Option.bind_eq_some_iff.mp in_template
            exact .homeless (.inl is_template) no_home
        · exact .loaded _

end Config

end MarkdownOutlets
