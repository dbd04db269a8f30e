import MarkdownOutlets.Proofs.Config.Loading

/-! # The grammar of configurations

  Whether a configuration is accepted is decided in two steps with different
  rules. The schema looks at the form of slots and does not ask whether a slot
  has a text or a file; it also leaves keys alone that are no texts. The reading
  of slots asks for both, and knows other names for the members of a slot.

  The grammar of configurations is given here by itself, over the data. The main
  statement, `config_grammar`, says that the two steps together accept what
  follows the grammar and nothing else, and that slots are read as what the
  grammar says they mean, name by name.
-/

namespace MarkdownOutlets

namespace Config

open Document

/-! ### The grammar -/

/-- The members that a slot may have. -/
def slotMembers : List String := ["content", "file", "slots"]

/-- A mapping gives a text, or the path of a file, and not both. -/
inductive Gives (entries : Entries) : Body → Prop
  /-- A text. -/
  | text {t : Text} (content : entries.field? "content" = some (.text t))
      (no_file : entries.field? "file" = none) : Gives entries (.text t)
  /-- The path of a file, which is not empty. -/
  | source {path : Text} (no_content : entries.field? "content" = none)
      (file : entries.field? "file" = some (.text path)) (nonempty : path ≠ []) :
      Gives entries (.source path)

mutual

/-- The data is a slot. -/
inductive SlotData : Value → Prop
  /-- A text. -/
  | text (t : Text) : SlotData (.text t)
  /-- A mapping with a text or a file, and perhaps slots. -/
  | mapping {entries : Entries} {body : Body}
      (keys : ∀ entry ∈ entries, ∃ name ∈ slotMembers, entry.1 = .text name.toList)
      (gives : Gives entries body)
      (slots : ∀ given, entries.field? "slots" = some given → SlotsData given) :
      SlotData (.dict entries)

/-- The data is slots by name. -/
inductive SlotsData : Value → Prop
  /-- A mapping from names to slots. -/
  | mapping {entries : Entries}
      (names : ∀ entry ∈ entries, ∃ name, entry.1 = .text name ∧ isSlotName name = true)
      (values : ∀ entry ∈ entries, SlotData entry.2) : SlotsData (.dict entries)

end

/-- The members that a configuration may have. -/
def configMembers : List String := ["template", "slots", "options"]

/-- The data is a configuration. -/
inductive ConfigData : Value → Prop
  /-- A mapping with a template, slots and options, each of which may be left out. -/
  | mapping {entries : Entries}
      (keys : ∀ entry ∈ entries, ∃ name ∈ configMembers, entry.1 = .text name.toList)
      (template : ∀ v, entries.field? "template" = some v → ∃ path, path ≠ [] ∧ v = .text path)
      (slots : ∀ v, entries.field? "slots" = some v → SlotsData v)
      (options : ∀ v, entries.field? "options" = some v →
        Form.options.rule [.text "options".toList] v = []) :
      ConfigData (.dict entries)

/-! ### What slots mean -/

section meaning

variable (f : Text → Text)

mutual

/-- The slot that data means, with paths passed through a function. -/
inductive SlotMeans : Value → Slot → Prop
  /-- A text means itself. -/
  | text (t : Text) : SlotMeans (.text t) (.literal t)
  /-- So does the text of a mapping without slots. -/
  | content {entries : Entries} {t : Text} (no_slots : entries.field? "slots" = none)
      (gives : Gives entries (.text t)) : SlotMeans (.dict entries) (.literal t)
  /-- A file without slots is taken as it is. -/
  | file {entries : Entries} {path : Text} (no_slots : entries.field? "slots" = none)
      (gives : Gives entries (.source path)) : SlotMeans (.dict entries) (.source (f path))
  /-- With slots, even none, there is a document. -/
  | document {entries : Entries} {body : Body} {given : Value} {slots : Slots}
      (has_slots : entries.field? "slots" = some given) (gives : Gives entries body)
      (inner : SlotsMean given slots) :
      SlotMeans (.dict entries) (.document (body.mapPath f) slots)

/-- The slots that data means: under the same names, in the same order. -/
inductive SlotsMean : Value → Slots → Prop
  /-- There are no more slots. -/
  | nil : SlotsMean (.dict []) []
  /-- A slot, and what follows. -/
  | cons {name : Text} {v : Value} {slot : Slot} {entries : Entries} {slots : Slots}
      (first : SlotMeans v slot) (rest : SlotsMean (.dict entries) slots) :
      SlotsMean (.dict ((.text name, v) :: entries)) ((.text name, slot) :: slots)

end

variable {f}

theorem Gives.unique {entries : Entries} {body other : Body} (gives : Gives entries body)
    (gives_other : Gives entries other) : body = other := by
  cases gives with
  | text content no_file =>
    cases gives_other with
    | text content' _ =>
      cases content.symm.trans content'
      rfl
    | source no_content _ _ => cases content.symm.trans no_content
  | source no_content file _ =>
    cases gives_other with
    | text content _ => cases content.symm.trans no_content
    | source _ file' _ =>
      cases file.symm.trans file'
      rfl

mutual

/-- Data means one slot at most. -/
theorem SlotMeans.unique {v : Value} {slot other : Slot} :
    SlotMeans f v slot → SlotMeans f v other → slot = other
  | .text t, means => by
    cases means
    rfl
  | .content no_slots gives, means => by
    cases means with
    | content _ gives' =>
      cases gives.unique gives'
      rfl
    | file _ gives' => cases gives.unique gives'
    | document has_slots _ _ => cases no_slots.symm.trans has_slots
  | .file no_slots gives, means => by
    cases means with
    | content _ gives' => cases gives.unique gives'
    | file _ gives' =>
      cases gives.unique gives'
      rfl
    | document has_slots _ _ => cases no_slots.symm.trans has_slots
  | .document has_slots gives inner, means => by
    cases means with
    | content no_slots _ => cases no_slots.symm.trans has_slots
    | file no_slots _ => cases no_slots.symm.trans has_slots
    | document has_slots' gives' inner' =>
      cases has_slots.symm.trans has_slots'
      rw [gives.unique gives', inner.unique inner']

/-- And slots in one way at most. -/
theorem SlotsMean.unique {v : Value} {slots others : Slots} :
    SlotsMean f v slots → SlotsMean f v others → slots = others
  | .nil, means => by
    cases means
    rfl
  | .cons first rest, means => by
    cases means with
    | cons first' rest' => rw [first.unique first', rest.unique rest']

end

end meaning

/-- The data means a template or a file of a slot that is at a path. -/
def PathIn (data : Value) (path : Text) : Prop :=
  (memberOf data "template").bind Value.text? = some path ∨
    ∃ slots, SlotsMean id ((memberOf data "slots").getD (.dict [])) slots ∧
      path ∈ Slots.sourcePaths slots

/-- The configuration that data means, in a file at a path. -/
structure ConfigMeans (places : FilePath.Places) (p : FilePath) (data : Value)
    (config : Configuration) : Prop where
  /-- The template is a normal path below the directory of the file. -/
  template : config.template = ((memberOf data "template").bind Value.text?).map (places.within p.parent)
  /-- So are the files of slots. Without slots in the data there are none. -/
  slots : SlotsMean (places.within p.parent) ((memberOf data "slots").getD (.dict [])) config.slots
  /-- The options are those of the data. -/
  options : config.options = ((memberOf data "options").bind Value.entries?).getD []
  /-- The configuration knows its file. -/
  path : config.path = p

/-! ### The form of slots -/

theorem isText_iff {v : Value} : isText v = true ↔ ∃ t, v = .text t := by
  unfold isText
  rw [Option.isSome_iff_exists]
  constructor
  · rintro ⟨t, found⟩
    exact ⟨t, Value.eq_text_of_text? found⟩
  · rintro ⟨t, rfl⟩
    exact ⟨t, rfl⟩

theorem isNonEmptyText_iff {v : Value} : isNonEmptyText v = true ↔ ∃ t, t ≠ [] ∧ v = .text t := by
  unfold isNonEmptyText
  rw [Option.any_eq_true]
  constructor
  · rintro ⟨t, found, nonempty⟩
    exact ⟨t, by simpa using nonempty, Value.eq_text_of_text? found⟩
  · rintro ⟨t, nonempty, rfl⟩
    exact ⟨t, rfl, by simpa using nonempty⟩

/-- The entry has the form of a member of a slot. -/
structure MemberForm (entry : Scalar × Value) : Prop where
  /-- The key is one of the names. -/
  key : ∃ name ∈ slotMembers, entry.1 = .text name.toList
  /-- The content is a text. -/
  content : entry.1 = .text "content".toList → ∃ t, entry.2 = .text t
  /-- The file is a path. -/
  file : entry.1 = .text "file".toList → ∃ path, path ≠ [] ∧ entry.2 = .text path
  /-- The slots have the form of slots. -/
  slots : entry.1 = .text "slots".toList → areSlots entry.2 = true

theorem areSlotMembers_cons {key : Scalar} {v : Value} {rest : Entries} :
    areSlotMembers ((key, v) :: rest) = true ↔ MemberForm (key, v) ∧ areSlotMembers rest = true := by
  rw [areSlotMembers, Bool.and_eq_true]
  refine and_congr_left fun _ => ?_
  have content_file : Scalar.text "content".toList ≠ .text "file".toList := by decide
  have content_slots : Scalar.text "content".toList ≠ .text "slots".toList := by decide
  have file_slots : Scalar.text "file".toList ≠ .text "slots".toList := by decide
  by_cases content : key = .text "content".toList
  · subst content
    rw [if_pos rfl, isText_iff]
    constructor
    · intro is_text
      exact ⟨⟨"content", by decide, rfl⟩, fun _ => is_text,
        fun same => absurd same content_file, fun same => absurd same content_slots⟩
    · intro form
      exact form.content rfl
  · rw [if_neg content]
    by_cases file : key = .text "file".toList
    · subst file
      rw [if_pos rfl, isNonEmptyText_iff]
      constructor
      · intro is_path
        exact ⟨⟨"file", by decide, rfl⟩, fun same => absurd same content, fun _ => is_path,
          fun same => absurd same file_slots⟩
      · intro form
        exact form.file rfl
    · rw [if_neg file, Bool.and_eq_true, decide_eq_true_eq]
      constructor
      · intro ⟨same, form⟩
        exact ⟨⟨"slots", by decide, same⟩, fun same => absurd same content,
          fun same => absurd same file, fun _ => form⟩
      · intro form
        obtain ⟨name, mem, same⟩ := form.key
        have is_slots : key = .text "slots".toList := by
          simp only [slotMembers, List.mem_cons, List.not_mem_nil, or_false] at mem
          rcases mem with rfl | rfl | rfl
          · exact absurd same content
          · exact absurd same file
          · exact same
        exact ⟨is_slots, form.slots is_slots⟩

theorem areSlotMembers_iff {entries : Entries} :
    areSlotMembers entries = true ↔ ∀ entry ∈ entries, MemberForm entry := by
  induction entries with
  | nil => simp [areSlotMembers]
  | cons entry rest ih => rw [areSlotMembers_cons, ih, List.forall_mem_cons]

theorem areSlotEntries_iff {entries : Entries} :
    areSlotEntries entries = true ↔
      ∀ entry ∈ entries, Rule.isNameKey entry.1 = true ∧ isSlot entry.2 = true := by
  induction entries with
  | nil => simp [areSlotEntries]
  | cons entry rest ih =>
    obtain ⟨key, v⟩ := entry
    rw [areSlotEntries, Bool.and_eq_true, Bool.and_eq_true, ih, List.forall_mem_cons]

/-! ### The reading of a slot -/

section reading

variable {entries : Entries} {place : Text}

/-- Without another name for a member, a value is picked under its name. -/
theorem pick_first {first second : Text} (absent : entries.get? (.text second) = none) :
    pick entries [first, second] place = .ok ((entries.get? (.text first)).getD .null) := by
  unfold pick
  cases found : entries.get? (.text first) with
  | none => simp [found, absent]
  | some v => simp [found, absent]

/-- A slot has no other names for its members. -/
theorem no_other_names (keys : ∀ entry ∈ entries, ∃ name ∈ slotMembers, entry.1 = .text name.toList) :
    entries.get? (.text "text".toList) = none ∧ entries.get? (.text "source".toList) = none := by
  have absent (name : String) (other : ∀ member ∈ slotMembers, member.toList ≠ name.toList) :
      entries.field? name = none := by
    cases found : entries.field? name with
    | none => rfl
    | some v =>
      obtain ⟨member, mem, same⟩ := keys _ (Entries.mem_of_field? found)
      exact absurd (Scalar.text.inj same).symm (other member mem)
  exact ⟨absent "text" (by decide), absent "source" (by decide)⟩

/-- The text and the file of a slot. -/
theorem picked (place : Text)
    (keys : ∀ entry ∈ entries, ∃ name ∈ slotMembers, entry.1 = .text name.toList) :
    pick entries textNames place = .ok ((entries.field? "content").getD .null) ∧
      pick entries sourceNames place = .ok ((entries.field? "file").getD .null) := by
  obtain ⟨no_text, no_source⟩ := no_other_names keys
  exact ⟨pick_first no_text, pick_first no_source⟩

/-- The slots of a mapping are those under their name. -/
theorem slotsEntry_eq : slotsEntry entries place =
    match entries.field? "slots" with
    | some given => slotsGiven given place
    | none => .ok [] := by
  induction entries with
  | nil => rfl
  | cons entry rest ih =>
    obtain ⟨key, v⟩ := entry
    rw [slotsEntry, Entries.field?, Entries.get?, Scalar.sameKey_text]
    by_cases same : key = .text "slots".toList
    · rw [if_pos same, if_pos (decide_eq_true same)]
    · rw [if_neg same, if_neg (by simpa using same), ih]
      rfl

/-- The record of a mapping with a text or a file. -/
theorem recordOf_gives (place : Text) {body : Body}
    (keys : ∀ entry ∈ entries, ∃ name ∈ slotMembers, entry.1 = .text name.toList)
    (gives : Gives entries body) (records : Except Invalid Entries) :
    ∃ text source, recordOf entries records place =
        (do return .document text source (.dict (← records))) ∧
      checkBody text source place = .ok body := by
  obtain ⟨text, source⟩ := picked place keys
  unfold recordOf
  rw [text, source]
  cases gives with
  | text content no_file =>
    rw [content, no_file]
    exact ⟨_, _, rfl, rfl⟩
  | source no_content file nonempty =>
    rw [no_content, file]
    refine ⟨_, _, rfl, ?_⟩
    obtain ⟨c, rest, rfl⟩ := List.exists_cons_of_ne_nil nonempty
    rfl

/-- A mapping with members of the right form that has a record gives a text or a file. -/
theorem gives_of_recordOf (form : ∀ entry ∈ entries, MemberForm entry)
    {records : Except Invalid Entries} {record : Value}
    (read : recordOf entries records place = .ok record) :
    (∃ body, Gives entries body) ∧ ∃ inner, records = .ok inner := by
  obtain ⟨text, source⟩ := picked place fun entry mem => (form entry mem).key
  unfold recordOf at read
  rw [text, source] at read
  cases content : entries.field? "content" with
  | none =>
    cases file : entries.field? "file" with
    | none =>
      rw [content, file] at read
      cases read
    | some v =>
      obtain ⟨path, nonempty, rfl⟩ := (form _ (Entries.mem_of_field? file)).file rfl
      rw [content, file] at read
      obtain ⟨inner, is_read, -⟩ := ok_of_bind (x := records) read
      exact ⟨⟨_, .source content file nonempty⟩, inner, is_read⟩
  | some v =>
    obtain ⟨t, rfl⟩ := (form _ (Entries.mem_of_field? content)).content rfl
    cases file : entries.field? "file" with
    | none =>
      rw [content, file] at read
      obtain ⟨inner, is_read, -⟩ := ok_of_bind (x := records) read
      exact ⟨⟨_, .text content file⟩, inner, is_read⟩
    | some v =>
      obtain ⟨path, -, rfl⟩ := (form _ (Entries.mem_of_field? file)).file rfl
      rw [content, file] at read
      cases read

/-- So does one that is read as a slot, and then its slots are read. -/
theorem gives_of_slotRecordOf (form : ∀ entry ∈ entries, MemberForm entry)
    {records : Except Invalid Entries} {record : Value}
    (read : slotRecordOf entries records place = .ok record) :
    (∃ body, Gives entries body) ∧
      ∀ given, entries.field? "slots" = some given → ∃ inner, records = .ok inner := by
  unfold slotRecordOf at read
  cases has_slots : entries.field? "slots" with
  | some given =>
    rw [has_slots] at read
    obtain ⟨gives, inner⟩ := gives_of_recordOf form read
    exact ⟨gives, fun _ _ => inner⟩
  | none =>
    refine ⟨?_, fun given found => absurd found (by simp)⟩
    rw [has_slots] at read
    obtain ⟨text, source⟩ := picked place fun entry mem => (form entry mem).key
    -- A text or a file alone is what the mapping gives; otherwise it is read as a document.
    cases content : entries.field? "content" with
    | none =>
      cases file : entries.field? "file" with
      | none =>
        simp only [text, source, content, file] at read
        exact (gives_of_recordOf form read).1
      | some v =>
        obtain ⟨path, nonempty, rfl⟩ := (form _ (Entries.mem_of_field? file)).file rfl
        exact ⟨_, .source content file nonempty⟩
    | some v =>
      obtain ⟨t, rfl⟩ := (form _ (Entries.mem_of_field? content)).content rfl
      cases file : entries.field? "file" with
      | none => exact ⟨_, .text content file⟩
      | some v =>
        obtain ⟨path, -, rfl⟩ := (form _ (Entries.mem_of_field? file)).file rfl
        simp only [text, source, content, file] at read
        exact (gives_of_recordOf form read).1

/-- The records of slots by name are those of the values, under names that are
    texts. -/
theorem slotRecords_ok {records : Entries} (read : slotRecords entries place = .ok records) :
    ∀ entry ∈ entries, (∃ name, entry.1 = .text name) ∧
      ∃ inside record, slotRecord entry.2 inside = .ok record := by
  induction entries generalizing records with
  | nil => exact fun _ mem => absurd mem List.not_mem_nil
  | cons entry rest ih =>
    obtain ⟨key, v⟩ := entry
    unfold slotRecords at read
    split at read
    · obtain ⟨record, first_read, read⟩ := ok_of_bind read
      obtain ⟨others, rest_read, -⟩ := ok_of_bind read
      intro entry mem
      rcases List.mem_cons.mp mem with rfl | mem
      · exact ⟨⟨_, rfl⟩, _, record, first_read⟩
      · exact ih rest_read entry mem
    · cases read

end reading

/-! ### What is accepted follows the grammar -/

/-- Data that has the form of a slot and is read as one is a slot by the grammar; and
    the same for slots by name. -/
structure FollowsGrammar (v : Value) : Prop where
  /-- As a slot. -/
  slot : ∀ place record, isSlot v = true → slotRecord v place = .ok record → SlotData v
  /-- As slots by name. -/
  slots : ∀ place records, areSlots v = true → slotsGiven v place = .ok records → SlotsData v

theorem followsGrammar {v : Value} (data : v.IsData) : FollowsGrammar v := by
  induction data with
  | scalar s =>
    constructor
    case slot =>
      intro place record form read
      cases s with
      | text t => exact .text t
      | _ => cases form
    case slots =>
      intro place records form read
      cases form
  | list each ih =>
    constructor
    case slot =>
      intro place record form read
      cases form
    case slots =>
      intro place records form read
      cases form
  | dict distinct each ih =>
    rename_i entries
    constructor
    case slot =>
      intro place record form read
      have members := areSlotMembers_iff.mp form
      obtain ⟨⟨body, gives⟩, inner_read⟩ := gives_of_slotRecordOf members read
      refine .mapping (fun entry mem => (members entry mem).key) gives fun given has_slots => ?_
      obtain ⟨inner, inner_eq⟩ := inner_read given has_slots
      rw [slotsEntry_eq, has_slots] at inner_eq
      have mem := Entries.mem_of_field? has_slots
      exact (ih _ mem).slots _ _ ((members _ mem).slots rfl) inner_eq
    case slots =>
      intro place records form read
      have each_form := areSlotEntries_iff.mp form
      have each_read := slotRecords_ok read
      refine .mapping (fun entry mem => ?_) fun entry mem => ?_
      · obtain ⟨⟨name, at_name⟩, -⟩ := each_read entry mem
        have fit := (each_form entry mem).1
        rw [at_name] at fit
        exact ⟨name, at_name, fit⟩
      · obtain ⟨-, inside, record, entry_read⟩ := each_read entry mem
        exact (ih entry mem).slot inside record (each_form entry mem).2 entry_read

/-! ### What follows the grammar is accepted -/

/-- The value is read as a slot, and as the one that it means. -/
structure ReadAsSlot (v : Value) : Prop where
  /-- It has the form of a slot. -/
  form : isSlot v = true
  /-- No integer in it has too many digits to be quoted. -/
  writable : v.isWritable = true
  /-- It is read wherever it stands. -/
  read : ∀ place, ∃ record slot, slotRecord v place = .ok record ∧ checkSlot record place = .ok slot ∧
    ∀ f, SlotMeans f v (slot.mapPaths f)

/-- The value is read as slots by name, and as those that it means. -/
structure ReadAsSlots (v : Value) : Prop where
  /-- It has the form of slots by name. -/
  form : areSlots v = true
  /-- No integer in it has too many digits to be quoted. -/
  writable : v.isWritable = true
  /-- It is read wherever it stands. -/
  read : ∀ place, ∃ records slots, slotsGiven v place = .ok records ∧
    checkSlots records place = .ok slots ∧ ∀ f, SlotsMean f v (Slots.mapPaths f slots)

/-- Slots that are read one by one are read together. -/
theorem readAsSlots {entries : Entries}
    (names : ∀ entry ∈ entries, ∃ name, entry.1 = .text name ∧ isSlotName name = true)
    (each : ∀ entry ∈ entries, ReadAsSlot entry.2) : ReadAsSlots (.dict entries) := by
  constructor
  case form =>
    refine areSlotEntries_iff.mpr fun entry mem => ?_
    obtain ⟨name, at_name, fit⟩ := names entry mem
    exact ⟨at_name ▸ fit, (each entry mem).form⟩
  case writable =>
    refine Value.areWritableEntries_iff.mpr fun entry mem => ⟨?_, (each entry mem).writable⟩
    obtain ⟨name, at_name, -⟩ := names entry mem
    rw [at_name]
    rfl
  case read =>
    intro place
    show ∃ records slots, slotRecords entries place = .ok records ∧ _
    induction entries with
    | nil => exact ⟨[], [], rfl, rfl, fun f => .nil⟩
    | cons entry rest ih =>
      obtain ⟨key, v⟩ := entry
      obtain ⟨name, rfl, -⟩ := names _ List.mem_cons_self
      obtain ⟨record, slot, first_read, first_checked, first_means⟩ :=
        (each _ List.mem_cons_self).read (slotPlace place (.text name))
      obtain ⟨records, slots, rest_read, rest_checked, rest_means⟩ :=
        ih (fun entry mem => names entry (List.mem_cons_of_mem _ mem))
          fun entry mem => each entry (List.mem_cons_of_mem _ mem)
      refine ⟨(.text name, record) :: records, (.text name, slot) :: slots, ?_, ?_, fun f => ?_⟩
      · rw [slotRecords, first_read, rest_read]
        rfl
      · rw [checkSlots, first_checked, rest_checked]
        rfl
      · exact .cons (first_means f) (rest_means f)

/-- A mapping of the grammar has members of the right form. -/
theorem memberForm {entries : Entries} {body : Body} (distinct : entries.Distinct)
    (keys : ∀ entry ∈ entries, ∃ name ∈ slotMembers, entry.1 = .text name.toList)
    (gives : Gives entries body)
    (slots : ∀ given, entries.field? "slots" = some given → areSlots given = true) :
    ∀ entry ∈ entries, MemberForm entry := by
  intro entry mem
  obtain ⟨key, v⟩ := entry
  -- No key occurs twice, so that an entry is what is found under its key.
  have found (name : String) (at_name : key = .text name.toList) : entries.field? name = some v :=
    Entries.field?_of_mem distinct (at_name ▸ mem)
  constructor
  case key => exact keys _ mem
  case content =>
    intro is_content
    have content := found "content" is_content
    cases gives with
    | text is_text no_file => exact ⟨_, Option.some.inj (content.symm.trans is_text)⟩
    | source no_content file nonempty =>
      rw [no_content] at content
      cases content
  case file =>
    intro is_file
    have file := found "file" is_file
    cases gives with
    | text is_text no_file =>
      rw [no_file] at file
      cases file
    | source no_content is_path nonempty =>
      exact ⟨_, nonempty, Option.some.inj (file.symm.trans is_path)⟩
  case slots => exact fun is_slots => slots v (found "slots" is_slots)

/-- A mapping of the grammar is read as a slot. -/
theorem readAsSlot {entries : Entries} {body : Body} (distinct : entries.Distinct)
    (keys : ∀ entry ∈ entries, ∃ name ∈ slotMembers, entry.1 = .text name.toList)
    (gives : Gives entries body)
    (slots : ∀ given, entries.field? "slots" = some given → ReadAsSlots given) :
    ReadAsSlot (.dict entries) := by
  have members := memberForm distinct keys gives fun given has_slots => (slots given has_slots).form
  constructor
  case form => exact areSlotMembers_iff.mpr members
  case writable =>
    refine Value.areWritableEntries_iff.mpr fun entry mem => ?_
    obtain ⟨key, v⟩ := entry
    obtain ⟨name, name_mem, at_name⟩ := keys _ mem
    refine ⟨at_name ▸ rfl, ?_⟩
    simp only [slotMembers, List.mem_cons, List.not_mem_nil, or_false] at name_mem
    rcases name_mem with rfl | rfl | rfl
    · obtain ⟨t, is_text⟩ := (members _ mem).content at_name
      exact is_text ▸ rfl
    · obtain ⟨path, -, is_path⟩ := (members _ mem).file at_name
      exact is_path ▸ rfl
    · exact (slots v (Entries.field?_of_mem distinct (at_name ▸ mem))).writable
  case read =>
    intro place
    show ∃ record slot, slotRecordOf entries (slotsEntry entries (slotsPlace place)) place = .ok record ∧ _
    unfold slotRecordOf
    rw [slotsEntry_eq]
    cases has_slots : entries.field? "slots" with
    | none =>
      obtain ⟨text, source⟩ := picked place keys
      simp only [text, source]
      cases gives with
      | text content no_file =>
        rw [content, no_file]
        exact ⟨_, _, rfl, rfl, fun f => .content has_slots (.text content no_file)⟩
      | source no_content file nonempty =>
        rw [no_content, file]
        obtain ⟨c, rest, rfl⟩ := List.exists_cons_of_ne_nil nonempty
        exact ⟨_, _, rfl, rfl, fun f => .file has_slots (.source no_content file nonempty)⟩
    | some given =>
      obtain ⟨records, inner, read, checked, means⟩ := (slots given has_slots).read (slotsPlace place)
      obtain ⟨text, source, record_eq, body_eq⟩ := recordOf_gives place keys gives (.ok records)
      simp only [read, record_eq]
      refine ⟨.document text source (.dict records), .document body inner, rfl, ?_, fun f => ?_⟩
      · rw [checkSlot, body_eq, checkSlotField, checked]
        rfl
      · exact .document has_slots gives (means f)

/-- Data that follows the grammar is read: as a slot, and as slots by name. -/
structure GrammarRead (v : Value) : Prop where
  /-- As a slot. -/
  slot : SlotData v → ReadAsSlot v
  /-- As slots by name. -/
  slots : SlotsData v → ReadAsSlots v

theorem grammarRead {v : Value} (data : v.IsData) : GrammarRead v := by
  induction data with
  | scalar s =>
    constructor
    case slot =>
      intro follows
      cases follows with
      | text t => exact ⟨rfl, rfl, fun place => ⟨_, _, rfl, rfl, fun f => .text t⟩⟩
    case slots =>
      intro follows
      cases follows
  | list each ih =>
    constructor
    case slot =>
      intro follows
      cases follows
    case slots =>
      intro follows
      cases follows
  | dict distinct each ih =>
    constructor
    case slot =>
      intro follows
      cases follows with
      | mapping keys gives slots =>
        refine readAsSlot distinct keys gives fun given has_slots => ?_
        exact (ih _ (Entries.mem_of_field? has_slots)).slots (slots given has_slots)
    case slots =>
      intro follows
      cases follows with
      | mapping names values =>
        exact readAsSlots names fun entry mem => (ih entry mem).slot (values entry mem)

/-! ### Configurations -/

section configurations

variable {data : Value}

theorem areSlots_of_rule {path : List Scalar} {v : Value} :
    Form.slots.rule path v = [] ↔ areSlots v = true := by
  rw [Form.slots_eq_nil]
  constructor
  · rintro ⟨entries, is_mapping, each⟩
    cases v with
    | dict own =>
      obtain rfl := Option.some.inj is_mapping
      exact areSlotEntries_iff.mpr each
    | sharedCache own =>
      obtain rfl := Option.some.inj is_mapping
      exact areSlotEntries_iff.mpr each
    | _ => cases is_mapping
  · intro form
    cases v with
    | dict own => exact ⟨own, rfl, areSlotEntries_iff.mp form⟩
    | sharedCache own => exact ⟨own, rfl, areSlotEntries_iff.mp form⟩
    | _ => cases form

/-- A mapping has the form of a configuration. -/
structure ConfigForm (entries : Entries) : Prop where
  /-- The keys are those of a configuration. -/
  keys : ∀ entry ∈ entries, ∃ name ∈ configMembers, entry.1 = .text name.toList
  /-- The template is a path. -/
  template : ∀ v, entries.field? "template" = some v → ∃ path, path ≠ [] ∧ v = .text path
  /-- The slots have the form of slots. -/
  slots : ∀ v, entries.field? "slots" = some v → areSlots v = true
  /-- The options follow their schema. -/
  options : ∀ v, entries.field? "options" = some v →
    Form.options.rule [.text "options".toList] v = []

theorem schemaFaults_dict {entries : Entries} :
    schemaFaults (.dict entries) = [] ↔ ConfigForm entries := by
  rw [schemaFaults_eq_nil, Form.config, Form.closed_eq_nil]
  constructor
  · rintro ⟨own, is_mapping, keys, each⟩
    obtain rfl := Option.some.inj is_mapping
    constructor
    case keys =>
      intro entry mem
      obtain ⟨m, m_mem, at_name⟩ := keys entry mem
      exact ⟨m.1, List.mem_map_of_mem (f := Prod.fst) m_mem, at_name⟩
    case template =>
      exact fun v found => Form.nonEmptyText_eq_nil.mp (each ("template", .nonEmptyText) (by simp) v found)
    case slots =>
      exact fun v found => areSlots_of_rule.mp (each ("slots", Form.slots.described "slots") (by simp) v found)
    case options =>
      exact fun v found => each ("options", Form.options.described "options") (by simp) v found
  · intro form
    refine ⟨entries, rfl, fun entry mem => ?_, fun m mem v found => ?_⟩
    · obtain ⟨name, name_mem, at_name⟩ := form.keys entry mem
      simp only [configMembers, List.mem_cons, List.not_mem_nil, or_false] at name_mem
      rcases name_mem with rfl | rfl | rfl
      · exact ⟨("template", .nonEmptyText), by simp, at_name⟩
      · exact ⟨("slots", Form.slots.described "slots"), by simp, at_name⟩
      · exact ⟨("options", Form.options.described "options"), by simp, at_name⟩
    · simp only [List.mem_cons, List.not_mem_nil, or_false] at mem
      rcases mem with rfl | rfl | rfl
      · exact Form.nonEmptyText_eq_nil.mpr (form.template v found)
      · exact areSlots_of_rule.mpr (form.slots v found)
      · exact form.options v found

/-- Data without faults is a mapping. -/
theorem dict_of_schemaFaults (is_data : data.IsData) (accepted : schemaFaults data = []) :
    ∃ entries : Entries, data = .dict entries := by
  obtain ⟨entries, is_mapping, -⟩ := Form.closed_eq_nil.mp (schemaFaults_eq_nil.mp accepted)
  cases is_data with
  | scalar s => cases is_mapping
  | list each => cases is_mapping
  | dict distinct each => exact ⟨_, rfl⟩

/-- What passes the schema and has slots that can be read follows the grammar. -/
theorem configData_of_accepted (is_data : data.IsData) (accepted : schemaFaults data = [])
    {place : Text} {records : Entries} (read : slotsGiven (slotsIn data) place = .ok records) :
    ConfigData data := by
  obtain ⟨entries, rfl⟩ := dict_of_schemaFaults is_data accepted
  have form := schemaFaults_dict.mp accepted
  refine .mapping form.keys form.template (fun v found => ?_) form.options
  have each : ∀ entry ∈ entries, entry.2.IsData := by
    cases is_data with
    | dict distinct each => exact each
  have is_v : slotsIn (.dict entries) = v := by
    unfold slotsIn memberOf
    rw [Rule.members?, Option.bind_some, found, Option.getD_some]
  rw [is_v] at read
  exact (followsGrammar (each _ (Entries.mem_of_field? found))).slots place records
    (form.slots v found) read

/-- What follows the grammar passes the schema. -/
theorem accepted_of_configData (is_data : data.IsData) (follows : ConfigData data) :
    schemaFaults data = [] := by
  cases follows with
  | mapping keys template slots options =>
    cases is_data with
    | dict distinct each =>
      refine schemaFaults_dict.mpr ⟨keys, template, fun v found => ?_, options⟩
      exact ((grammarRead (each _ (Entries.mem_of_field? found))).slots (slots v found)).form

/-- The slots of what follows the grammar are read, as what they mean. -/
theorem slotsIn_read (is_data : data.IsData) (follows : ConfigData data) (place : Text) :
    ∃ records slots, slotsGiven (slotsIn data) place = .ok records ∧
      checkSlots records place = .ok slots ∧
      ∀ f, SlotsMean f ((memberOf data "slots").getD (.dict [])) (Slots.mapPaths f slots) := by
  cases follows with
  | mapping keys template slots options =>
    cases is_data with
    | dict distinct each =>
      rename_i entries
      unfold slotsIn memberOf
      rw [Rule.members?, Option.bind_some]
      cases found : entries.field? "slots" with
      | none => exact ⟨[], [], rfl, rfl, fun f => .nil⟩
      | some v =>
        have read := (grammarRead (each _ (Entries.mem_of_field? found))).slots (slots v found)
        exact read.read place

/-- So both steps of reading slots give what they mean. -/
theorem slotsOf_slotsIn (is_data : data.IsData) (follows : ConfigData data) :
    ∃ slots, slotsOf (slotsIn data) = .ok slots ∧
      ∀ f, SlotsMean f ((memberOf data "slots").getD (.dict [])) (Slots.mapPaths f slots) := by
  obtain ⟨records, slots, read, checked, means⟩ := slotsIn_read is_data follows "slots".toList
  exact ⟨slots, bind_eq_ok.mpr ⟨records, read, checked⟩, means⟩

/-- The check of what follows the grammar comes to an end. -/
theorem isCheckable_of_configData (is_data : data.IsData) (follows : ConfigData data) :
    isCheckable data = true := by
  unfold isCheckable
  rw [accepted_of_configData is_data follows]
  refine List.all_eq_true.mpr fun slot mem => ?_
  obtain ⟨entry, entry_mem, rfl⟩ := List.mem_map.mp mem
  cases follows with
  | mapping keys template slots options =>
    cases is_data with
    | dict distinct each =>
      rename_i entries
      simp only [Rule.members?, Option.bind_some] at entry_mem
      cases found : entries.field? "slots" with
      | none => simp [found] at entry_mem
      | some v =>
        have read := (grammarRead (each _ (Entries.mem_of_field? found))).slots (slots v found)
        cases members : Rule.members? v with
        | none => simp [found, members] at entry_mem
        | some own =>
          simp only [found, Option.bind_some, members, Option.getD_some] at entry_mem
          exact (writable_of_members members read.writable entry entry_mem).2

/-- The slots of what follows the grammar mean what is read. -/
theorem namesPath_iff (is_data : data.IsData) (follows : ConfigData data) {path : Text} :
    NamesPath data path ↔ PathIn data path := by
  obtain ⟨slots, read, means⟩ := slotsOf_slotsIn is_data follows
  have means_slots := means id
  rw [Slots.mapPaths_id] at means_slots
  refine or_congr Iff.rfl ⟨?_, ?_⟩
  · rintro ⟨others, read_others, mem⟩
    cases read.symm.trans read_others
    exact ⟨slots, means_slots, mem⟩
  · rintro ⟨others, means_others, mem⟩
    exact ⟨slots, read, means_slots.unique means_others ▸ mem⟩

/-- What follows the grammar is a configuration in every file, with the meaning of the
    data, if the home directories are there that its paths start with. -/
theorem ofData_of_configData (is_data : data.IsData) (follows : ConfigData data)
    {places : FilePath.Places} (p : FilePath)
    (homes : ∀ path, PathIn data path → homeFault? places path = none) :
    ∃ config, Configuration.ofData places p data = .ok config ∧ ConfigMeans places p data config := by
  obtain ⟨slots, read, means⟩ := slotsOf_slotsIn is_data follows
  have accepted : Accepted places data slots := by
    constructor
    case checkable => exact isCheckable_of_configData is_data follows
    case accepted => exact accepted_of_configData is_data follows
    case slots => exact read
    case homes => exact fun path named => homes path ((namesPath_iff is_data follows).mp named)
  exact ⟨_, ofData_eq_ok.mpr ⟨slots, accepted, rfl⟩, rfl, means _, rfl, rfl⟩

theorem Accepted.configData {places : FilePath.Places} {slots : Slots}
    (accepted : Accepted places data slots) (is_data : data.IsData) : ConfigData data := by
  obtain ⟨records, read, -⟩ := ok_of_bind accepted.slots
  exact configData_of_accepted is_data accepted.accepted read

end configurations

/-! ### Files -/

/-- The configuration is that of some data in a file at a path. -/
def OfFile (places : FilePath.Places) (path : Text) (config : Configuration) : Prop :=
  ∃ data : Value, data.IsData ∧
    Configuration.ofData places (configPath places path) data = .ok config

section files

variable [DataReaders] [LawfulDataReaders] (places : FilePath.Places) (path : Text)

theorem readDataOr_ends (format : DataFormat) (p : FilePath) :
    FileProgram.Ends (fun result => ∀ v, result = .ok v → v.IsData)
      (FileProgram.readDataOr format p (.dict []) true) := by
  refine .bind (F := fun result => ∀ v, result = .ok v → v.IsData) ?_ fun result holds => ?_
  · refine .ask fun kind => ?_
    cases kind with
    | error fault => exact .done fun v read => by cases read
    | ok kind =>
      refine .ask fun bytes => ?_
      cases bytes with
      | error fault => exact .done fun v read => by cases read
      | ok bytes => exact .done fun v read => isData_ofBytes read
  · cases result with
    | error fault =>
      -- A strict reading excuses nothing.
      simp only [Bool.not_true, Bool.and_false, Bool.false_eq_true, if_false]
      exact .done fun v read => by cases read
    | ok v =>
      refine .done fun w read => ?_
      rw [← Except.ok.inj read]
      exact isData_orStandard _ (holds v rfl)

/-- Whatever the file system answers, a configuration is that of some data. -/
theorem load_ends : FileProgram.Ends (fun result => ∀ config, result = .ok config →
    OfFile places path config) (load places path) := by
  unfold load
  split
  · exact .done fun config read => by cases read
  · refine (readDataOr_ends _ _).bind fun result holds => ?_
    cases result with
    | error fault => exact .done fun config read => by cases read
    | ok v => exact .done fun config read => ⟨v, holds v rfl, read⟩

end files

/-! ### The main statement -/

/-- What becomes of data that stands in a configuration file. -/
structure ConfigGrammar (data : Value) : Prop where
  /-- It passes the schema, and its slots can be read, exactly if it follows the
      grammar. -/
  accepted : (schemaFaults data = [] ∧ ∃ records, slotsGiven (slotsIn data) "slots".toList = .ok records) ↔
    ConfigData data
  /-- Then it is a configuration, if the home directories are there that its paths start
      with, and not otherwise. -/
  loaded : ∀ places p, (∃ config, Configuration.ofData places p data = .ok config) ↔
    ConfigData data ∧ ∀ path, PathIn data path → homeFault? places path = none
  /-- The configuration is what the data means. -/
  meaning : ∀ {places p config}, Configuration.ofData places p data = .ok config →
    ConfigMeans places p data config

/-- Data is accepted exactly if it follows the grammar of configurations, and then
    it is read as what it means. -/
theorem config_grammar {data : Value} (is_data : data.IsData) : ConfigGrammar data := by
  constructor
  case accepted =>
    constructor
    · intro ⟨accepted, records, read⟩
      exact configData_of_accepted is_data accepted read
    · intro follows
      obtain ⟨records, slots, read, -, -⟩ := slotsIn_read is_data follows "slots".toList
      exact ⟨accepted_of_configData is_data follows, records, read⟩
  case loaded =>
    intro places p
    constructor
    · intro ⟨config, loaded⟩
      obtain ⟨slots, accepted, -⟩ := ofData_eq_ok.mp loaded
      have follows := accepted.configData is_data
      exact ⟨follows, fun path mem => accepted.homes path ((namesPath_iff is_data follows).mpr mem)⟩
    · intro ⟨follows, homes⟩
      obtain ⟨config, loaded, -⟩ := ofData_of_configData is_data follows p homes
      exact ⟨config, loaded⟩
  case meaning =>
    intro places p config loaded
    obtain ⟨slots, accepted, -⟩ := ofData_eq_ok.mp loaded
    have follows := accepted.configData is_data
    obtain ⟨meant, meant_eq, means⟩ := ofData_of_configData is_data follows p fun path mem =>
      accepted.homes path ((namesPath_iff is_data follows).mpr mem)
    rw [loaded] at meant_eq
    exact Except.ok.inj meant_eq ▸ means

/-- A slot that gives a file, and slots, of which there are none. -/
def emptyDocument (path : Text) : Value := .dict [(.text "file".toList, .text path),
  (.text "slots".toList, .dict [])]

/-- A configuration with one slot. -/
def oneSlot (name : Text) (slot : Value) : Value :=
  .dict [(.text "slots".toList, .dict [(.text name, slot)])]

theorem isData_emptyDocument (path : Text) : (emptyDocument path).IsData := by
  refine .dict (by simp [Entries.Distinct]) fun entry mem => ?_
  simp only [List.mem_cons, List.not_mem_nil, or_false] at mem
  rcases mem with rfl | rfl
  · exact .scalar _
  · exact .dict List.Pairwise.nil fun _ mem => absurd mem List.not_mem_nil

theorem isData_oneSlot {slot : Value} (is_data : slot.IsData) (name : Text) :
    (oneSlot name slot).IsData := by
  refine .dict (List.pairwise_singleton _ _) fun entry mem => ?_
  rw [List.mem_singleton.mp mem]
  refine .dict (List.pairwise_singleton _ _) fun entry mem => ?_
  rw [List.mem_singleton.mp mem]
  exact is_data

theorem slotData_emptyDocument {path : Text} (nonempty : path ≠ []) :
    SlotData (emptyDocument path) := by
  have gives : Gives [(.text "file".toList, .text path), (.text "slots".toList, .dict [])]
      (.source path) := .source rfl rfl nonempty
  refine .mapping (by simp [slotMembers]) gives fun given found => ?_
  obtain rfl := Option.some.inj found
  exact .mapping (fun _ mem => absurd mem List.not_mem_nil) fun _ mem => absurd mem List.not_mem_nil

theorem configData_oneSlot {slot : Value} (follows : SlotData slot) {name : Text}
    (fit : isSlotName name = true) : ConfigData (oneSlot name slot) := by
  refine .mapping (by simp [configMembers]) (fun v found => by cases found) (fun v found => ?_)
    fun v found => by cases found
  obtain rfl := Option.some.inj found
  refine .mapping (fun entry mem => ?_) fun entry mem => ?_
  · rw [List.mem_singleton.mp mem]
    exact ⟨name, rfl, fit⟩
  · rw [List.mem_singleton.mp mem]
    exact follows

/-- The slots of such a configuration are one document. -/
theorem slots_of_emptyDocument {f : Text → Text} {name path : Text} {slots : Slots}
    (means : SlotsMean f (.dict [(.text name, emptyDocument path)]) slots) :
    slots = [(.text name, .document (.source (f path)) [])] := by
  cases means with
  | cons first rest =>
    cases rest
    cases first with
    | content no_slots _ => cases no_slots
    | file no_slots _ => cases no_slots
    | document has_slots gives inner =>
      obtain rfl := Option.some.inj has_slots
      cases inner
      cases gives with
      | text content _ => cases content
      | source _ file _ =>
        have path_eq := Option.some.inj file
        simp only [Value.text, Value.scalar.injEq, Scalar.text.injEq] at path_eq
        subst path_eq
        rfl

/-- A slot with a file in another directory, and with slots, of which there are
    none. It means a document. -/
theorem config_grammar_nested :
    let places : FilePath.Places := { cwd := .ofText "/w".toList, home := .ofText "/h".toList }
    (oneSlot "a".toList (emptyDocument "../x.md".toList)).IsData ∧
    ∃ config, Configuration.ofData places (.ofText "/w/c/c.yaml".toList)
      (oneSlot "a".toList (emptyDocument "../x.md".toList)) = .ok config ∧
    config.slots = [(.text "a".toList, .document (.source "/w/x.md".toList) [])] := by
  intro places
  have is_data := isData_oneSlot (isData_emptyDocument "../x.md".toList) "a".toList
  have follows : ConfigData (oneSlot "a".toList (emptyDocument "../x.md".toList)) :=
    configData_oneSlot (slotData_emptyDocument (by decide)) (by decide)
  have grammar := config_grammar is_data
  have homes (path : Text) (mem : PathIn (oneSlot "a".toList (emptyDocument "../x.md".toList)) path) :
      homeFault? places path = none := by
    rcases mem with no_template | ⟨slots, means, mem⟩
    · cases no_template
    · obtain rfl := slots_of_emptyDocument means
      obtain rfl := List.mem_singleton.mp mem
      rfl
  obtain ⟨config, loaded⟩ :=
    (grammar.loaded places (.ofText "/w/c/c.yaml".toList)).mpr ⟨follows, homes⟩
  have means : SlotsMean _ (.dict [(.text "a".toList, emptyDocument "../x.md".toList)])
      config.slots := (grammar.meaning loaded).slots
  refine ⟨is_data, config, loaded, ?_⟩
  rw [slots_of_emptyDocument means]
  rfl

end Config

end MarkdownOutlets
