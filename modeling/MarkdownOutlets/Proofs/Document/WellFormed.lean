import MarkdownOutlets.Proofs.Composition.CheckedInput

/-! # Well-formed documents

  A caller gives a document as a record or as a mapping. The check reads it in
  two passes: mappings become records, with texts and functions in them turned
  into slots, and then the records are checked, in which nothing is turned into
  anything else. Records and mappings may hold each other.

  Here the same is said without passes and places. `Document.Denotes v d` says
  that the value is a well-formed form of the document. The main statement,
  `Document.well_formed`, says that exactly these values are accepted, and that
  the record that is made of one is a fixed point.
-/

namespace MarkdownOutlets

namespace Document

/-! ### Records -/

/-- The text and the source of a record, of which one is null, and the body that
    they make. -/
inductive BodyOf : (text source : Value) → Body → Prop
  /-- There is a text. -/
  | text (t : Text) : BodyOf (.text t) .null (.text t)
  /-- There is a path, which is not empty. -/
  | source {path : Text} (nonempty : path ≠ []) : BodyOf .null (.text path) (.source path)

mutual

/-- The value is the record of a slot. -/
inductive RecordOf : Value → Slot → Prop
  /-- A literal slot. -/
  | literal (t : Text) : RecordOf (.literal (.text t)) (.literal t)
  /-- A slot that refers to a source. -/
  | source {path : Text} (nonempty : path ≠ []) : RecordOf (.source (.text path)) (.source path)
  /-- A slot that is filled by a function. -/
  | callback (c : Callback) : RecordOf (.callback (.callable c)) (.callback c)
  /-- A document with a mapping of slots. -/
  | document {text source given : Value} {body : Body} {entries : Entries} {slots : Slots}
      (body_of : BodyOf text source body) (mapping : given.entries? = some entries)
      (each : RecordsOf entries slots) :
      RecordOf (.document text source given) (.document body slots)

/-- The values are the records of slots, under the same names. -/
inductive RecordsOf : List (Scalar × Value) → List (Scalar × Slot) → Prop
  /-- There are no more slots. -/
  | nil : RecordsOf [] []
  /-- A slot, and what follows. -/
  | cons (name : Scalar) {v : Value} {slot : Slot} {entries : List (Scalar × Value)}
      {slots : List (Scalar × Slot)} (first : RecordOf v slot) (rest : RecordsOf entries slots) :
      RecordsOf ((name, v) :: entries) ((name, slot) :: slots)

end

/-! ### Mappings -/

/-- A mapping has at most one of the names, and this is its value, or null. -/
inductive Picks (entries : Entries) (names : List Text) : Value → Prop
  /-- It has none of them. -/
  | none (absent : ∀ name ∈ names, entries.get? (.text name) = none) : Picks entries names .null
  /-- It has one of them. -/
  | one {name : Text} (mem : name ∈ names) {v : Value}
      (found : entries.get? (.text name) = some v)
      (only : ∀ other ∈ names, other ≠ name → entries.get? (.text other) = none) :
      Picks entries names v

/-- A mapping gives a text or a source, and this is the body that it makes. -/
inductive Gives (entries : Entries) : Body → Prop
  /-- Under the names of the text, or those of the source, there is a value. -/
  | body {text source : Value} {body : Body} (has_text : Picks entries textNames text)
      (has_source : Picks entries sourceNames source) (body_of : BodyOf text source body) :
      Gives entries body

/-- A body alone, as a slot. -/
def plainSlot : Body → Slot
  | .text t => .literal t
  | .source path => .source path

mutual

/-- The value is given for a slot in a mapping. -/
inductive SlotOf : Value → Slot → Prop
  /-- It is the record of a slot. -/
  | record {v : Value} {slot : Slot} (record_of : RecordOf v slot) : SlotOf v slot
  /-- A text means itself. -/
  | text (t : Text) : SlotOf (.text t) (.literal t)
  /-- A function is a slot. -/
  | callable (c : Callback) : SlotOf (.callable c) (.callback c)
  /-- A mapping without slots is a literal, or refers to a source. -/
  | plain {v : Value} {entries : Entries} {body : Body} (mapping : v.entries? = some entries)
      (no_slots : entries.field? "slots" = none) (gives : Gives entries body) :
      SlotOf v (plainSlot body)
  /-- A mapping with slots, even none, is a document. -/
  | document {v given : Value} {entries : Entries} {body : Body} {slots : Slots}
      (mapping : v.entries? = some entries) (has_slots : entries.field? "slots" = some given)
      (gives : Gives entries body) (inner : SlotsGivenBy given slots) :
      SlotOf v (.document body slots)

/-- The value is given for the slots of a document in a mapping. -/
inductive SlotsGivenBy : Value → Slots → Prop
  /-- It counts as absent. -/
  | absent {v : Value} (falsy : v.truthy = false) : SlotsGivenBy v []
  /-- It is a mapping. -/
  | mapping {v : Value} {entries : Entries} {slots : Slots} (mapping : v.entries? = some entries)
      (each : SlotsOf entries slots) : SlotsGivenBy v slots

/-- The values are given for slots by name, and all names are texts. -/
inductive SlotsOf : List (Scalar × Value) → List (Scalar × Slot) → Prop
  /-- There are no more slots. -/
  | nil : SlotsOf [] []
  /-- A slot, and what follows. -/
  | cons (name : Text) {v : Value} {slot : Slot} {entries : List (Scalar × Value)}
      {slots : List (Scalar × Slot)} (first : SlotOf v slot) (rest : SlotsOf entries slots) :
      SlotsOf ((.text name, v) :: entries) ((.text name, slot) :: slots)

end

/-- The value is a well-formed form of the document. -/
inductive Denotes : Value → Document → Prop
  /-- It is the record of the document. -/
  | record {v : Value} {d : Document} (record_of : RecordOf v d.toSlot) : Denotes v d
  /-- It is a mapping, which may give slots. -/
  | mapping {v : Value} {entries : Entries} {body : Body} {slots : Slots}
      (mapping : v.entries? = some entries) (gives : Gives entries body)
      (inner : SlotsGivenBy ((entries.field? "slots").getD .null) slots) :
      Denotes v { body, slots }

/-! ### The check of records -/

theorem eq_null_of_isNull {v : Value} (null : v.isNull = true) : v = .null := by
  unfold Value.isNull at null
  split at null
  · rfl
  · cases null

theorem checkBody_iff {text source : Value} {place : Text} {body : Body} :
    checkBody text source place = .ok body ↔ BodyOf text source body := by
  constructor
  · intro h
    unfold checkBody at h
    split at h
    · cases h
    · rename_i not_both
      split at h
      · cases h
      · split at h
        · rename_i has_text
          split at h
          · rename_i t is_text
            cases h
            obtain rfl := Value.eq_text_of_text? is_text
            have no_source : source.isNull = true := by simpa [has_text] using not_both
            rw [eq_null_of_isNull no_source]
            exact .text t
          · cases h
        · rename_i no_text
          split at h
          · rename_i c path is_path
            cases h
            obtain rfl := Value.eq_text_of_text? is_path
            rw [eq_null_of_isNull (v := text) (by simpa using no_text)]
            exact .source (List.cons_ne_nil c path)
          · cases h
  · intro body_of
    cases body_of with
    | text t => rfl
    | @source path nonempty =>
      cases path with
      | nil => exact absurd rfl nonempty
      | cons c rest => rfl

mutual

/-- A slot record is accepted exactly if it is the record of a slot. -/
theorem checkSlot_iff : (v : Value) → {place : Text} → {slot : Slot} →
    (checkSlot v place = .ok slot ↔ RecordOf v slot)
  | .literal text, place, slot => by
    rw [checkSlot]
    constructor
    · intro h
      split at h
      · rename_i t is_text
        cases h
        rw [Value.eq_text_of_text? is_text]
        exact .literal t
      · cases h
    · intro record_of
      cases record_of
      rfl
  | .source path, place, slot => by
    rw [checkSlot]
    constructor
    · intro h
      split at h
      · rename_i c rest is_path
        cases h
        rw [Value.eq_text_of_text? is_path]
        exact .source (List.cons_ne_nil c rest)
      · cases h
    · intro record_of
      cases record_of with
      | @source path nonempty =>
        cases path with
        | nil => exact absurd rfl nonempty
        | cons c rest => rfl
  | .callback func, place, slot => by
    unfold checkSlot
    constructor
    · intro h
      split at h
      · cases h
        exact .callback _
      · cases h
    · intro record_of
      cases record_of
      rfl
  | .document text source given, place, slot => by
    rw [checkSlot]
    constructor
    · intro h
      obtain ⟨body, body_ok, h⟩ := ok_of_bind h
      obtain ⟨slots, slots_ok, h⟩ := ok_of_bind h
      cases h
      obtain ⟨entries, mapping, each⟩ := (checkSlotField_iff given).mp slots_ok
      exact .document (checkBody_iff.mp body_ok) mapping each
    · intro record_of
      cases record_of with
      | document body_of mapping each =>
        rw [checkBody_iff.mpr body_of, (checkSlotField_iff given).mpr ⟨_, mapping, each⟩]
        rfl
  | .scalar _, _, _ | .list _, _, _ | .dict _, _, _ | .frozen, _, _ | .sharedCache _, _, _
  | .callable _, _, _ | .options _, _, _ => by
    unfold checkSlot
    constructor
    · intro h
      cases h
    · intro record_of
      cases record_of

/-- The field of slots is accepted exactly if it is a mapping of slot records. -/
theorem checkSlotField_iff : (v : Value) → {place : Text} → {slots : Slots} →
    (checkSlotField v place = .ok slots ↔
      ∃ entries, v.entries? = some entries ∧ RecordsOf entries slots)
  | .dict entries, place, slots | .sharedCache entries, place, slots => by
    unfold checkSlotField
    rw [checkSlots_iff entries]
    constructor
    · intro each
      exact ⟨entries, rfl, each⟩
    · rintro ⟨_, ⟨⟩, each⟩
      exact each
  | .frozen, place, slots => by
    unfold checkSlotField
    constructor
    · intro h
      cases h
      exact ⟨[], rfl, .nil⟩
    · rintro ⟨_, ⟨⟩, each⟩
      cases each
      rfl
  | .scalar _, _, _ | .list _, _, _ | .callable _, _, _ | .literal _, _, _ | .source _, _, _
  | .callback _, _, _ | .document .., _, _ | .options _, _, _ => by
    unfold checkSlotField
    constructor
    · intro h
      cases h
    · rintro ⟨_, ⟨⟩, -⟩

/-- So are the entries of such a mapping, one by one. -/
theorem checkSlots_iff : (entries : List (Scalar × Value)) → {place : Text} → {slots : Slots} →
    (checkSlots entries place = .ok slots ↔ RecordsOf entries slots)
  | [], place, slots => by
    rw [checkSlots]
    constructor
    · intro h
      cases h
      exact .nil
    · intro each
      cases each
      rfl
  | (name, v) :: entries, place, slots => by
    rw [checkSlots]
    constructor
    · intro h
      obtain ⟨slot, slot_ok, h⟩ := ok_of_bind h
      obtain ⟨others, others_ok, h⟩ := ok_of_bind h
      cases h
      exact .cons name ((checkSlot_iff v).mp slot_ok) ((checkSlots_iff entries).mp others_ok)
    · intro each
      cases each with
      | cons _ first rest =>
        rw [(checkSlot_iff v).mpr first, (checkSlots_iff entries).mpr rest]
        rfl

end

/-- A record has the fields of a document exactly if it is its record. -/
theorem ofFields_iff {record : Value} {place : Text} {d : Document} :
    ofFields place record = .ok d ↔ RecordOf record d.toSlot := by
  constructor
  · intro h
    unfold ofFields at h
    split at h
    · obtain ⟨body, body_ok, h⟩ := ok_of_bind h
      obtain ⟨slots, slots_ok, h⟩ := ok_of_bind h
      cases h
      obtain ⟨entries, mapping, each⟩ := (checkSlotField_iff _).mp slots_ok
      exact .document (checkBody_iff.mp body_ok) mapping each
    · cases h
  · intro record_of
    cases record_of with
    | document body_of mapping each =>
      rw [ofFields, checkBody_iff.mpr body_of, (checkSlotField_iff _).mpr ⟨_, mapping, each⟩]
      rfl

/-! ### The records of mappings -/

theorem pick_iff {entries : Entries} {names : List Text} (nodup : names.Nodup) {place : Text}
    {v : Value} : pick entries names place = .ok v ↔ Picks entries names v := by
  have mem_present (name : Text) :
      name ∈ names.filter (fun name => (entries.get? (.text name)).isSome) ↔
        name ∈ names ∧ (entries.get? (.text name)).isSome := List.mem_filter
  unfold pick
  constructor
  · intro h
    split at h
    · rename_i present
      cases h
      refine .none fun name mem => ?_
      rw [← Option.not_isSome_iff_eq_none]
      intro found
      have here := (mem_present name).mpr ⟨mem, found⟩
      rw [present] at here
      cases here
    · rename_i name present
      cases h
      -- The only name that is present is the one that is found.
      have here : name ∈ names ∧ (entries.get? (.text name)).isSome :=
        (mem_present name).mp (by simp [present])
      obtain ⟨w, found⟩ := Option.isSome_iff_exists.mp here.2
      rw [found, Option.getD_some]
      refine .one here.1 found fun other mem different => ?_
      rw [← Option.not_isSome_iff_eq_none]
      intro other_found
      have there := (mem_present other).mpr ⟨mem, other_found⟩
      rw [present, List.mem_singleton] at there
      exact different there
    · cases h
  · intro picks
    cases picks with
    | none absent =>
      have present : names.filter (fun name => (entries.get? (.text name)).isSome) = [] := by
        rw [List.filter_eq_nil_iff]
        intro name mem
        simp [absent name mem]
      rw [present]
    | @one name mem v found only =>
      have present : names.filter (fun name => (entries.get? (.text name)).isSome) = [name] := by
        rw [← List.perm_singleton, List.perm_ext_iff_of_nodup (nodup.filter _) (by simp)]
        intro other
        rw [mem_present, List.mem_singleton]
        constructor
        · rintro ⟨other_mem, other_found⟩
          apply Decidable.byContradiction
          intro different
          rw [only other other_mem different] at other_found
          cases other_found
        · rintro rfl
          exact ⟨mem, by rw [found]; rfl⟩
      rw [present]
      simp only [found, Option.getD_some]

section mapping

variable {entries : Entries} {records : Except Invalid Entries} {place : Text}

/-- The values of a mapping under the names of a body. -/
theorem picks_of_gives (place : Text) {body : Body} (gives : Gives entries body) :
    ∃ text source, pick entries textNames place = .ok text ∧
      pick entries sourceNames place = .ok source ∧ BodyOf text source body := by
  obtain ⟨has_text, has_source, body_of⟩ := gives
  exact ⟨_, _, (pick_iff (by decide)).mpr has_text, (pick_iff (by decide)).mpr has_source, body_of⟩

theorem gives_of_picks {text source : Value} {body : Body}
    (text_eq : pick entries textNames place = .ok text)
    (source_eq : pick entries sourceNames place = .ok source) (body_of : BodyOf text source body) :
    Gives entries body :=
  .body ((pick_iff (by decide)).mp text_eq) ((pick_iff (by decide)).mp source_eq) body_of

/-- The record of a mapping is that of a document exactly if the mapping gives a
    body, and its slots are those of the document. -/
theorem recordOf_iff {slot : Slot} :
    (∃ record, recordOf entries records place = .ok record ∧ RecordOf record slot) ↔
      ∃ body slots, Gives entries body ∧ (∃ inner, records = .ok inner ∧ RecordsOf inner slots) ∧
        slot = .document body slots := by
  constructor
  · rintro ⟨record, record_eq, record_of⟩
    obtain ⟨text, text_eq, h⟩ := ok_of_bind record_eq
    obtain ⟨source, source_eq, h⟩ := ok_of_bind h
    split at h
    · cases h
    · split at h
      · cases h
      · obtain ⟨inner, inner_eq, h⟩ := ok_of_bind h
        cases h
        cases record_of with
        | document body_of mapping each =>
          cases mapping
          exact ⟨_, _, gives_of_picks text_eq source_eq body_of, ⟨inner, inner_eq, each⟩, rfl⟩
  · rintro ⟨body, slots, gives, ⟨inner, rfl, each⟩, rfl⟩
    obtain ⟨text, source, text_eq, source_eq, body_of⟩ := picks_of_gives place gives
    refine ⟨.document text source (.dict inner), ?_, .document body_of rfl each⟩
    unfold recordOf
    rw [text_eq, source_eq]
    cases body_of <;> rfl

/-- Without slots, the slot record of a mapping is that of a literal or a source
    slot, exactly if the mapping gives a body. -/
theorem slotRecordOf_plain_iff (no_slots : entries.field? "slots" = none) {slot : Slot} :
    (∃ record, slotRecordOf entries records place = .ok record ∧ RecordOf record slot) ↔
      ∃ body, Gives entries body ∧ slot = plainSlot body := by
  unfold slotRecordOf
  rw [no_slots]
  constructor
  · rintro ⟨record, record_eq, record_of⟩
    obtain ⟨text, text_eq, h⟩ := ok_of_bind record_eq
    obtain ⟨source, source_eq, h⟩ := ok_of_bind h
    split at h
    · rename_i has_text
      cases h
      cases record_of with
      | literal t =>
        obtain rfl := eq_null_of_isNull (Bool.and_eq_true_iff.mp has_text).2
        exact ⟨_, gives_of_picks text_eq source_eq (.text t), rfl⟩
    · split at h
      · rename_i has_source
        cases h
        cases record_of with
        | source nonempty =>
          obtain rfl := eq_null_of_isNull (Bool.and_eq_true_iff.mp has_source).2
          exact ⟨_, gives_of_picks text_eq source_eq (.source nonempty), rfl⟩
      · -- Neither or both are there, and a document is refused as well.
        rename_i not_text not_source
        have refused := recordOf_iff.mp ⟨record, h, record_of⟩
        obtain ⟨body, slots, gives, -, -⟩ := refused
        obtain ⟨text', source', text_eq', source_eq', body_of⟩ := picks_of_gives place gives
        cases text_eq.symm.trans text_eq'
        cases source_eq.symm.trans source_eq'
        cases body_of with
        | text t => exact absurd rfl not_text
        | source nonempty => exact absurd rfl not_source
  · rintro ⟨body, gives, rfl⟩
    obtain ⟨text, source, text_eq, source_eq, body_of⟩ := picks_of_gives place gives
    rw [text_eq, source_eq]
    cases body_of with
    | text t => exact ⟨_, rfl, .literal t⟩
    | source nonempty => exact ⟨_, rfl, .source nonempty⟩

/-- A mapping is turned into the record of a slot exactly if it is given for that
    slot, provided that this is so for the slots in it. -/
theorem slotRecordOf_iff {v : Value} (mapping : v.entries? = some entries)
    (inner : ∀ slots, (∃ inner, records = .ok inner ∧ RecordsOf inner slots) ↔
      SlotsGivenBy ((entries.field? "slots").getD .null) slots) {slot : Slot} :
    (∃ record, slotRecordOf entries records place = .ok record ∧ RecordOf record slot) ↔
      SlotOf v slot := by
  have not_record (record_of : RecordOf v slot) : False := by
    cases record_of <;> cases mapping
  cases has_slots : entries.field? "slots" with
  | none =>
    rw [slotRecordOf_plain_iff has_slots]
    constructor
    · rintro ⟨body, gives, rfl⟩
      exact .plain mapping has_slots gives
    · intro slot_of
      cases slot_of with
      | record record_of => exact (not_record record_of).elim
      | text t => cases mapping
      | callable c => cases mapping
      | plain mapping' _ gives =>
        cases mapping.symm.trans mapping'
        exact ⟨_, gives, rfl⟩
      | document mapping' has_slots' =>
        cases mapping.symm.trans mapping'
        cases has_slots.symm.trans has_slots'
  | some given =>
    have as_document : slotRecordOf entries records place = recordOf entries records place := by
      unfold slotRecordOf
      rw [has_slots]
    rw [has_slots, Option.getD_some] at inner
    rw [as_document, recordOf_iff]
    constructor
    · rintro ⟨body, slots, gives, has_inner, rfl⟩
      exact .document mapping has_slots gives ((inner slots).mp has_inner)
    · intro slot_of
      cases slot_of with
      | record record_of => exact (not_record record_of).elim
      | text t => cases mapping
      | callable c => cases mapping
      | plain mapping' no_slots =>
        cases mapping.symm.trans mapping'
        cases has_slots.symm.trans no_slots
      | document mapping' has_slots' gives given_by =>
        cases mapping.symm.trans mapping'
        cases has_slots.symm.trans has_slots'
        exact ⟨_, _, gives, (inner _).mpr given_by, rfl⟩

end mapping

theorem slotsGivenBy_null {slots : Slots} : SlotsGivenBy .null slots ↔ slots = [] := by
  constructor
  · intro given_by
    cases given_by with
    | absent => rfl
    | mapping mapping => cases mapping
  · rintro rfl
    exact .absent rfl

/-- What is given for slots, when it is no mapping, counts as absent or is
    refused. -/
theorem slotsGiven_other_iff {v : Value} {place : Text} (other : v.entries? = none)
    (given_eq : slotsGiven v place =
      if v.truthy then .error (.slotsGivenNotMapping place v.kindName) else .ok [])
    {slots : Slots} :
    (∃ inner, slotsGiven v place = .ok inner ∧ RecordsOf inner slots) ↔ SlotsGivenBy v slots := by
  rw [given_eq]
  constructor
  · rintro ⟨inner, inner_eq, each⟩
    by_cases truthy : v.truthy = true
    · rw [if_pos truthy] at inner_eq
      cases inner_eq
    · rw [if_neg truthy] at inner_eq
      cases inner_eq
      cases each
      exact .absent (Bool.eq_false_iff.mpr truthy)
  · intro given_by
    cases given_by with
    | absent falsy =>
      rw [falsy]
      exact ⟨[], rfl, .nil⟩
    | mapping mapping => cases other.symm.trans mapping

/-- A mapping that is given for slots has them by name. When it is empty it
    counts as absent, which comes to the same. -/
theorem slotsGivenBy_mapping {v : Value} {entries : Entries} (mapping : v.entries? = some entries)
    (falsy : v.truthy = false → entries = []) {slots : Slots} :
    SlotsGivenBy v slots ↔ SlotsOf entries slots := by
  constructor
  · intro given_by
    cases given_by with
    | absent absent =>
      rw [falsy absent]
      exact .nil
    | mapping mapping' each =>
      cases mapping.symm.trans mapping'
      exact each
  · exact .mapping mapping

mutual

/-- A value is turned into the record of a slot exactly if it is given for
    that slot. -/
theorem slotRecord_iff : (v : Value) → {place : Text} → {slot : Slot} →
    ((∃ record, slotRecord v place = .ok record ∧ RecordOf record slot) ↔ SlotOf v slot)
  | .dict entries, place, slot => by
    rw [slotRecord]
    exact slotRecordOf_iff rfl fun slots => slotsEntry_iff entries
  | .sharedCache entries, place, slot => by
    rw [slotRecord]
    exact slotRecordOf_iff rfl fun slots => slotsEntry_iff entries
  | .frozen, place, slot => by
    rw [slotRecord]
    apply slotRecordOf_iff rfl
    intro slots
    show _ ↔ SlotsGivenBy .null slots
    rw [slotsGivenBy_null]
    constructor
    · rintro ⟨_, ⟨⟩, each⟩
      cases each
      rfl
    · rintro rfl
      exact ⟨[], rfl, .nil⟩
  | .literal _, place, slot | .source _, place, slot | .callback _, place, slot
  | .document .., place, slot => by
    -- A record stays as it is.
    unfold slotRecord
    constructor
    · rintro ⟨_, ⟨⟩, record_of⟩
      exact .record record_of
    · intro slot_of
      cases slot_of with
      | record record_of => exact ⟨_, rfl, record_of⟩
      | plain mapping => cases mapping
      | document mapping => cases mapping
  | .callable c, place, slot => by
    unfold slotRecord
    constructor
    · rintro ⟨_, ⟨⟩, record_of⟩
      cases record_of
      exact .callable c
    · intro slot_of
      cases slot_of with
      | record record_of => cases record_of
      | callable => exact ⟨_, rfl, .callback c⟩
      | plain mapping => cases mapping
      | document mapping => cases mapping
  | .scalar (.text t), place, slot => by
    unfold slotRecord
    constructor
    · rintro ⟨_, ⟨⟩, record_of⟩
      cases record_of
      exact .text t
    · intro slot_of
      cases slot_of with
      | record record_of => cases record_of
      | text => exact ⟨_, rfl, .literal t⟩
      | plain mapping => cases mapping
      | document mapping => cases mapping
  | .scalar .null, place, slot | .scalar (.bool _), place, slot | .scalar (.int _), place, slot
  | .scalar (.float _), place, slot | .scalar (.time _), place, slot | .list _, place, slot
  | .options _, place, slot => by
    unfold slotRecord
    constructor
    · rintro ⟨_, ⟨⟩, -⟩
    · intro slot_of
      cases slot_of with
      | record record_of => cases record_of
      | plain mapping => cases mapping
      | document mapping => cases mapping

/-- The slots of a mapping, one by one. -/
theorem slotRecords_iff : (entries : List (Scalar × Value)) → {place : Text} → {slots : Slots} →
    ((∃ records, slotRecords entries place = .ok records ∧ RecordsOf records slots) ↔
      SlotsOf entries slots)
  | [], place, slots => by
    rw [slotRecords]
    constructor
    · rintro ⟨_, ⟨⟩, each⟩
      cases each
      exact .nil
    · intro each
      cases each
      exact ⟨[], rfl, .nil⟩
  | (.text name, v) :: entries, place, slots => by
    rw [slotRecords]
    constructor
    · rintro ⟨records, records_eq, each⟩
      obtain ⟨first, first_eq, h⟩ := ok_of_bind records_eq
      obtain ⟨others, others_eq, h⟩ := ok_of_bind h
      cases h
      cases each with
      | cons _ first_of rest =>
        exact .cons name ((slotRecord_iff v).mp ⟨first, first_eq, first_of⟩)
          ((slotRecords_iff entries).mp ⟨others, others_eq, rest⟩)
    · intro each
      cases each with
      | cons _ first rest =>
        obtain ⟨record, record_eq, record_of⟩ := (slotRecord_iff v).mpr first
        obtain ⟨others, others_eq, rest_of⟩ := (slotRecords_iff entries).mpr rest
        refine ⟨(.text name, record) :: others, ?_, .cons _ record_of rest_of⟩
        rw [record_eq, others_eq]
        rfl
  | (.null, _) :: _, place, slots | (.bool _, _) :: _, place, slots | (.int _, _) :: _, place, slots
  | (.float _, _) :: _, place, slots | (.time _, _) :: _, place, slots => by
    unfold slotRecords
    constructor
    · rintro ⟨_, ⟨⟩, -⟩
    · intro each
      cases each

/-- The slots that a value gives to a document. -/
theorem slotsGiven_iff : (v : Value) → {place : Text} → {slots : Slots} →
    ((∃ records, slotsGiven v place = .ok records ∧ RecordsOf records slots) ↔
      SlotsGivenBy v slots)
  | .dict entries, place, slots | .sharedCache entries, place, slots => by
    rw [slotsGivenBy_mapping rfl (by simp [Value.truthy])]
    unfold slotsGiven
    exact slotRecords_iff entries
  | .frozen, place, slots => by
    rw [slotsGivenBy_mapping rfl (fun _ => rfl)]
    unfold slotsGiven
    constructor
    · rintro ⟨_, ⟨⟩, each⟩
      cases each
      exact .nil
    · intro each
      cases each
      exact ⟨[], rfl, .nil⟩
  | .scalar _, place, slots | .list _, place, slots | .callable _, place, slots
  | .literal _, place, slots | .source _, place, slots | .callback _, place, slots
  | .document .., place, slots | .options _, place, slots => by
    apply slotsGiven_other_iff rfl
    unfold slotsGiven
    rfl

/-- The slots under their name in a mapping. -/
theorem slotsEntry_iff : (entries : List (Scalar × Value)) → {place : Text} → {slots : Slots} →
    ((∃ records, slotsEntry entries place = .ok records ∧ RecordsOf records slots) ↔
      SlotsGivenBy ((Entries.field? entries "slots").getD .null) slots)
  | [], place, slots => by
    show _ ↔ SlotsGivenBy .null slots
    rw [slotsEntry, slotsGivenBy_null]
    constructor
    · rintro ⟨_, ⟨⟩, each⟩
      cases each
      rfl
    · rintro rfl
      exact ⟨[], rfl, .nil⟩
  | (name, v) :: entries, place, slots => by
    rw [slotsEntry, Entries.field?, Entries.get?, Scalar.sameKey_text]
    by_cases same : name = .text "slots".toList
    · rw [if_pos same, if_pos (decide_eq_true same)]
      exact slotsGiven_iff v
    · rw [if_neg same, if_neg (by simpa using same)]
      exact slotsEntry_iff entries

end

/-! ### The check of documents -/

/-- What is known of the check of a value, at any place of the input. -/
structure Checked (v : Value) : Prop where
  /-- The check gives a document exactly if the value is a well-formed form of
      it. -/
  accepted : ∀ place d, checkAt place v = .ok d ↔ Denotes v d
  /-- The check of an accepted value makes a record, in which there are the
      records of all slots. The record is the value itself unless that is a
      mapping. It is its own record, and the check gives the same document
      again. -/
  fixed : ∀ place d, checkAt place v = .ok d →
    ∃ record, recordAt place v = .ok record ∧ RecordOf record d.toSlot ∧
      (v.entries? = none → record = v) ∧
      ∀ other, recordAt other record = .ok record ∧ checkAt other record = .ok d

theorem recordAt_of_entries {v : Value} {entries : Entries} (mapping : v.entries? = some entries)
    (place : Text) :
    recordAt place v = recordOf entries (slotsEntry entries (slotsPlace place)) place := by
  have present : ¬ v.isNull = true := by
    intro null
    rw [eq_null_of_isNull null] at mapping
    cases mapping
  unfold recordAt
  rw [if_neg present, mapping]
  rfl

/-- The record of a slot is no mapping, and stays as it is. -/
theorem recordAt_of_recordOf {record : Value} {slot : Slot} (record_of : RecordOf record slot)
    (place : Text) : recordAt place record = .ok record := by
  cases record_of <;> rfl

/-- A value has the record of a document exactly if it is a well-formed form of
    it. -/
theorem recordAt_iff {v : Value} {place : Text} {d : Document} :
    (∃ record, recordAt place v = .ok record ∧ RecordOf record d.toSlot) ↔ Denotes v d := by
  cases mapping : v.entries? with
  | some entries =>
    rw [recordAt_of_entries mapping, recordOf_iff]
    constructor
    · rintro ⟨body, slots, gives, inner, slot_eq⟩
      cases slot_eq
      exact .mapping mapping gives ((slotsEntry_iff entries).mp inner)
    · intro denotes
      cases denotes with
      | record record_of => cases record_of; cases mapping
      | mapping mapping' gives inner =>
        cases mapping.symm.trans mapping'
        exact ⟨_, _, gives, (slotsEntry_iff entries).mpr inner, rfl⟩
  | none =>
    constructor
    · rintro ⟨record, record_eq, record_of⟩
      unfold recordAt at record_eq
      split at record_eq
      · cases record_eq
      · rw [mapping] at record_eq
        cases record_eq
        exact .record record_of
    · intro denotes
      cases denotes with
      | record record_of => exact ⟨v, recordAt_of_recordOf record_of place, record_of⟩
      | mapping mapping' => cases mapping.symm.trans mapping'

end Document

end MarkdownOutlets
