import Mathlib.Data.List.Nodup
import MarkdownOutlets.Config.Schema

/-! # What the schema accepts

  A value is accepted when no rule finds a fault in it. The lemmas say of each
  rule, and of the forms that are built from rules, which values these are; the
  order in which faults are listed does not matter.
-/

namespace MarkdownOutlets

namespace Config

theorem mergeSort_eq_nil {α : Type} {le : α → α → Bool} {as : List α} :
    as.mergeSort le = [] ↔ as = [] := by
  rw [← List.length_eq_zero_iff, List.length_mergeSort, List.length_eq_zero_iff]

variable {path : List Scalar} {v : Value}

namespace Rule

@[simp] theorem require_eq_nil {holds : Bool} {violation : Violation} :
    require holds path violation = [] ↔ holds = true := by
  cases holds <;> simp [require]

theorem all_eq_nil {rules : List Rule} :
    all rules path v = [] ↔ ∀ rule ∈ rules, rule path v = [] :=
  List.flatMap_eq_nil_iff

theorem kind_eq_nil {k : Kind} : kind k path v = [] ↔ isOfKind k v = true := require_eq_nil

theorem kind_object_eq_nil : kind .object path v = [] ↔ ∃ entries, members? v = some entries :=
  kind_eq_nil.trans Option.isSome_iff_exists

theorem choice_eq_nil {words : List Text} :
    choice words path v = [] ↔ ∃ word ∈ words, v = .text word := by
  unfold choice
  rw [require_eq_nil]
  constructor
  · intro chosen
    cases text : v.text? with
    | none => simp [text] at chosen
    | some word =>
      refine ⟨word, by simpa [text] using chosen, ?_⟩
      cases v with
      | scalar s => cases s <;> simp_all [Value.text?, Value.text]
      | _ => simp [Value.text?] at text
  · rintro ⟨word, mem, rfl⟩
    simpa [Value.text, Value.text?] using mem

/-- A mapping has only the given names as keys. -/
theorem closed_eq_nil {names : List Text} {entries : Entries} (members : members? v = some entries) :
    closed names path v = [] ↔ ∀ entry ∈ entries, ∃ name ∈ names, entry.1 = .text name := by
  unfold closed
  simp only [require_eq_nil, members, Option.getD_some, List.isEmpty_iff, mergeSort_eq_nil,
    List.filterMap_eq_nil_iff]
  simp

theorem member_eq_nil {name : String} {rule : Rule} {entries : Entries}
    (members : members? v = some entries) :
    member name rule path v = [] ↔
      ∀ x, entries.field? name = some x → rule (path ++ [.text name.toList]) x = [] := by
  unfold member
  rw [members, Option.bind_some]
  cases entries.field? name with
  | none => simp
  | some x => simp

end Rule

namespace Form

/-- A closed form accepts a mapping that has its members only, and accepts each
    of them. -/
theorem closed_eq_nil {members : List (String × Form)} :
    (closed members).rule path v = [] ↔ ∃ entries, Rule.members? v = some entries ∧
      (∀ entry ∈ entries, ∃ m ∈ members, entry.1 = .text m.1.toList) ∧
        ∀ m ∈ members, ∀ x, entries.field? m.1 = some x →
          m.2.rule (path ++ [.text m.1.toList]) x = [] := by
  unfold closed
  rw [Rule.all_eq_nil]
  simp only [List.cons_append, List.nil_append, List.forall_mem_cons, List.forall_mem_map,
    Rule.kind_object_eq_nil]
  -- A key is one of the names when it is the name of a member.
  have named (key : Scalar) : (∃ name ∈ members.map (·.1.toList), key = .text name) ↔
      ∃ m ∈ members, key = .text m.1.toList := by
    simp only [List.mem_map, exists_exists_and_eq_and]
  constructor
  · rintro ⟨⟨entries, is_object⟩, keys, each⟩
    rw [Rule.closed_eq_nil is_object] at keys
    refine ⟨entries, is_object, fun entry mem => (named _).mp (keys entry mem), fun m mem => ?_⟩
    exact (Rule.member_eq_nil is_object).mp (each m mem)
  · rintro ⟨entries, is_object, keys, each⟩
    refine ⟨⟨entries, is_object⟩, (Rule.closed_eq_nil is_object).mpr ?_, fun m mem => ?_⟩
    · exact fun entry mem => (named _).mpr (keys entry mem)
    · exact (Rule.member_eq_nil is_object).mpr (each m mem)

/-- A closed form accepts a mapping of one member when it accepts the member. -/
theorem closed_single {members : List (String × Form)} (distinct : (members.map Prod.fst).Nodup)
    {m : String × Form} (mem : m ∈ members) {x : Value} :
    (closed members).rule path (.object [(m.1, x)]) = [] ↔
      m.2.rule (path ++ [.text m.1.toList]) x = [] := by
  have field (key : String) : Entries.field? [(.text m.1.toList, x)] key =
      if m.1.toList = key.toList then some x else none := by
    simp [Entries.field?, Entries.get?]
  rw [closed_eq_nil]
  constructor
  · rintro ⟨entries, is_object, -, each⟩
    obtain rfl := Option.some.inj is_object
    exact each m mem x ((field m.1).trans (if_pos rfl))
  · intro accepted
    refine ⟨_, rfl, fun entry at_entry => ⟨m, mem, ?_⟩, fun other mem_other y found => ?_⟩
    · rw [List.mem_singleton.mp at_entry]
    · have one : (if m.1.toList = other.1.toList then some x else none) = some y :=
        (field other.1).symm.trans found
      split at one
      · rename_i same
        -- Members of one name are the same.
        obtain rfl := List.inj_on_of_nodup_map distinct mem mem_other (String.toList_inj.mp same)
        exact Option.some.inj one ▸ accepted
      · cases one

/-- Slots by name are accepted when each name follows the rule for names, and each
    value has the form of a slot. -/
theorem slots_eq_nil : slots.rule path v = [] ↔ ∃ entries, Rule.members? v = some entries ∧
    ∀ entry ∈ entries, Rule.isNameKey entry.1 = true ∧ isSlot entry.2 = true := by
  unfold slots
  rw [Rule.all_eq_nil]
  simp only [List.forall_mem_cons, Rule.kind_object_eq_nil, List.not_mem_nil, false_implies,
    implies_true, and_true]
  constructor
  · rintro ⟨⟨entries, is_object⟩, names, values⟩
    simp only [Rule.slotNames, Rule.everyValue, is_object, Option.getD_some,
      List.flatMap_eq_nil_iff, Rule.require_eq_nil] at names values
    exact ⟨entries, is_object, fun entry mem => ⟨names entry mem, values entry mem⟩⟩
  · rintro ⟨entries, is_object, each⟩
    simp only [Rule.slotNames, Rule.everyValue, is_object, Option.getD_some,
      List.flatMap_eq_nil_iff, Rule.require_eq_nil]
    exact ⟨⟨entries, rfl⟩, fun entry mem => (each entry mem).1, fun entry mem => (each entry mem).2⟩

end Form

theorem text_of_kind (accepted : (Form.kind .text).rule path v = []) : ∃ t, v = .text t := by
  have is_text := Rule.kind_eq_nil.mp accepted
  cases v with
  | scalar s =>
    cases s with
    | text t => exact ⟨t, rfl⟩
    | _ => cases is_text
  | _ => cases is_text

theorem Form.nonEmptyText_eq_nil : nonEmptyText.rule path v = [] ↔ ∃ t, t ≠ [] ∧ v = .text t := by
  unfold nonEmptyText
  rw [Rule.all_eq_nil]
  simp only [List.forall_mem_cons, List.not_mem_nil, false_implies, implies_true, and_true]
  constructor
  · rintro ⟨is_text, nonempty⟩
    obtain ⟨t, rfl⟩ := text_of_kind is_text
    refine ⟨t, ?_, rfl⟩
    rintro rfl
    cases nonempty
  · rintro ⟨t, nonempty, rfl⟩
    have not_empty : Value.text? (.text t) ≠ some [] := fun empty => nonempty (Option.some.inj empty)
    exact ⟨rfl, Rule.require_eq_nil.mpr (by simpa using not_empty)⟩

/-- The configuration is accepted. -/
theorem schemaFaults_eq_nil : schemaFaults v = [] ↔ Form.config.rule [] v = [] := by
  rw [schemaFaults, mergeSort_eq_nil]

/-- A configuration with slots only. -/
theorem schemaFaults_slots :
    schemaFaults (.object [("slots", v)]) = [] ↔ Form.slots.rule [.text "slots".toList] v = [] :=
  schemaFaults_eq_nil.trans
    (Form.closed_single (m := ("slots", Form.slots.described "slots")) (by decide) (by simp))

/-- A configuration with options only. -/
theorem schemaFaults_options :
    schemaFaults (.object [("options", v)]) = [] ↔
      Form.options.rule [.text "options".toList] v = [] :=
  schemaFaults_eq_nil.trans
    (Form.closed_single (m := ("options", Form.options.described "options")) (by decide) (by simp))

end Config

end MarkdownOutlets
