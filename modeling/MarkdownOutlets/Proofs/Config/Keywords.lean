import MarkdownOutlets.Config.Keywords
import MarkdownOutlets.Proofs.Config.Grammar

/-! # The rules and the schema

  Rules check a configuration, and the schema says in data what they check. To
  follow a reference does not make the schema smaller, so that no depth is
  enough for all values; but for every value the answer settles
  (`Settles`): from some depth on it stays the same.

  The main statement, `schema_describes`, says that the bundled schema, read
  keyword by keyword, accepts the data in which the rules find no fault, and no
  other.
-/

namespace MarkdownOutlets

namespace Config

/-! ### Answers that settle -/

/-- From some depth on the answer is that a condition holds. -/
def Settles (answer : (depth : Nat) → Bool) (holds : Prop) : Prop :=
  ∃ least, ∀ depth, least ≤ depth → (answer depth = true ↔ holds)

namespace Settles

variable {p q : Nat → Bool} {a b : Prop}

/-- An answer that does not depend on the depth. -/
theorem const (answer : Bool) : Settles (fun _ => answer) (answer = true) :=
  ⟨0, fun _ _ => Iff.rfl⟩

theorem congr (settles : Settles p a) (same : a ↔ b) : Settles p b := by
  obtain ⟨least, settles⟩ := settles
  exact ⟨least, fun depth enough => (settles depth enough).trans same⟩

theorem and (first : Settles p a) (second : Settles q b) :
    Settles (fun depth => p depth && q depth) (a ∧ b) := by
  obtain ⟨least, first⟩ := first
  obtain ⟨other, second⟩ := second
  refine ⟨max least other, fun depth enough => ?_⟩
  rw [Bool.and_eq_true, first depth (by omega), second depth (by omega)]

theorem or (first : Settles p a) (second : Settles q b) :
    Settles (fun depth => p depth || q depth) (a ∨ b) := by
  obtain ⟨least, first⟩ := first
  obtain ⟨other, second⟩ := second
  refine ⟨max least other, fun depth enough => ?_⟩
  rw [Bool.or_eq_true, first depth (by omega), second depth (by omega)]

/-- What is answered one schema further in settles as well. -/
theorem step (inner : Settles (fun depth => p (depth + 1)) a) : Settles p a := by
  obtain ⟨least, inner⟩ := inner
  refine ⟨least + 1, fun depth enough => ?_⟩
  obtain ⟨before, rfl⟩ : ∃ before, depth = before + 1 := ⟨depth - 1, by omega⟩
  exact inner before (by omega)

/-- One of two answers that are not both positive is. -/
theorem bne (first : Settles p a) (second : Settles q b) (apart : ¬(a ∧ b)) :
    Settles (fun depth => p depth != q depth) (a ∨ b) := by
  obtain ⟨least, first⟩ := first
  obtain ⟨other, second⟩ := second
  refine ⟨max least other, fun depth enough => ?_⟩
  rw [← first depth (by omega), ← second depth (by omega)] at apart ⊢
  cases hp : p depth <;> cases hq : q depth <;> simp_all

variable {α : Type} {r : Nat → α → Bool} {c : α → Prop}

/-- Answers about some things settle together. -/
theorem all {xs : List α} (each : ∀ x ∈ xs, Settles (r · x) (c x)) :
    Settles (fun depth => xs.all (r depth)) (∀ x ∈ xs, c x) := by
  induction xs with
  | nil => exact (const true).congr (by simp)
  | cons x rest ih =>
    have rest_settles := ih fun y mem => each y (List.mem_cons_of_mem x mem)
    exact ((each x List.mem_cons_self).and rest_settles).congr List.forall_mem_cons.symm

end Settles

/-! ### Keywords -/

@[simp] theorem ofKey?_word (k : Keyword) : Keyword.ofKey? (.text k.word.toList) = some k := by
  cases k <;> decide

@[simp] theorem text?_text (t : Text) : (Value.text t).text? = some t := rfl

@[simp] theorem members?_object (fields : List (String × Value)) :
    Rule.members? (.object fields) = some (fields.map fun f => (.text f.1.toList, f.2)) := rfl

@[simp] theorem ofWord?_word (k : Kind) : Kind.ofWord? k.word = some k := by
  cases k <;> decide

/-- A number is less than zero when it is negative and not a zero. -/
theorem isBelow_zero (v : Value) : Keyword.isBelow 0 v = Rule.isNegative v := by
  have float (x : Binary64) : x.isBelow 0 = x.isNegative := by
    cases x with
    | nan => rfl
    | infinite negative => rfl
    | finite negative significand exponent =>
      have numerator : (Binary64.quotient significand exponent).1 = 0 ↔ significand = 0 := by
        cases exponent with
        | ofNat e =>
          have power : 2 ^ e ≠ 0 := Nat.pos_iff_ne_zero.mp (Nat.two_pow_pos e)
          exact (Nat.mul_eq_zero.trans (or_iff_left power))
        | negSucc e => rfl
      unfold Binary64.isBelow Binary64.isNegative
      rw [Bool.eq_iff_iff]
      cases negative
      · simp
      · simpa [Nat.pos_iff_ne_zero] using not_congr numerator
  cases v with
  | scalar s =>
    cases s with
    | float x => exact float x
    | _ => rfl
  | _ => rfl

section keywords

variable (finds : (pattern t : Text) → Bool) (root : Value)

/-- A schema accepts the value if a condition holds, and only then. -/
def FitsSchema (schema v : Value) (holds : Prop) : Prop :=
  Settles (fun depth => accepts finds root depth schema v) holds

/-- A keyword of a schema with the given members does so with its argument. -/
def FitsKeyword (own : Entries) (k : Keyword) (argument v : Value) (holds : Prop) : Prop :=
  Settles (fun depth => k.accepts finds root (accepts finds root depth) own argument v) holds

variable {finds root} {own : Entries} {v : Value}

/-- A schema accepts what its keywords do. -/
theorem fits_keywords (keywords : List (Keyword × Value)) {holds : Prop}
    (settles : Settles (fun depth => keywords.all fun m =>
      m.1.accepts finds root (accepts finds root depth)
        (keywords.map fun m => (.text m.1.word.toList, m.2)) m.2 v) holds) :
    FitsSchema finds root (.object (keywords.map fun m => (m.1.word, m.2))) v holds := by
  refine .step ?_
  simpa [accepts, Value.object, List.all_map, Function.comp_def] using settles

/-- Members that are no keywords are not looked at. -/
theorem fits_annotated {entries annotated : Entries} {holds : Prop}
    (keywords : annotated.filter (fun member => (Keyword.ofKey? member.1).isSome) = entries)
    (names : Keyword.ownNames annotated = Keyword.ownNames entries)
    (settles : FitsSchema finds root (.dict entries) v holds) :
    FitsSchema finds root (.dict annotated) v holds := by
  have same_keyword (inner : Value → Value → Bool) (argument : Value) :
      Keyword.accepts finds root inner annotated argument v =
        Keyword.accepts finds root inner entries argument v := by
    funext k
    cases k <;> simp only [Keyword.accepts, names]
  -- Members that are filtered out would be accepted in any case.
  have filtered (f : Scalar × Value → Bool)
      (others : ∀ member, Keyword.ofKey? member.1 = none → f member = true) :
      annotated.all f = entries.all f := by
    rw [← keywords, List.all_filter]
    congr 1
    funext member
    cases found : Keyword.ofKey? member.1 with
    | none => simp [others member found]
    | some k => rfl
  have same (depth : Nat) : accepts finds root depth (.dict annotated) v =
      accepts finds root depth (.dict entries) v := by
    cases depth with
    | zero => rfl
    | succ depth =>
      simp only [accepts, same_keyword]
      refine filtered _ fun member found => ?_
      simp [found]
  unfold FitsSchema
  simp only [same]
  exact settles

theorem fits_type (k : Kind) :
    FitsKeyword finds root own .type (.text k.word) v (Rule.isOfKind k v = true) := by
  have answer (inner : Value → Value → Bool) :
      Keyword.accepts finds root inner own (.text k.word) v .type = Rule.isOfKind k v := by
    simp [Keyword.accepts]
  simpa only [FitsKeyword, answer] using Settles.const (Rule.isOfKind k v)

theorem fits_minLength :
    FitsKeyword finds root own .minLength (.int 1) v (v.text? ≠ some []) := by
  have answer (inner : Value → Value → Bool) :
      Keyword.accepts finds root inner own (.int 1) v .minLength = (v.text? != some []) := by
    simp only [Keyword.accepts, Value.int]
    cases v.text? with
    | none => rfl
    | some t =>
      cases t with
      | nil => rfl
      | cons c rest =>
        have long : (1 : Int) ≤ (c :: rest).length := Int.ofNat_le.mpr (Nat.succ_pos _)
        exact decide_eq_true long
  simpa only [FitsKeyword, answer, bne_iff_ne] using Settles.const (v.text? != some [])

theorem fits_minimum :
    FitsKeyword finds root own .minimum (.int 0) v (Rule.isNegative v = false) := by
  have answer (inner : Value → Value → Bool) :
      Keyword.accepts finds root inner own (.int 0) v .minimum = !Rule.isNegative v :=
    congrArg not (isBelow_zero v)
  simpa only [FitsKeyword, answer, Bool.not_eq_true'] using Settles.const (!Rule.isNegative v)

theorem fits_enum (words : List Text) :
    FitsKeyword finds root own .enum (.list (words.map .text)) v
      (∃ word ∈ words, v = .text word) := by
  have answer (inner : Value → Value → Bool) :
      Keyword.accepts finds root inner own (.list (words.map .text)) v .enum =
        v.text?.any words.contains := by
    simp only [Keyword.accepts]
    congr 1
    funext t
    rw [Bool.eq_iff_iff]
    simp
  have chosen : v.text?.any words.contains = true ↔ ∃ word ∈ words, v = .text word :=
    Rule.require_eq_nil.symm.trans (Rule.choice_eq_nil : Rule.choice words [] v = [] ↔ _)
  simpa only [FitsKeyword, answer] using (Settles.const (v.text?.any words.contains)).congr chosen

theorem fits_pattern {pattern : Text} {finds_in : Text → Bool}
    (same : ∀ t, finds pattern t = finds_in t) :
    FitsKeyword finds root own .pattern (.text pattern) v
      (∀ t, v.text? = some t → finds_in t = true) := by
  have answer (inner : Value → Value → Bool) :
      Keyword.accepts finds root inner own (.text pattern) v .pattern = v.text?.all finds_in := by
    simp only [Keyword.accepts, text?_text]
    cases v.text? with
    | none => rfl
    | some t => exact same t
  simpa only [FitsKeyword, answer, Option.all_eq_true] using Settles.const (v.text?.all finds_in)

theorem fits_ref {reference : Text} {schema : Value} {holds : Prop}
    (found : Keyword.definition? root reference = some schema)
    (inner : FitsSchema finds root schema v holds) :
    FitsKeyword finds root own .ref (.text reference) v holds := by
  have answer (accept : Value → Value → Bool) :
      Keyword.accepts finds root accept own (.text reference) v .ref = accept schema v := by
    simp [Keyword.accepts, found]
  unfold FitsKeyword
  simp only [answer]
  exact inner

theorem fits_oneOf {schema other : Value} {a b : Prop} (first : FitsSchema finds root schema v a)
    (second : FitsSchema finds root other v b) (apart : ¬(a ∧ b)) :
    FitsKeyword finds root own .oneOf (.list [schema, other]) v (a ∨ b) := by
  have answer (inner : Value → Value → Bool) :
      Keyword.accepts finds root inner own (.list [schema, other]) v .oneOf =
        (inner schema v != inner other v) := by
    simp only [Keyword.accepts]
    cases first : inner schema v <;> cases second : inner other v <;> simp [first, second]
  simpa only [FitsKeyword, answer] using Settles.bne first second apart

theorem fits_propertyNames {entries : Entries} {schema : Value} {c : Scalar → Prop}
    (members : Rule.members? v = some entries)
    (each : ∀ entry ∈ entries, FitsSchema finds root schema (.scalar entry.1) (c entry.1)) :
    FitsKeyword finds root own .propertyNames schema v (∀ entry ∈ entries, c entry.1) := by
  simpa only [FitsKeyword, Keyword.accepts, members, Option.getD_some] using Settles.all each

/-- Without other schemas for members, all of them are looked at. -/
theorem fits_additionalProperties {entries : Entries} {schema : Value} {c : Value → Prop}
    (members : Rule.members? v = some entries) (no_names : Keyword.ownNames own = [])
    (each : ∀ entry ∈ entries, FitsSchema finds root schema entry.2 (c entry.2)) :
    FitsKeyword finds root own .additionalProperties schema v (∀ entry ∈ entries, c entry.2) := by
  simpa only [FitsKeyword, Keyword.accepts, members, no_names, Entries.get?, Option.isSome_none,
    Bool.false_or, Option.getD_some] using Settles.all each

/-- Apart from the members with schemas, none is accepted. -/
theorem fits_closed {entries : Entries} (members : Rule.members? v = some entries) :
    FitsKeyword finds root own .additionalProperties (.bool false) v
      (∀ entry ∈ entries, ((Keyword.ownNames own).get? entry.1).isSome = true) := by
  have refuses (x : Value) : FitsSchema finds root (.bool false) x False := by
    refine ⟨0, fun depth _ => ?_⟩
    cases depth <;> simp [accepts, Value.bool]
  unfold FitsKeyword
  simp only [Keyword.accepts, members, Option.getD_some]
  refine Settles.all fun entry _ => ?_
  exact ((Settles.const _).or (refuses entry.2)).congr (or_iff_left id)

theorem fits_properties {entries : Entries} {parts : List (String × Form)}
    {c : String × Form → Value → Prop} (members : Rule.members? v = some entries)
    (each : ∀ part ∈ parts, ∀ x, entries.field? part.1 = some x →
      FitsSchema finds root part.2.schema x (c part x)) :
    FitsKeyword finds root own .properties (.object (parts.map fun part => (part.1, part.2.schema))) v
      (∀ part ∈ parts, ∀ x, entries.field? part.1 = some x → c part x) := by
  unfold FitsKeyword
  simp only [Keyword.accepts, members, members?_object, Option.getD_some, Option.bind_some,
    List.all_map, Function.comp_def]
  refine Settles.all fun part mem => ?_
  have settles := each part mem
  unfold Entries.field? at settles ⊢
  cases found : entries.get? (.text part.1.toList) with
  | none =>
    refine (Settles.const true).congr (iff_of_true rfl fun x absent => ?_)
    cases absent
  | some x =>
    refine (settles x found).congr ⟨fun accepted y same => ?_, fun each => each x rfl⟩
    exact Option.some.inj same ▸ accepted

end keywords

/-! ### Forms -/

section forms

variable {finds : (pattern t : Text) → Bool} {root : Value} {v : Value}

/-- The schema of a form accepts the value exactly if its rule does. -/
def Describes (finds : (pattern t : Text) → Bool) (root : Value) (f : Form) (v : Value) : Prop :=
  ∀ path, FitsSchema finds root f.schema v (f.rule path v = [])

theorem describes_kind (k : Kind) : Describes finds root (.kind k) v := by
  intro path
  refine fits_keywords [(.type, .text k.word)] ?_
  exact ((fits_type k).and (.const true)).congr (by simp [Form.kind, Rule.kind_eq_nil])

theorem describes_nonEmptyText : Describes finds root .nonEmptyText v := by
  intro path
  refine fits_keywords [(.type, .text Kind.text.word), (.minLength, .int 1)] ?_
  refine ((fits_type .text).and (fits_minLength.and (.const true))).congr ?_
  simp [Form.nonEmptyText, Rule.all_eq_nil, Rule.kind_eq_nil, Rule.nonEmpty]

theorem describes_natural : Describes finds root .natural v := by
  intro path
  refine fits_keywords [(.type, .text Kind.integer.word), (.minimum, .int 0)] ?_
  refine ((fits_type .integer).and (fits_minimum.and (.const true))).congr ?_
  simp [Form.natural, Rule.all_eq_nil, Rule.kind_eq_nil, Rule.nonNegative]

theorem describes_choice (words : List Text) : Describes finds root (.choice words) v := by
  intro path
  refine fits_keywords [(.enum, .list (words.map .text))] ?_
  refine ((fits_enum words).and (.const true)).congr ?_
  simp [Form.choice, Rule.choice_eq_nil]

theorem describes_described {name : String} {f : Form}
    (found : Keyword.definition? root ("#/$defs/".toList ++ name.toList) = some f.schema)
    (inner : Describes finds root f v) : Describes finds root (f.described name) v := by
  intro path
  refine fits_keywords [(.ref, .text ("#/$defs/".toList ++ name.toList))] ?_
  exact ((fits_ref found (inner path)).and (.const true)).congr (and_iff_left rfl)

/-- A value that is no mapping is not accepted as one. -/
theorem fits_no_object {keywords : List (Keyword × Value)} (no_object : Rule.members? v = none) :
    FitsSchema finds root
      (.object (((Keyword.type, .text Kind.object.word) :: keywords).map fun m => (m.1.word, m.2)))
      v False := by
  refine fits_keywords _ ?_
  have refused : Rule.isOfKind .object v = false := by rw [Rule.isOfKind, no_object]; rfl
  refine ⟨0, fun depth _ => ?_⟩
  simp [Keyword.accepts, refused]

/-- A mapping has a value under each name of a list, and under no other key. -/
theorem isSome_get?_names {members : List (String × Form)} {key : Scalar} :
    (Entries.get? (members.map fun m => (.text m.1.toList, m.2.schema)) key).isSome = true ↔
      ∃ m ∈ members, key = .text m.1.toList := by
  induction members with
  | nil => simp [Entries.get?]
  | cons m rest ih =>
    rw [List.map_cons, Entries.get?, Scalar.text_sameKey]
    by_cases same : key = .text m.1.toList
    · simp [same]
    · simp [same, ih]

theorem describes_closed {members : List (String × Form)}
    (each : ∀ m ∈ members, ∀ entries x, Rule.members? v = some entries →
      entries.field? m.1 = some x → Describes finds root m.2 x) :
    Describes finds root (.closed members) v := by
  intro path
  let keywords : List (Keyword × Value) :=
    [(.type, .text Kind.object.word), (.additionalProperties, .bool false),
     (.properties, .object (members.map fun m => (m.1, m.2.schema)))]
  have schema_eq : (Form.closed members).schema = .object (keywords.map fun m => (m.1.word, m.2)) := rfl
  have own_names : Keyword.ownNames (keywords.map fun m => (.text m.1.word.toList, m.2)) =
      members.map fun m => (.text m.1.toList, m.2.schema) := by
    simp [keywords, Keyword.ownNames, Keyword.word, Entries.field?, Entries.get?]
  rw [schema_eq]
  cases is_object : Rule.members? v with
  | none =>
    refine (fits_no_object is_object).congr (iff_of_false id fun accepted => ?_)
    obtain ⟨entries, found, -⟩ := Form.closed_eq_nil.mp accepted
    cases is_object.symm.trans found
  | some entries =>
    refine fits_keywords keywords (((fits_type .object).and ((fits_closed is_object).and
      ((fits_properties is_object fun m mem x found =>
        each m mem entries x is_object found (path ++ [.text m.1.toList])).and
          (.const true)))).congr ?_)
    rw [Form.closed_eq_nil]
    simp only [is_object, Option.some.injEq, exists_eq_left', own_names, isSome_get?_names,
      Rule.isOfKind, Option.isSome_some, true_and, and_true]

end forms

/-! ### Slots -/

section slots

/-- The key of a mapping follows the rule for names exactly if it fits the schema of
    names. -/
theorem fits_name {finds : (pattern t : Text) → Bool} {root : Value}
    (names : ∀ t, finds slotNamePattern t = isSlotName t) (key : Scalar) :
    FitsSchema finds root (.object [("pattern", .text slotNamePattern)]) (.scalar key)
      (Rule.isNameKey key = true) := by
  refine fits_keywords [(.pattern, .text slotNamePattern)] ?_
  refine ((fits_pattern names).and (.const true)).congr ?_
  cases key <;> simp [Value.text?, Rule.isNameKey]

/-- The definitions of a schema that the schemas of configurations and slots refer to. -/
structure Defines (root : Value) : Prop where
  /-- Slots by name. -/
  slots : Keyword.definition? root ("#/$defs/".toList ++ "slots".toList) = some Form.slots.schema
  /-- A slot. -/
  slot : Keyword.definition? root ("#/$defs/".toList ++ "slot".toList) = some Form.slot.schema
  /-- Options. -/
  options :
    Keyword.definition? root ("#/$defs/".toList ++ "options".toList) = some Form.options.schema

theorem schema_defines : Defines schema where
  slots := by rfl
  slot := by rfl
  options := by rfl

/-- The members that a slot may have, with their forms. -/
def slotForms : List (String × Form) :=
  [("content", .kind .text), ("file", .nonEmptyText), ("slots", Form.slots.described "slots")]

theorem areSlots_iff {v : Value} (path : List Scalar) :
    areSlots v = true ↔ Form.slots.rule path v = [] := by
  rw [Form.slots_eq_nil]
  cases v with
  | dict entries => simp [areSlots, Rule.members?, areSlotEntries_iff]
  | sharedCache entries => simp [areSlots, Rule.members?, areSlotEntries_iff]
  | _ => simp [areSlots, Rule.members?]

/-- The entries of a mapping without repeated keys have the form of a slot exactly
    if the closed form with these members accepts it. -/
theorem areSlotMembers_iff_closed {entries : Entries} (distinct : entries.Distinct)
    (path : List Scalar) :
    areSlotMembers entries = true ↔ (Form.closed slotForms).rule path (.dict entries) = [] := by
  rw [areSlotMembers_iff, Form.closed_eq_nil]
  simp only [Rule.members?, Option.some.injEq, exists_eq_left']
  have key_iff (key : Scalar) : (∃ m ∈ slotForms, key = .text m.1.toList) ↔
      ∃ name ∈ slotMembers, key = .text name.toList := by
    simp [slotForms, slotMembers]
  constructor
  · intro each
    refine ⟨fun entry mem => (key_iff _).mpr (each entry mem).key, fun m mem x found => ?_⟩
    have form := each _ (Entries.mem_of_field? found)
    simp only [slotForms, List.mem_cons, List.not_mem_nil, or_false] at mem
    rcases mem with rfl | rfl | rfl
    · obtain ⟨t, rfl⟩ := form.content rfl
      rfl
    · exact Form.nonEmptyText_eq_nil.mpr (form.file rfl)
    · exact (areSlots_iff _).mp (form.slots rfl)
  · rintro ⟨keys, each⟩ ⟨key, x⟩ mem
    have accepted (m : String × Form) (member : m ∈ slotForms) (same : key = .text m.1.toList) :
        m.2.rule (path ++ [.text m.1.toList]) x = [] :=
      each m member x (Entries.field?_of_mem distinct (same ▸ mem))
    exact {
      key := (key_iff _).mp (keys _ mem)
      content := fun same => text_of_kind (accepted ("content", .kind .text) (by simp [slotForms]) same)
      file := fun same => Form.nonEmptyText_eq_nil.mp
        (accepted ("file", .nonEmptyText) (by simp [slotForms]) same)
      slots := fun same => (areSlots_iff _).mpr
        (accepted ("slots", Form.slots.described "slots") (by simp [slotForms]) same) }

theorem isSlot_iff {v : Value} (data : v.IsData) (path : List Scalar) :
    isSlot v = true ↔
      (Form.kind .text).rule path v = [] ∨ (Form.closed slotForms).rule path v = [] := by
  have no_object (none : Rule.members? v = none) : (Form.closed slotForms).rule path v ≠ [] := by
    intro accepted
    obtain ⟨entries, found, -⟩ := Form.closed_eq_nil.mp accepted
    cases none.symm.trans found
  rw [show (Form.kind .text).rule path v = [] ↔ Rule.isOfKind .text v = true from Rule.kind_eq_nil]
  cases data with
  | scalar s => cases s <;> simp [isSlot, Rule.isOfKind, no_object rfl]
  | list each => simp [isSlot, Rule.isOfKind, no_object rfl]
  | dict distinct each => simp [isSlot, Rule.isOfKind, areSlotMembers_iff_closed distinct path]

variable {finds : (pattern t : Text) → Bool} {root : Value}

theorem describes_slots (names : ∀ t, finds slotNamePattern t = isSlotName t)
    (defines : Defines root) {v : Value}
    (each : ∀ entries, Rule.members? v = some entries → ∀ entry ∈ entries,
      Describes finds root .slot entry.2) : Describes finds root .slots v := by
  intro path
  let keywords : List (Keyword × Value) :=
    [(.type, .text Kind.object.word),
     (.propertyNames, .object [("pattern", .text slotNamePattern)]),
     (.additionalProperties, (Form.slot.described "slot").schema)]
  have schema_eq : Form.slots.schema = .object (keywords.map fun m => (m.1.word, m.2)) := by rfl
  rw [schema_eq]
  cases is_object : Rule.members? v with
  | none =>
    refine (fits_no_object is_object).congr (iff_of_false id fun accepted => ?_)
    obtain ⟨entries, found, -⟩ := Form.slots_eq_nil.mp accepted
    cases is_object.symm.trans found
  | some entries =>
    have no_names : Keyword.ownNames (keywords.map fun m => (.text m.1.word.toList, m.2)) = [] := by
      simp [keywords, Keyword.ownNames, Keyword.word, Entries.field?, Entries.get?]
    have slot_fits (entry : Scalar × Value) (mem : entry ∈ entries) :
        FitsSchema finds root (Form.slot.described "slot").schema entry.2 (isSlot entry.2 = true) :=
      (describes_described defines.slot (each entries is_object entry mem) []).congr
        Rule.require_eq_nil
    refine fits_keywords keywords (((fits_type .object).and
      ((fits_propertyNames (c := fun key => Rule.isNameKey key = true) is_object
        fun entry _ => fits_name names entry.1).and
        ((fits_additionalProperties (c := fun x => isSlot x = true) is_object no_names
          slot_fits).and (.const true)))).congr ?_)
    rw [Form.slots_eq_nil]
    simp only [is_object, Option.some.injEq, exists_eq_left', Rule.isOfKind, Option.isSome_some,
      true_and, and_true]
    constructor
    · rintro ⟨names, values⟩ entry mem
      exact ⟨names entry mem, values entry mem⟩
    · intro each
      exact ⟨fun entry mem => (each entry mem).1, fun entry mem => (each entry mem).2⟩

/-- No text is a mapping, and so only one of the two forms of a slot accepts. -/
theorem describes_slot (defines : Defines root) {v : Value} (data : v.IsData)
    (each : ∀ entries, Rule.members? v = some entries → ∀ entry ∈ entries,
      Describes finds root .slots entry.2) : Describes finds root .slot v := by
  intro path
  refine fits_keywords [(.oneOf, .list [(Form.kind .text).schema, (Form.closed slotForms).schema])] ?_
  have closed : Describes finds root (.closed slotForms) v := by
    refine describes_closed fun m mem entries x is_object found => ?_
    simp only [slotForms, List.mem_cons, List.not_mem_nil, or_false] at mem
    rcases mem with rfl | rfl | rfl
    · exact describes_kind .text
    · exact describes_nonEmptyText
    · exact describes_described defines.slots
        (each entries is_object _ (Entries.mem_of_field? found))
  have apart : ¬((Form.kind .text).rule path v = [] ∧ (Form.closed slotForms).rule path v = []) := by
    rintro ⟨is_text, is_closed⟩
    obtain ⟨t, rfl⟩ := text_of_kind is_text
    obtain ⟨entries, is_object, -⟩ := Form.closed_eq_nil.mp is_closed
    cases is_object
  refine ((fits_oneOf (describes_kind .text path) (closed path) apart).and (.const true)).congr ?_
  simp only [and_true, ← isSlot_iff data path]
  exact Rule.require_eq_nil.symm

/-- Of data, slots and slots by name are accepted exactly if their schemas accept them. -/
theorem describes_data (names : ∀ t, finds slotNamePattern t = isSlotName t)
    (defines : Defines root) {v : Value} (data : v.IsData) :
    Describes finds root .slot v ∧ Describes finds root .slots v := by
  -- Slots and slots by name refer to each other for the values of a mapping.
  induction data with
  | scalar s =>
    have no_members (entries : Entries) (found : Rule.members? (.scalar s) = some entries) : False := by
      cases found
    exact ⟨describes_slot defines (.scalar s) fun entries found => (no_members entries found).elim,
      describes_slots names defines fun entries found => (no_members entries found).elim⟩
  | @list items each ih =>
    have no_members (entries : Entries) (found : Rule.members? (.list items) = some entries) : False := by
      cases found
    exact ⟨describes_slot defines (.list each) fun entries found => (no_members entries found).elim,
      describes_slots names defines fun entries found => (no_members entries found).elim⟩
  | @dict entries distinct each ih =>
    constructor
    · refine describes_slot defines (.dict distinct each) fun found same entry mem => ?_
      cases same
      exact (ih entry mem).2
    · refine describes_slots names defines fun found same entry mem => ?_
      cases same
      exact (ih entry mem).1

theorem describes_options {v : Value} : Describes finds root .options v := by
  refine describes_closed fun m mem entries x is_object found => ?_
  simp only [List.mem_cons, List.not_mem_nil, or_false] at mem
  rcases mem with rfl | rfl | rfl | rfl | rfl | rfl
  · exact describes_kind .text
  · exact describes_choice _
  · exact describes_natural
  · exact describes_choice _
  · exact describes_choice _
  · exact describes_kind .boolean

end slots

/-! ### Configurations -/

theorem describes_config {finds : (pattern t : Text) → Bool} {root : Value}
    (names : ∀ t, finds slotNamePattern t = isSlotName t) (defines : Defines root) {v : Value}
    (data : v.IsData) : Describes finds root .config v := by
  refine describes_closed fun m mem entries x is_object found => ?_
  have part_data : x.IsData := by
    cases data with
    | dict distinct each =>
      cases is_object
      exact each _ (Entries.mem_of_field? found)
    | _ => cases is_object
  simp only [List.mem_cons, List.not_mem_nil, or_false] at mem
  rcases mem with rfl | rfl | rfl
  · exact describes_nonEmptyText
  · exact describes_described defines.slots (describes_data names defines part_data).2
  · exact describes_described defines.options describes_options

/-- The bundled schema, read by its keywords, accepts the data in which the rules find
    no fault, and no other. The pattern for names is left to whatever finds it. -/
theorem schema_describes {finds : (pattern t : Text) → Bool}
    (names : ∀ t, finds slotNamePattern t = isSlotName t) {v : Value} (data : v.IsData) :
    ∃ file, schema? schemaName = some file ∧
      Settles (fun depth => accepts finds file.data depth file.data v) (file.faults v = []) := by
  have found : schema? schemaName = some { data := schema, faults := schemaFaults } := by rfl
  have keywords : ∃ entries annotated, Form.config.schema = .dict entries ∧
      schema = .dict annotated ∧
      annotated.filter (fun member => (Keyword.ofKey? member.1).isSome) = entries ∧
      Keyword.ownNames annotated = Keyword.ownNames entries :=
    ⟨_, _, rfl, rfl, rfl, rfl⟩
  obtain ⟨entries, annotated, config_eq, schema_eq, filtered, own_names⟩ := keywords
  have described := describes_config names schema_defines data []
  rw [config_eq] at described
  refine ⟨_, found, Settles.congr ?_ schemaFaults_eq_nil.symm⟩
  have fits := fits_annotated filtered own_names described
  rwa [← schema_eq] at fits

example : accepts (fun _ t => isSlotName t) schema 8 schema
    (.object [("slots", .object [("a b", .text "x".toList)])]) = false := by
  rfl

end Config

end MarkdownOutlets
