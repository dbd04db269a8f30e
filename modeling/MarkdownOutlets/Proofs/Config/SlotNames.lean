import MarkdownOutlets.Config.SlotArgument
import MarkdownOutlets.Proofs.Config.Schema
import MarkdownOutlets.Proofs.Template.Grammar

/-! # Names of outlets and of slots

  Three rules say what a name is: that of markers, that of slot arguments and
  that of configurations. All of them mean a run of ASCII letters, digits,
  hyphens and underscores, and none of them says just that. A marker is read
  without regard to case, and four letters outside of ASCII fold to ASCII ones.
  The pattern of the other two is also found in front of a line feed at the end.

  The main statement, `name_rules`, says for every text which of the rules it
  follows. The rules agree on names with neither of the two.
-/

namespace MarkdownOutlets

/-! ### Names of outlets -/

namespace Marker

/-- The letters outside of ASCII that fold to an ASCII letter: the dotted capital
    and the dotless small i, the long s, and the Kelvin sign. -/
def foldedLetters : List Char := ['İ', 'ı', 'ſ', '\u212a']

theorem isAlphanum_toLower (c : Char) : c.toLower.isAlphanum = c.isAlphanum := by
  by_cases capital : 65 ≤ c.toNat ∧ c.toNat ≤ 90
  · have codes : ∀ n < 91, (Char.ofNat n).toLower.isAlphanum = (Char.ofNat n).isAlphanum := by decide
    simpa using codes c.toNat (by omega)
  · rw [toLower_eq_self capital]

/-- A character of an outlet name is one of a slot name, or folds to one. -/
theorem isNameChar_iff {c : Char} :
    isNameChar c = true ↔ Config.isSlotNameChar c = true ∨ c ∈ foldedLetters := by
  by_cases folded : c ∈ foldedLetters
  · have all_fold : ∀ c ∈ foldedLetters, isNameChar c = true := by
      simp [foldedLetters, isNameChar, fold]
    simp [all_fold c folded, folded]
  · have fold_eq : fold c = c.toLower := by
      simp only [foldedLetters, List.mem_cons, List.not_mem_nil, or_false, not_or] at folded
      simp [fold, folded]
    simp [isNameChar, Config.isSlotNameChar, fold_eq, isAlphanum_toLower, folded]

/-- The marker of a name, as one writes it. -/
def write (name : Text) : Text := "<!-- outlet: ".toList ++ (name ++ " -->".toList)

theorem Names.name_characters {m name : Text} (names : Names m name) :
    name ≠ [] ∧ ∀ c ∈ name, isNameChar c = true := by
  obtain ⟨-, -, -, -, nonempty, characters, -⟩ := names
  exact ⟨nonempty, characters⟩

theorem names_write {name : Text} (nonempty : name ≠ [])
    (characters : ∀ c ∈ name, isNameChar c = true) : Names (write name) name :=
  @Names.intro [' '] "outlet".toList [] [' '] name [' '] rfl (by decide) rfl rfl nonempty
    characters rfl

/-- There is no code block in a marker that stands on one line. -/
theorem regions_write {name : Text} (characters : ∀ c ∈ name, isNameChar c = true) :
    Region.ofText (write name) = [] := by
  have one_line : '\n' ∉ write name := by
    intro mem
    rcases List.mem_append.mp mem with mem | mem
    · exact absurd mem (by decide)
    · rcases List.mem_append.mp mem with mem | mem
      · exact absurd (characters _ mem) (by decide)
      · exact absurd mem (by decide)
  have lines : Line.ofText (write name) = [⟨0, write name⟩] := by
    rw [Line.ofText, Text.split_of_notMem one_line]
    rfl
  rw [Region.ofText, lines]
  rfl

end Marker

/-- Some text has an outlet of the name. -/
def IsOutletName (name : Text) : Prop := ∃ t, ∃ o ∈ (Template.ofText t).outlets, o.name = name

theorem isOutletName_iff {name : Text} :
    IsOutletName name ↔ name ≠ [] ∧ ∀ c ∈ name, Marker.isNameChar c = true := by
  constructor
  · rintro ⟨t, o, mem, rfl⟩
    obtain ⟨-, -, -, names⟩ := Occurrence.mem_ofText_iff.mp (List.mem_of_mem_filter mem)
    exact names.name_characters
  · rintro ⟨nonempty, characters⟩
    refine ⟨Marker.write name, ⟨name, 0, (Marker.write name).length, Marker.write name⟩, ?_, rfl⟩
    have found := Occurrence.mem_ofText_iff (t := Marker.write name)
      (o := ⟨name, 0, (Marker.write name).length, Marker.write name⟩)
    simp only [Template.ofText, Marker.regions_write characters, List.any_nil, Bool.not_false,
      List.filter_true]
    exact found.mpr ⟨Nat.zero_le _, Nat.le_refl _, by simp [Text.slice],
      Marker.names_write nonempty characters⟩

/-! ### Names of slots -/

namespace Config

/-- The name is a run of ASCII letters, digits, hyphens and underscores. -/
def IsPlainName (name : Text) : Prop := name ≠ [] ∧ ∀ c ∈ name, isSlotNameChar c = true

theorem isSlotName_iff {name : Text} :
    isSlotName name = true ↔ ∃ plain, IsPlainName plain ∧ (name = plain ∨ name = plain ++ ['\n']) := by
  have follows (t : Text) : (decide (t ≠ []) && t.all isSlotNameChar) = true ↔ IsPlainName t := by
    simp [IsPlainName]
  unfold isSlotName
  rw [follows, Text.dropFinalNewline]
  constructor
  · intro plain
    split at plain
    · rename_i newline
      exact ⟨_, plain, .inr (List.dropLast_append_getLast? _ newline).symm⟩
    · exact ⟨name, plain, .inl rfl⟩
  · rintro ⟨plain, is_plain, rfl | rfl⟩
    · -- A plain name does not end with a line feed, so nothing is dropped.
      rwa [if_neg]
      intro newline
      exact absurd (is_plain.2 _ (List.mem_of_getLast? newline)) (by decide)
    · simpa using is_plain

/-- What stands in front of the first separator has none. -/
theorem cutFirst_append {sep : Char} {front : Text} (not_mem : sep ∉ front) (back : Text) :
    Text.cutFirst sep (front ++ sep :: back) = some (front, back) := by
  induction front with
  | nil => simp [Text.cutFirst]
  | cons c front ih =>
    rw [List.mem_cons, not_or] at not_mem
    rw [List.cons_append, Text.cutFirst, if_neg (Ne.symm not_mem.1), ih not_mem.2]
    rfl

/-- A slot argument may give the name any value. -/
def IsArgumentName (name : Text) : Prop :=
  ∀ value, SlotArguments.parseOne (name ++ '=' :: value) = .ok (name, value)

theorem isArgumentName_iff {name : Text} : IsArgumentName name ↔ isSlotName name = true := by
  constructor
  · intro parses
    have parses := parses []
    unfold SlotArguments.parseOne at parses
    split at parses
    · cases parses
    · split at parses
      · cases parses
      · split at parses
        · cases parses
        · rename_i follows
          cases parses
          simpa using follows
  · intro follows value
    obtain ⟨plain, is_plain, cases⟩ := isSlotName_iff.mp follows
    have no_equals : '=' ∉ plain := fun mem => absurd (is_plain.2 _ mem) (by decide)
    have not_mem : '=' ∉ name := by
      rcases cases with rfl | rfl
      · exact no_equals
      · simpa using no_equals
    have nonempty : name ≠ [] := by
      rintro rfl
      cases follows
    simp [SlotArguments.parseOne, cutFirst_append not_mem, nonempty, follows]

/-- A configuration that gives a slot of the name a text. -/
def slotConfig (name : Text) : Value :=
  .object [("slots", .dict [(.text name, .text "x".toList)])]

/-- A configuration may give a slot of the name a text. -/
def IsConfigName (name : Text) : Prop := schemaFaults (slotConfig name) = []

theorem isConfigName_iff {name : Text} : IsConfigName name ↔ isSlotName name = true := by
  rw [IsConfigName, slotConfig, schemaFaults_slots, Form.slots_eq_nil]
  constructor
  · rintro ⟨names, is_object, each⟩
    obtain rfl := Option.some.inj is_object
    exact (each _ (List.mem_singleton_self _)).1
  · intro follows
    refine ⟨_, rfl, fun entry mem => ?_⟩
    rw [List.mem_singleton.mp mem]
    exact ⟨follows, rfl⟩

end Config

/-! ### The three rules -/

open Config

/-- Which of the rules for names a text follows. -/
structure NameRules (name : Text) : Prop where
  /-- Outlets have names of plain characters and of letters that fold to one. -/
  outlet : IsOutletName name ↔
    name ≠ [] ∧ ∀ c ∈ name, isSlotNameChar c = true ∨ c ∈ Marker.foldedLetters
  /-- Slot arguments use plain names, which a line feed may follow. -/
  argument : IsArgumentName name ↔
    ∃ plain, IsPlainName plain ∧ (name = plain ∨ name = plain ++ ['\n'])
  /-- So do configurations. -/
  config : IsConfigName name ↔
    ∃ plain, IsPlainName plain ∧ (name = plain ∨ name = plain ++ ['\n'])
  /-- Without folded letters and such a line feed, all use plain names. -/
  agree : (∀ c ∈ name, c ∉ Marker.foldedLetters) → name.getLast? ≠ some '\n' →
    (IsOutletName name ↔ IsPlainName name) ∧ (IsArgumentName name ↔ IsPlainName name) ∧
      (IsConfigName name ↔ IsPlainName name)
  /-- Without folded letters, the outlet of a name can be filled by both. -/
  fillable : (∀ c ∈ name, c ∉ Marker.foldedLetters) → IsOutletName name →
    IsArgumentName name ∧ IsConfigName name
  /-- Without a line feed at the end, a name that one of them uses is that of an outlet. -/
  matched : name.getLast? ≠ some '\n' → IsArgumentName name ∨ IsConfigName name →
    IsOutletName name

/-- The rules for names are the same but for letters that fold to ASCII ones and
    for a line feed at the end. -/
theorem name_rules (name : Text) : NameRules name := by
  have outlet : IsOutletName name ↔
      name ≠ [] ∧ ∀ c ∈ name, isSlotNameChar c = true ∨ c ∈ Marker.foldedLetters := by
    simp only [isOutletName_iff, Marker.isNameChar_iff]
  have of_plain (plain : IsPlainName name) : IsOutletName name ∧ isSlotName name = true :=
    ⟨outlet.mpr ⟨plain.1, fun c mem => .inl (plain.2 c mem)⟩,
      isSlotName_iff.mpr ⟨name, plain, .inl rfl⟩⟩
  have plain_of_outlet (unfolded : ∀ c ∈ name, c ∉ Marker.foldedLetters)
      (is_outlet : IsOutletName name) : IsPlainName name := by
    obtain ⟨nonempty, characters⟩ := outlet.mp is_outlet
    exact ⟨nonempty, fun c mem => (characters c mem).resolve_right (unfolded c mem)⟩
  have plain_of_slot (no_feed : name.getLast? ≠ some '\n') (follows : isSlotName name = true) :
      IsPlainName name := by
    obtain ⟨plain, is_plain, rfl | rfl⟩ := isSlotName_iff.mp follows
    · exact is_plain
    · simp at no_feed
  constructor
  case outlet => exact outlet
  case argument => exact isArgumentName_iff.trans isSlotName_iff
  case config => exact isConfigName_iff.trans isSlotName_iff
  case agree =>
    intro unfolded no_feed
    rw [isArgumentName_iff, isConfigName_iff]
    have slot : isSlotName name = true ↔ IsPlainName name :=
      ⟨plain_of_slot no_feed, fun plain => (of_plain plain).2⟩
    exact ⟨⟨plain_of_outlet unfolded, fun plain => (of_plain plain).1⟩, slot, slot⟩
  case fillable =>
    intro unfolded is_outlet
    rw [isArgumentName_iff, isConfigName_iff, and_self]
    exact (of_plain (plain_of_outlet unfolded is_outlet)).2
  case matched =>
    intro no_feed is_slot
    rw [isArgumentName_iff, isConfigName_iff, or_self] at is_slot
    exact (of_plain (plain_of_slot no_feed is_slot)).1

/-- An outlet whose name is a dotless small i cannot be filled, and a name with a
    line feed behind it, which both of the other rules let pass, is that of no
    outlet. -/
theorem alphabets_differ :
    (IsOutletName "ı".toList ∧ ¬ IsArgumentName "ı".toList ∧ ¬ IsConfigName "ı".toList ∧
      ¬ IsPlainName "ı".toList) ∧
    (IsArgumentName "a\n".toList ∧ IsConfigName "a\n".toList ∧ ¬ IsOutletName "a\n".toList ∧
      ¬ IsPlainName "a\n".toList) := by
  have dotless : Marker.isNameChar 'ı' = true := by simp [Marker.isNameChar, Marker.fold]
  have feed : Marker.isNameChar '\n' = false := by simp [Marker.isNameChar, Marker.fold]
  rw [isOutletName_iff, isOutletName_iff, isArgumentName_iff, isArgumentName_iff,
    isConfigName_iff, isConfigName_iff]
  refine ⟨⟨by simp [dotless], by decide, by decide, ?_⟩, by decide, by decide, by simp [feed], ?_⟩
  · rintro ⟨-, characters⟩
    exact absurd (characters 'ı' (by decide)) (by decide)
  · rintro ⟨-, characters⟩
    exact absurd (characters '\n' (by decide)) (by decide)

end MarkdownOutlets
