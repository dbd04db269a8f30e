import Mathlib.Data.List.Basic
import Mathlib.Data.List.TakeWhile
import Mathlib.Tactic.ByContra
import MarkdownOutlets.Template.Basic

/-! # The grammar of markers

  `Marker.Names` says which texts are markers, and of which outlets, without a
  word about how markers are found in a text. Reading agrees with it: a marker
  is read at the start of a text if and only if the text starts with one
  (`Marker.read?_eq_some_iff`), so that a text starts with one marker at most.

  A marker has a `<` as its first character and nowhere else. So no marker
  starts within another one, and the scan, which goes on behind each marker
  that it finds and one character further wherever it finds none, passes over
  no marker (`Occurrence.mem_scan_iff`). The main statement, `markers_found`,
  says this of whole texts and of the outlets of a template.
-/

namespace MarkdownOutlets

/-! ### Spans of a text -/

namespace Text

/-- The characters of a text from one offset up to another one. -/
def slice (t : Text) (start stop : Nat) : Text := (t.take stop).drop start

theorem slice_of_drop {t m rest : Text} {i : Nat} (h : t.drop i = m ++ rest) :
    t.slice i (i + m.length) = m := by
  rw [slice, List.drop_take, Nat.add_sub_cancel_left, h, List.take_left]

theorem drop_eq_slice_append (t : Text) {i j : Nat} (h : i ≤ j) :
    t.drop i = t.slice i j ++ t.drop j := by
  have rest : t.drop j = (t.drop i).drop (j - i) := by
    rw [List.drop_drop, Nat.add_sub_cancel' h]
  rw [slice, List.drop_take, rest, List.take_append_drop]

theorem length_slice {t : Text} {i j : Nat} (le : i ≤ j) (within : j ≤ t.length) :
    i + (t.slice i j).length = j := by
  rw [slice, List.length_drop, List.length_take]
  omega

end Text

namespace Marker

/-! ### The grammar -/

/-- The text is a marker, and names the outlet. White space may stand at four
    places of a marker; its word is one of the keywords, apart from case. -/
inductive Names : (marker name : Text) → Prop
  /-- The parts of a marker. -/
  | intro {s₁ word s₂ s₃ name s₄ : Text} (blank₁ : s₁.isBlankText)
      (keyword : word.map fold ∈ keywords) (blank₂ : s₂.isBlankText) (blank₃ : s₃.isBlankText)
      (nonempty : name ≠ []) (characters : ∀ c ∈ name, isNameChar c) (blank₄ : s₄.isBlankText) :
      Names (['<', '!', '-', '-'] ++ (s₁ ++ (word ++ (s₂ ++ (':' ::
        (s₃ ++ (name ++ (s₄ ++ ['-', '-', '>'])))))))) name

/-! ### Characters -/

/-- The code points of ASCII letters and digits. -/
theorem code_of_isAlphanum {c : Char} (h : c.isAlphanum = true) :
    48 ≤ c.toNat ∧ c.toNat ≤ 57 ∨ 65 ≤ c.toNat ∧ c.toNat ≤ 90 ∨ 97 ≤ c.toNat ∧ c.toNat ≤ 122 := by
  change ((decide (65 ≤ c.val ∧ c.val ≤ 90) || 97 ≤ c.val && c.val ≤ 122) ||
    (48 ≤ c.val && c.val ≤ 57)) = true at h
  simp only [Bool.or_eq_true, Bool.and_eq_true, decide_eq_true_eq, UInt32.le_iff_toNat_le] at h
  change ((65 ≤ c.toNat ∧ c.toNat ≤ 90) ∨ (97 ≤ c.toNat ∧ c.toNat ≤ 122)) ∨
    (48 ≤ c.toNat ∧ c.toNat ≤ 57) at h
  omega

/-- Only capital letters have another lower case. -/
theorem toLower_eq_self {c : Char} (h : ¬ (65 ≤ c.toNat ∧ c.toNat ≤ 90)) : c.toLower = c := by
  unfold Char.toLower
  rw [dif_neg]
  simpa only [ge_iff_le, UInt32.le_iff_toNat_le] using! h

/-- No character of a name is blank. -/
theorem not_isBlank_of_isNameChar {c : Char} (h : isNameChar c = true) : isBlank c = false := by
  by_contra blank
  rw [Bool.not_eq_false] at blank
  have code : (9 ≤ c.toNat ∧ c.toNat ≤ 13) ∨ (28 ≤ c.toNat ∧ c.toNat ≤ 32) ∨
      (133 ≤ c.toNat ∧ c.toNat ≤ 160) ∨ (5760 ≤ c.toNat ∧ c.toNat ≤ 8239) ∨
      c.toNat = 8287 ∨ c.toNat = 12288 := by
    simp only [isBlank, Bool.or_eq_true, Bool.and_eq_true, decide_eq_true_eq, beq_iff_eq] at blank
    omega
  have other {d : Char} (far : ¬ ((9 ≤ d.toNat ∧ d.toNat ≤ 13) ∨ (28 ≤ d.toNat ∧ d.toNat ≤ 32) ∨
      (133 ≤ d.toNat ∧ d.toNat ≤ 160) ∨ (5760 ≤ d.toNat ∧ d.toNat ≤ 8239) ∨
      d.toNat = 8287 ∨ d.toNat = 12288)) : c ≠ d := by
    rintro rfl
    exact far code
  -- A blank is none of the characters with a fold of their own, and no capital.
  have fold_eq : fold c = c := by
    unfold fold
    rw [if_neg, if_neg (other (by decide)), if_neg (other (by decide)), toLower_eq_self]
    · omega
    · simp only [Bool.or_eq_true, decide_eq_true_eq, not_or]
      exact ⟨other (by decide), other (by decide)⟩
  simp only [isNameChar, fold_eq, Bool.or_eq_true, beq_iff_eq] at h
  rcases h with (h | h) | h
  · have := code_of_isAlphanum h
    omega
  · exact other (by decide) h
  · exact other (by decide) h

/-- A keyword has letters only. -/
theorem isNameChar_of_keyword {word : Text} (keyword : word.map fold ∈ keywords) :
    ∀ c ∈ word, isNameChar c = true := by
  have letters : keywords.all (fun k => k.all Char.isAlphanum) = true := by decide
  intro c mem
  have of_keyword := List.all_eq_true.mp letters _ keyword
  have alphanum := List.all_eq_true.mp of_keyword _ (List.mem_map_of_mem mem)
  simp [isNameChar, alphanum]

theorem keyword_ne_nil {word : Text} (keyword : word.map fold ∈ keywords) : word ≠ [] := by
  rintro rfl
  exact absurd keyword (by decide)

theorem isBlank_of_mem {s : Text} (blank : s.isBlankText) {c : Char} (mem : c ∈ s) :
    isBlank c = true :=
  List.all_eq_true.mp blank c mem

/-- A character that is neither blank nor in any name is at its own place in a
    marker only. -/
theorem Names.only_at_ends {m name : Text} (names : Names m name) :
    (∃ tail, m = '<' :: tail ∧ '<' ∉ tail) ∧ ∃ front, m = front ++ ['>'] ∧ '>' ∉ front := by
  obtain ⟨blank₁, keyword, blank₂, blank₃, -, characters, blank₄⟩ := names
  rename_i s₁ word s₂ s₃ s₄
  have absent {c : Char} (not_blank : isBlank c = false) (not_name : isNameChar c = false) :
      c ∉ s₁ ∧ c ∉ word ∧ c ∉ s₂ ∧ c ∉ s₃ ∧ c ∉ name ∧ c ∉ s₄ := by
    have not_in_blank {s : Text} (blank : s.isBlankText) : c ∉ s := fun mem =>
      absurd (isBlank_of_mem blank mem) (by simp [not_blank])
    have not_in_name {w : Text} (all : ∀ d ∈ w, isNameChar d = true) : c ∉ w := fun mem =>
      absurd (all c mem) (by simp [not_name])
    exact ⟨not_in_blank blank₁, not_in_name (isNameChar_of_keyword keyword), not_in_blank blank₂,
      not_in_blank blank₃, not_in_name characters, not_in_blank blank₄⟩
  constructor
  · obtain ⟨h₁, h₂, h₃, h₄, h₅, h₆⟩ := absent (c := '<') (by decide) (by decide)
    refine ⟨_, rfl, ?_⟩
    simp [h₁, h₂, h₃, h₄, h₅, h₆]
  · obtain ⟨h₁, h₂, h₃, h₄, h₅, h₆⟩ := absent (c := '>') (by decide) (by decide)
    refine ⟨['<', '!', '-', '-'] ++ (s₁ ++ (word ++ (s₂ ++ (':' ::
      (s₃ ++ (name ++ (s₄ ++ ['-', '-']))))))), by simp, ?_⟩
    simp [h₁, h₂, h₃, h₄, h₅, h₆]

theorem Names.length_pos {m name : Text} (names : Names m name) : 0 < m.length := by
  obtain ⟨⟨tail, rfl, -⟩, -⟩ := names.only_at_ends
  simp

/-! ### Reading agrees with the grammar -/

/-- White space in front of anything else is dropped. -/
theorem dropWhile_isBlank {s : Text} (blank : s.isBlankText) {c : Char} {rest : Text}
    (not_blank : isBlank c = false) : (s ++ c :: rest).dropWhile isBlank = c :: rest := by
  rw [List.dropWhile_append_of_pos fun _ mem => isBlank_of_mem blank mem,
    List.dropWhile_cons_of_neg (by simp [not_blank])]

/-- What is dropped is white space. -/
theorem eq_blank_append (t : Text) : ∃ s : Text, s.isBlankText ∧ t = s ++ t.dropWhile isBlank :=
  ⟨t.takeWhile isBlank, List.all_takeWhile, List.takeWhile_append_dropWhile.symm⟩

theorem dropStart?_eq_some_iff {start t rest : Text} :
    Text.dropStart? start t = some rest ↔ t = start ++ rest := by
  constructor
  · exact Text.eq_append_of_dropStart?
  · rintro rfl
    exact Text.dropStart?_append start rest

theorem dropWord?_eq_some_iff {word t rest : Text} :
    dropWord? word t = some rest ↔ ∃ w : Text, w.map fold = word ∧ t = w ++ rest := by
  induction word generalizing t with
  | nil => simp [dropWord?]
  | cons k word ih =>
    cases t with
    | nil =>
      refine ⟨fun h => by simp [dropWord?] at h, ?_⟩
      rintro ⟨w, spelled, eq⟩
      obtain ⟨rfl, -⟩ := List.append_eq_nil_iff.mp eq.symm
      simp at spelled
    | cons c cs =>
      simp only [dropWord?, Option.ite_none_right_eq_some, ih]
      constructor
      · rintro ⟨rfl, w, rfl, rfl⟩
        exact ⟨c :: w, rfl, rfl⟩
      · rintro ⟨w, spelled, eq⟩
        cases w with
        | nil => simp at spelled
        | cons d w =>
          obtain ⟨rfl, rfl⟩ := List.cons.inj eq
          obtain ⟨rfl, rfl⟩ := List.cons.inj spelled
          exact ⟨rfl, w, rfl, rfl⟩

theorem dropKeyword?_eq_some_iff {t rest : Text} :
    dropKeyword? t = some rest ↔ ∃ w : Text, w.map fold ∈ keywords ∧ t = w ++ rest := by
  unfold dropKeyword? keywords
  simp only [List.firstM, List.mem_cons, List.not_mem_nil, or_false]
  cases first : dropWord? ['o', 'u', 't', 'l', 'e', 't'] t with
  | some behind =>
    obtain ⟨w, spelled, rfl⟩ := dropWord?_eq_some_iff.mp first
    constructor
    · intro h
      obtain rfl : behind = rest := by simpa using h
      exact ⟨w, .inl spelled, rfl⟩
    · rintro ⟨w', keyword | keyword, eq⟩
      · have again := dropWord?_eq_some_iff.mpr ⟨w', keyword, eq⟩
        rw [first] at again
        simpa using again
      · -- The two keywords differ in their first letter.
        cases w with
        | nil => simp at spelled
        | cons c w =>
          cases w' with
          | nil => simp at keyword
          | cons c' w' =>
            simp only [List.cons_append, List.cons.injEq] at eq
            simp only [List.map_cons, List.cons.injEq] at spelled keyword
            rw [eq.1, keyword.1] at spelled
            exact absurd spelled.1 (by decide)
  | none =>
    constructor
    · intro h
      obtain ⟨w, spelled, eq⟩ := dropWord?_eq_some_iff.mp (by simpa using h)
      exact ⟨w, .inr spelled, eq⟩
    · rintro ⟨w, keyword | keyword, eq⟩
      · rw [dropWord?_eq_some_iff.mpr ⟨w, keyword, eq⟩] at first
        simp at first
      · simpa using dropWord?_eq_some_iff.mpr ⟨w, keyword, eq⟩

/-- What is read as a name has its characters, and a closing behind it. -/
theorem eq_append_of_nameAndRest? {t name rest : Text} (h : nameAndRest? t = some (name, rest)) :
    name ≠ [] ∧ (∀ c ∈ name, isNameChar c) ∧
      ∃ s : Text, s.isBlankText ∧ t = name ++ (s ++ (['-', '-', '>'] ++ rest)) := by
  have whole : t = t.takeWhile isNameChar ++ t.dropWhile isNameChar :=
    List.takeWhile_append_dropWhile.symm
  have run_chars : ∀ c ∈ t.takeWhile isNameChar, isNameChar c = true :=
    fun c mem => List.mem_takeWhile_imp mem
  unfold nameAndRest? at h
  split at h
  · rename_i behind after_eq
    simp only [Option.ite_none_right_eq_some, Option.some.injEq, Prod.mk.injEq] at h
    obtain ⟨⟨nonempty, run_eq⟩, name_eq, rfl⟩ := h
    rw [name_eq] at nonempty run_eq
    have characters : ∀ c ∈ name, isNameChar c = true :=
      fun c mem => run_chars c (run_eq ▸ List.mem_append_left _ mem)
    refine ⟨nonempty, characters, [], rfl, ?_⟩
    rw [whole, after_eq, run_eq]
    simp
  · simp only [Option.ite_none_left_eq_some, Option.map_eq_some_iff, Prod.mk.injEq] at h
    obtain ⟨nonempty, behind, closing, rfl, rfl⟩ := h
    obtain ⟨s, blank, after_eq⟩ := eq_blank_append (t.dropWhile isNameChar)
    rw [dropStart?_eq_some_iff.mp closing] at after_eq
    exact ⟨nonempty, run_chars, s, blank, whole.trans (by rw [after_eq])⟩

section name

variable {name : Text} (nonempty : name ≠ []) (characters : ∀ c ∈ name, isNameChar c = true)

include nonempty characters

/-- A name with the closing right behind it is read. The run of characters goes
    on to the last one of the closing. -/
theorem nameAndRest?_closing (rest : Text) :
    nameAndRest? (name ++ (['-', '-', '>'] ++ rest)) = some (name, rest) := by
  have hyphens : (['-', '-', '>'] ++ rest).takeWhile isNameChar = ['-', '-'] := rfl
  have behind : (['-', '-', '>'] ++ rest).dropWhile isNameChar = '>' :: rest := rfl
  unfold nameAndRest?
  rw [List.takeWhile_append_of_pos characters, List.dropWhile_append_of_pos characters, hyphens,
    behind]
  simp [nonempty]

/-- A name with white space between it and the closing is read. -/
theorem nameAndRest?_blank {b : Char} {s : Text} (blank : Text.isBlankText (b :: s))
    (rest : Text) :
    nameAndRest? (name ++ (b :: s ++ (['-', '-', '>'] ++ rest))) = some (name, rest) := by
  have b_blank : isBlank b = true := isBlank_of_mem blank (List.mem_cons_self ..)
  have b_not_name : isNameChar b = false := by
    by_contra h
    rw [Bool.not_eq_false] at h
    simp [not_isBlank_of_isNameChar h] at b_blank
  have b_ne : b ≠ '>' := by
    intro eq
    rw [eq] at b_blank
    exact absurd b_blank (by decide)
  -- The run stops at the white space.
  have stops (u : Text) : (b :: u).takeWhile isNameChar = [] :=
    List.takeWhile_cons_of_neg (by simp [b_not_name])
  have stays (u : Text) : (b :: u).dropWhile isNameChar = b :: u :=
    List.dropWhile_cons_of_neg (by simp [b_not_name])
  have trimmed : (b :: (s ++ (['-', '-', '>'] ++ rest))).dropWhile isBlank =
      ['-', '-', '>'] ++ rest :=
    dropWhile_isBlank (s := b :: s) blank (by decide)
  unfold nameAndRest?
  rw [List.takeWhile_append_of_pos characters, List.dropWhile_append_of_pos characters,
    List.cons_append, stops, stays, List.append_nil]
  split
  · rename_i eq
    exact absurd (List.cons.inj eq).1 b_ne
  · rw [if_neg nonempty, trimmed, Text.dropStart?_append]
    rfl

end name

/-- The longest run that leaves a closing is the only name that there can be. -/
theorem nameAndRest?_eq_some_iff {t name rest : Text} :
    nameAndRest? t = some (name, rest) ↔
      name ≠ [] ∧ (∀ c ∈ name, isNameChar c) ∧
        ∃ s : Text, s.isBlankText ∧ t = name ++ (s ++ (['-', '-', '>'] ++ rest)) := by
  constructor
  · exact eq_append_of_nameAndRest?
  · rintro ⟨nonempty, characters, s, blank, rfl⟩
    cases s with
    | nil => exact nameAndRest?_closing nonempty characters rest
    | cons b s => exact nameAndRest?_blank nonempty characters blank rest

/-- A marker is read at the start of a text if the text starts with one, and
    only then. -/
theorem read?_eq_some_iff {t name rest : Text} :
    read? t = some (name, rest) ↔ ∃ m, Names m name ∧ t = m ++ rest := by
  unfold read?
  simp only [Option.bind_eq_bind, Option.bind_eq_some_iff]
  constructor
  · rintro ⟨inside, opening, afterKeyword, keyword, afterColon, colon, name_read⟩
    obtain ⟨s₁, blank₁, inside_eq⟩ := eq_blank_append inside
    obtain ⟨word, is_keyword, word_eq⟩ := dropKeyword?_eq_some_iff.mp keyword
    obtain ⟨s₂, blank₂, keyword_eq⟩ := eq_blank_append afterKeyword
    obtain ⟨s₃, blank₃, colon_eq⟩ := eq_blank_append afterColon
    obtain ⟨nonempty, characters, s₄, blank₄, name_eq⟩ := nameAndRest?_eq_some_iff.mp name_read
    refine ⟨_, .intro blank₁ is_keyword blank₂ blank₃ nonempty characters blank₄, ?_⟩
    rw [dropStart?_eq_some_iff.mp opening, inside_eq, word_eq, keyword_eq,
      dropStart?_eq_some_iff.mp colon, colon_eq, name_eq]
    simp
  · rintro ⟨m, ⟨blank₁, keyword, blank₂, blank₃, nonempty, characters, blank₄⟩, rfl⟩
    rename_i s₁ word s₂ s₃ s₄
    obtain ⟨k, word', rfl⟩ := List.exists_cons_of_ne_nil (keyword_ne_nil keyword)
    obtain ⟨n, name', rfl⟩ := List.exists_cons_of_ne_nil nonempty
    have k_not_blank := not_isBlank_of_isNameChar (isNameChar_of_keyword keyword k (by simp))
    have n_not_blank := not_isBlank_of_isNameChar (characters n (by simp))
    refine ⟨_, dropStart?_eq_some_iff.mpr (List.append_assoc ..), s₂ ++ (':' ::
      (s₃ ++ (n :: name' ++ (s₄ ++ (['-', '-', '>'] ++ rest))))), ?_, s₃ ++ (n :: name' ++
      (s₄ ++ (['-', '-', '>'] ++ rest))), ?_, ?_⟩
    · refine dropKeyword?_eq_some_iff.mpr ⟨k :: word', keyword, ?_⟩
      simp only [List.append_assoc, List.cons_append]
      rw [dropWhile_isBlank blank₁ k_not_blank]
    · rw [dropWhile_isBlank blank₂ (by decide)]
      exact Text.dropStart?_append [':'] _
    · refine nameAndRest?_eq_some_iff.mpr ⟨nonempty, characters, s₄, blank₄, ?_⟩
      rw [List.cons_append, dropWhile_isBlank blank₃ n_not_blank]

/-- A text starts with one marker at most, and the marker has one name. -/
theorem Names.unique {m m' name name' rest rest' : Text} (names : Names m name)
    (names' : Names m' name') (eq : m ++ rest = m' ++ rest') : m = m' ∧ name = name' := by
  have read : read? (m ++ rest) = some (name, rest) := read?_eq_some_iff.mpr ⟨m, names, rfl⟩
  rw [read?_eq_some_iff.mpr ⟨m', names', eq⟩] at read
  obtain ⟨rfl, rfl⟩ := Prod.mk.inj (Option.some.inj read)
  exact ⟨List.append_cancel_right eq, rfl⟩

/-- No marker starts within another one. -/
theorem Names.length_le {m m' name name' rest rest' : Text} {i : Nat} (names : Names m name)
    (names' : Names m' name') (behind : 0 < i) (eq : (m ++ rest).drop i = m' ++ rest') :
    m.length ≤ i := by
  by_contra within
  rw [Nat.not_le] at within
  obtain ⟨⟨tail, rfl, not_mem⟩, -⟩ := names.only_at_ends
  obtain ⟨⟨tail', rfl, -⟩, -⟩ := names'.only_at_ends
  obtain ⟨i, rfl⟩ := Nat.exists_eq_add_of_lt behind
  rw [List.drop_append_of_le_length (Nat.le_of_lt within)] at eq
  have within' : i < tail.length := by
    rw [List.length_cons] at within
    omega
  simp only [Nat.zero_add, List.drop_succ_cons, List.drop_eq_getElem_cons within',
    List.cons_append, List.cons.injEq] at eq
  exact not_mem (eq.1 ▸ List.getElem_mem within')

end Marker

/-! ### The scan passes over no marker -/

namespace Occurrence

open Marker

/-- The occurrence is a marker of a text that starts at `pos`, with `least` or
    more characters in front of it. -/
def StandsIn (o : Occurrence) (least pos : Nat) (t : Text) : Prop :=
  ∃ i rest, least ≤ i ∧ t.drop i = o.marker ++ rest ∧ Names o.marker o.name ∧
    o.start = pos + i ∧ o.stop = pos + i + o.marker.length

/-- A marker with a character in front of it stands in the rest of the text. -/
theorem standsIn_cons {o : Occurrence} {least pos : Nat} {c : Char} {cs : Text} :
    o.StandsIn (least + 1) pos (c :: cs) ↔ o.StandsIn least (pos + 1) cs := by
  constructor
  · rintro ⟨i, rest, le, eq, names, start, stop⟩
    obtain ⟨i, rfl⟩ : ∃ j, i = j + 1 := ⟨i - 1, by omega⟩
    exact ⟨i, rest, by omega, eq, names, by omega, by omega⟩
  · rintro ⟨i, rest, le, eq, names, start, stop⟩
    exact ⟨i + 1, rest, by omega, eq, names, by omega, by omega⟩

/-- Where no marker is read, all markers stand further behind. -/
theorem standsIn_of_none {o : Occurrence} {pos : Nat} {t : Text} (none_read : read? t = none) :
    o.StandsIn 0 pos t ↔ o.StandsIn 1 pos t := by
  constructor
  · rintro ⟨i, rest, -, eq, names, place⟩
    have behind : i ≠ 0 := by
      intro start
      rw [start, List.drop_zero] at eq
      have read := read?_eq_some_iff.mpr ⟨_, names, eq⟩
      rw [none_read] at read
      cases read
    exact ⟨i, rest, by omega, eq, names, place⟩
  · rintro ⟨i, rest, -, place⟩
    exact ⟨i, rest, Nat.zero_le i, place⟩

/-- Where a marker is read, the others stand behind its end. -/
theorem standsIn_of_some {o : Occurrence} {pos : Nat} {t m name rest : Text}
    (names : Names m name) (read : t = m ++ rest) :
    o.StandsIn 0 pos t ↔
      o = { name, marker := m, start := pos, stop := pos + m.length } ∨
        o.StandsIn m.length pos t := by
  constructor
  · rintro ⟨i, rest', -, eq, names', start, stop⟩
    rcases Nat.eq_zero_or_pos i with rfl | behind
    · obtain ⟨marker_eq, name_eq⟩ := names.unique names' (read.symm.trans eq)
      left
      cases o
      simp_all
    · have le := names.length_le names' behind (read ▸ eq)
      exact .inr ⟨i, rest', le, eq, names', start, stop⟩
  · rintro (rfl | ⟨i, rest', -, place⟩)
    · exact ⟨0, rest, Nat.le_refl 0, read, names, rfl, rfl⟩
    · exact ⟨i, rest', Nat.zero_le i, place⟩

/-- The scan finds the markers that start behind the characters to be skipped,
    all of them. -/
theorem mem_scan_iff {skip pos : Nat} {t : Text} {o : Occurrence} :
    o ∈ scan skip pos t ↔ o.StandsIn skip pos t := by
  induction t generalizing skip pos with
  | nil =>
    constructor
    · intro mem
      simp [scan] at mem
    · rintro ⟨i, rest, -, eq, names, -⟩
      rw [List.drop_nil] at eq
      have positive := names.length_pos
      simp [(List.append_eq_nil_iff.mp eq.symm).1] at positive
  | cons c cs ih =>
    cases skip with
    | succ skip => exact ih.trans standsIn_cons.symm
    | zero =>
      unfold scan
      cases found : read? (c :: cs) with
      | none => exact (ih.trans standsIn_cons.symm).trans (standsIn_of_none found).symm
      | some read =>
        obtain ⟨name, rest⟩ := read
        obtain ⟨m, names, eq⟩ := read?_eq_some_iff.mp found
        have length_eq : (c :: cs).length - rest.length = m.length := by
          rw [eq, List.length_append, Nat.add_sub_cancel]
        have take_eq : (c :: cs).take m.length = m := by rw [eq, List.take_left]
        -- The rest of the marker is skipped.
        have skipped : o ∈ scan (m.length - 1) (pos + 1) cs ↔
            o.StandsIn m.length pos (c :: cs) := by
          rw [ih, ← standsIn_cons (c := c), Nat.sub_add_cancel names.length_pos]
        simp only [length_eq, take_eq, List.mem_cons, skipped]
        exact (standsIn_of_some names eq).symm

/-- The markers come in order, and do not overlap. -/
theorem pairwise_scan (skip pos : Nat) (t : Text) :
    (scan skip pos t).Pairwise fun a b => a.stop ≤ b.start := by
  induction t generalizing skip pos with
  | nil => simp [scan]
  | cons c cs ih =>
    cases skip with
    | succ skip => exact ih skip (pos + 1)
    | zero =>
      unfold scan
      split
      · refine List.pairwise_cons.mpr ⟨fun o mem => ?_, ih _ _⟩
        obtain ⟨i, -, le, -, -, start, -⟩ := mem_scan_iff.mp mem
        simp only [start]
        omega
      · exact ih 0 (pos + 1)

theorem mem_ofText_iff {t : Text} {o : Occurrence} :
    o ∈ ofText t ↔ o.start ≤ o.stop ∧ o.stop ≤ t.length ∧ o.marker = t.slice o.start o.stop ∧
      Names o.marker o.name := by
  rw [ofText, mem_scan_iff]
  constructor
  · rintro ⟨i, rest, -, eq, names, start, stop⟩
    rw [Nat.zero_add] at start stop
    have length_eq := congrArg List.length eq
    rw [List.length_drop, List.length_append] at length_eq
    have positive := names.length_pos
    refine ⟨by omega, by omega, ?_, names⟩
    rw [start, stop, Text.slice_of_drop eq]
  · rintro ⟨le, within, marker, names⟩
    refine ⟨o.start, t.drop o.stop, Nat.zero_le _, ?_, names, (Nat.zero_add _).symm, ?_⟩
    · rw [marker]
      exact t.drop_eq_slice_append le
    · rw [marker, Nat.zero_add, Text.length_slice le within]

/-- A marker has a first and a last character. -/
theorem start_lt_stop {t : Text} {o : Occurrence} (mem : o ∈ ofText t) : o.start < o.stop := by
  obtain ⟨le, within, marker, names⟩ := mem_ofText_iff.mp mem
  have length_eq := Text.length_slice le within
  rw [← marker] at length_eq
  have positive := names.length_pos
  omega

/-- The first character of a marker is `<`, and the last one is `>`. -/
theorem characters_at_ends {t : Text} {o : Occurrence} (mem : o ∈ ofText t) :
    t[o.start]? = some '<' ∧ t[o.stop - 1]? = some '>' := by
  obtain ⟨-, within, marker, names⟩ := mem_ofText_iff.mp mem
  obtain ⟨⟨tail, head_eq, -⟩, front, last_eq, -⟩ := names.only_at_ends
  have lt := start_lt_stop mem
  have character {k : Nat} (inside : o.start + k < o.stop) :
      t[o.start + k]? = o.marker[k]? := by
    rw [marker, Text.slice, List.getElem?_drop, List.getElem?_take_of_lt inside]
  have length_eq : o.start + o.marker.length = o.stop :=
    marker ▸ Text.length_slice (Nat.le_of_lt lt) within
  constructor
  · rw [← Nat.add_zero o.start, character (by omega), head_eq]
    rfl
  · rw [last_eq, List.length_append, List.length_singleton] at length_eq
    have place : o.stop - 1 = o.start + front.length := by omega
    rw [place, character (by omega), last_eq]
    simp

end Occurrence

/-! ### Names in order of first occurrence -/

theorem pairwise_distinct [DecidableEq α] [BEq α] [LawfulBEq α] (xs : List α) :
    (distinct xs).Pairwise fun a b => xs.idxOf a < xs.idxOf b := by
  induction xs with
  | nil => exact .nil
  | cons x xs ih =>
    refine List.pairwise_cons.mpr ⟨fun b mem => ?_, ?_⟩
    · have ne : b ≠ x := by simpa using (List.mem_filter.mp mem).2
      rw [List.idxOf_cons_self, List.idxOf_cons_ne xs ne.symm]
      exact Nat.succ_pos _
    · refine (ih.filter _).imp_of_mem fun {a b} mem_a mem_b lt => ?_
      have ne_a : a ≠ x := by simpa using (List.mem_filter.mp mem_a).2
      have ne_b : b ≠ x := by simpa using (List.mem_filter.mp mem_b).2
      rw [List.idxOf_cons_ne xs ne_a.symm, List.idxOf_cons_ne xs ne_b.symm]
      exact Nat.succ_lt_succ lt

/-! ### Texts -/

/-- How the markers that are found in a text compare with the grammar. -/
structure MarkersFound (t : Text) : Prop where
  /-- The spans found are the spans that are markers, all of them. -/
  spans : ∀ i j, (∃ o ∈ Occurrence.ofText t, o.start = i ∧ o.stop = j) ↔
    i ≤ j ∧ j ≤ t.length ∧ ∃ name, Marker.Names (t.slice i j) name
  /-- They are found in order, each one behind the end of those before. -/
  ordered : (Occurrence.ofText t).Pairwise fun a b => a.start < b.start ∧ a.stop ≤ b.start
  /-- At one offset at most one marker starts, and it has one name. -/
  unique : ∀ i j j' name name', i ≤ j → i ≤ j' → Marker.Names (t.slice i j) name →
    j ≤ t.length → Marker.Names (t.slice i j') name' → j' ≤ t.length → j = j' ∧ name = name'
  /-- Two spans that are markers do not overlap. -/
  disjoint : ∀ i j i' j' name name', i ≤ j → j ≤ t.length → Marker.Names (t.slice i j) name →
    i' ≤ j' → j' ≤ t.length → Marker.Names (t.slice i' j') name' → i < i' → j ≤ i'
  /-- Each one has the marker as it stands in the text, and its only name. -/
  reported : ∀ o ∈ Occurrence.ofText t, o.start < o.stop ∧ o.stop ≤ t.length ∧
    o.marker = t.slice o.start o.stop ∧ Marker.Names o.marker o.name ∧
    ∀ name, Marker.Names o.marker name → name = o.name
  /-- The outlets of the template are among the markers found, in their order. -/
  among : (Template.ofText t).outlets.Sublist (Occurrence.ofText t)
  /-- The names of the template are those of its outlets. -/
  names : ∀ name, name ∈ (Template.ofText t).names ↔
    ∃ o ∈ (Template.ofText t).outlets, o.name = name
  /-- No name is repeated. -/
  nodup : (Template.ofText t).names.Nodup
  /-- The names are in the order of their first outlets. -/
  discovery : (Template.ofText t).names.Pairwise fun a b =>
    ((Template.ofText t).outlets.map (·.name)).idxOf a <
      ((Template.ofText t).outlets.map (·.name)).idxOf b

/-- The markers found in a text are those of the grammar, none left out. -/
theorem markers_found (t : Text) : MarkersFound t := by
  have one {i j j' : Nat} {name name' : Text} (le : i ≤ j) (le' : i ≤ j')
      (names : Marker.Names (t.slice i j) name) (names' : Marker.Names (t.slice i j') name') :
      t.slice i j = t.slice i j' ∧ name = name' :=
    names.unique names' ((t.drop_eq_slice_append le).symm.trans (t.drop_eq_slice_append le'))
  constructor
  case spans =>
    intro i j
    constructor
    · rintro ⟨o, mem, rfl, rfl⟩
      obtain ⟨le, within, marker, names⟩ := Occurrence.mem_ofText_iff.mp mem
      exact ⟨le, within, o.name, marker ▸ names⟩
    · rintro ⟨le, within, name, names⟩
      exact ⟨⟨name, i, j, t.slice i j⟩,
        Occurrence.mem_ofText_iff.mpr ⟨le, within, rfl, names⟩, rfl, rfl⟩
  case ordered =>
    refine (Occurrence.pairwise_scan 0 0 t).imp_of_mem fun {a b} mem_a _ le => ⟨?_, le⟩
    exact Nat.lt_of_lt_of_le (Occurrence.start_lt_stop mem_a) le
  case unique =>
    intro i j j' name name' le le' names within names' within'
    obtain ⟨same, name_eq⟩ := one le le' names names'
    refine ⟨?_, name_eq⟩
    rw [← Text.length_slice le within, ← Text.length_slice le' within', same]
  case disjoint =>
    intro i j i' j' name name' le within names le' within' names' lt
    have behind : (t.slice i j ++ t.drop j).drop (i' - i) = t.slice i' j' ++ t.drop j' := by
      rw [← t.drop_eq_slice_append le, ← t.drop_eq_slice_append le', List.drop_drop,
        Nat.add_sub_cancel' (Nat.le_of_lt lt)]
    have length_le := names.length_le names' (by omega) behind
    have length_eq := Text.length_slice le within
    omega
  case reported =>
    intro o mem
    obtain ⟨-, within, marker, names⟩ := Occurrence.mem_ofText_iff.mp mem
    refine ⟨Occurrence.start_lt_stop mem, within, marker, names, fun name names' => ?_⟩
    exact (names'.unique names (rfl : o.marker ++ [] = o.marker ++ [])).2
  case among => exact List.filter_sublist
  case names =>
    intro name
    rw [Template.names, mem_distinct, List.mem_map]
  case nodup => exact nodup_distinct _
  case discovery => exact pairwise_distinct ((Template.ofText t).outlets.map (·.name))

end MarkdownOutlets
