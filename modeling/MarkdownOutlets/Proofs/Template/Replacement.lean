import Mathlib.Algebra.Ring.Int.Defs
import MarkdownOutlets.Proofs.Template.CodeBlocks
import MarkdownOutlets.Proofs.Template.Splice

/-! # Replaced outlets

  `Template.fill_eq` says what a filled template is. Here it is said what comes
  of a single character, of a single outlet and of the length. The main
  statement, `filled_at_once`, is about any text and any texts to put in.

  A character stays unless it is in an outlet that is replaced
  (`Text.splice_at`). An outlet may have characters in a protected region, when
  the region does not hold all of it. Then it goes over the start or the end of
  the region, and regions start and end with lines, so there is a line break in
  the marker (`Region.exists_newline`).
-/

namespace MarkdownOutlets

/-! ### Spans of a text -/

namespace Text

theorem slice_take (t : Text) (i : Nat) {j k : Nat} (le : j ≤ k) :
    slice (t.take k) i j = t.slice i j := by
  rw [slice, slice, List.take_take, Nat.min_eq_left le]

theorem slice_append_slice (t : Text) {i j k : Nat} (le : i ≤ j) (le' : j ≤ k) :
    t.slice i j ++ t.slice j k = t.slice i k := by
  have cut := drop_eq_slice_append (t.take k) le
  rw [t.slice_take i le'] at cut
  exact cut.symm

theorem drop_eq_cons {t : Text} {p : Nat} {c : Char} (at_p : t[p]? = some c) :
    t.drop p = c :: t.drop (p + 1) := by
  obtain ⟨within, rfl⟩ := List.getElem?_eq_some_iff.mp at_p
  exact List.drop_eq_getElem_cons within

theorem slice_eq_cons {t : Text} {p j : Nat} {c : Char} (at_p : t[p]? = some c) (lt : p < j) :
    t.slice p j = c :: t.slice (p + 1) j :=
  drop_eq_cons ((List.getElem?_take_of_lt lt).trans at_p)

theorem mem_slice {t : Text} {i j k : Nat} {c : Char} (at_k : t[k]? = some c) (le : i ≤ k)
    (lt : k < j) : c ∈ t.slice i j := by
  rw [← t.slice_append_slice le (Nat.le_of_lt lt), slice_eq_cons at_k lt]
  exact List.mem_append_right _ List.mem_cons_self

end Text

/-! ### Pieces of a filled text -/

namespace Text

variable {t : Text} {instead : Occurrence → Text} {os : List Occurrence} {pos : Nat}

theorem splice_congr {instead' : Occurrence → Text}
    (same : ∀ o ∈ os, instead o = instead' o) :
    t.splice instead pos os = t.splice instead' pos os := by
  induction os generalizing pos with
  | nil => rfl
  | cons o os ih =>
    rw [splice, splice, same o List.mem_cons_self, ih fun o' mem => same o' (by simp [mem])]

/-- What is put in for one occurrence stands behind the text filled up to it, and in front of
    the text filled from there on. -/
theorem splice_append (before : List Occurrence) (o : Occurrence) (after : List Occurrence)
    (ordered : Template.Ordered t (before ++ o :: after))
    (behind : ∀ o' ∈ before ++ o :: after, pos ≤ o'.start) :
    t.splice instead pos (before ++ o :: after) =
      splice instead (t.take o.start) pos before ++
        (instead o ++ t.splice instead o.stop after) := by
  induction before generalizing pos with
  | nil => rfl
  | cons first before ih =>
    have apart := List.pairwise_cons.mp ordered.apart
    have stop_le : first.stop ≤ o.start := apart.1 o (by simp)
    have start_le : first.start ≤ o.start :=
      Nat.le_trans (ordered.inside first List.mem_cons_self).1 stop_le
    rw [List.cons_append, splice, splice, t.slice_take pos start_le, ih ordered.tail apart.1,
      List.append_assoc, List.append_assoc]

/-- Each occurrence makes the text longer by what is put in, and shorter by what stood
    there. -/
theorem length_splice (ordered : Template.Ordered t os) (behind : ∀ o ∈ os, pos ≤ o.start)
    (within : pos ≤ t.length) :
    (pos : Int) + (t.splice instead pos os).length =
      t.length + (os.map fun o => ((instead o).length : Int) - (o.stop - o.start)).sum := by
  induction os generalizing pos with
  | nil =>
    rw [splice, List.length_drop, List.map_nil, List.sum_nil]
    omega
  | cons o os ih =>
    obtain ⟨le, le_length⟩ := ordered.inside o List.mem_cons_self
    have after_o : ∀ o' ∈ os, o.stop ≤ o'.start := (List.pairwise_cons.mp ordered.apart).1
    have gap : pos + (t.slice pos o.start).length = o.start :=
      length_slice (behind o List.mem_cons_self) (Nat.le_trans le le_length)
    have rest := ih ordered.tail after_o le_length
    rw [splice, List.length_append, List.length_append, List.map_cons, List.sum_cons]
    omega

/-- A character that is in no replaced occurrence stays, and stands behind what comes of the
    text in front of it. -/
theorem splice_at (ordered : Template.Ordered t os) (behind : ∀ o ∈ os, pos ≤ o.start)
    {p : Nat} {c : Char} (at_p : t[p]? = some c) (pos_le : pos ≤ p)
    (same : ∀ o ∈ os, o.start ≤ p → p < o.stop → instead o = o.marker) :
    ∃ rest, t.splice instead pos os =
      splice instead (t.take p) pos (os.filter (·.stop ≤ p)) ++ c :: rest := by
  induction os generalizing pos with
  | nil =>
    refine ⟨t.drop (p + 1), ?_⟩
    rw [List.filter_nil, splice, splice, ← drop_eq_cons at_p]
    exact t.drop_eq_slice_append pos_le
  | cons o os ih =>
    obtain ⟨le, -⟩ := ordered.inside o List.mem_cons_self
    have after_o : ∀ o' ∈ os, o.stop ≤ o'.start := (List.pairwise_cons.mp ordered.apart).1
    have o_behind : pos ≤ o.start := behind o List.mem_cons_self
    by_cases passed : o.stop ≤ p
    · -- The occurrence is in front of the character.
      obtain ⟨rest, eq⟩ := ih ordered.tail after_o passed fun o' mem => same o' (by simp [mem])
      refine ⟨rest, ?_⟩
      rw [List.filter_cons, if_pos (decide_eq_true passed), splice, splice, eq,
        t.slice_take pos (Nat.le_trans le passed), List.append_assoc, List.append_assoc]
    · -- The occurrence ends behind it, and so do all others.
      have lt : p < o.stop := Nat.lt_of_not_le passed
      have none_passed : (o :: os).filter (·.stop ≤ p) = [] := by
        refine List.filter_eq_nil_iff.mpr fun o' mem => ?_
        rw [decide_eq_true_eq, Nat.not_le]
        rcases List.mem_cons.mp mem with rfl | mem
        · exact lt
        · exact Nat.lt_of_lt_of_le lt
            (Nat.le_trans (after_o o' mem) (ordered.inside o' (by simp [mem])).1)
      have cut : splice instead (t.take p) pos [] = t.slice pos p := rfl
      rw [none_passed, cut, splice]
      by_cases inside : o.start ≤ p
      · refine ⟨t.slice (p + 1) o.stop ++ t.splice instead o.stop os, ?_⟩
        rw [same o List.mem_cons_self inside lt, ordered.marker o List.mem_cons_self,
          ← List.append_assoc, t.slice_append_slice o_behind le,
          ← t.slice_append_slice pos_le (Nat.le_of_lt lt), slice_eq_cons at_p lt,
          List.append_assoc, List.cons_append]
      · have lt_start : p < o.start := Nat.lt_of_not_le inside
        refine ⟨t.slice (p + 1) o.start ++ (instead o ++ t.splice instead o.stop os), ?_⟩
        rw [← t.slice_append_slice pos_le (Nat.le_of_lt lt_start), slice_eq_cons at_p lt_start,
          List.append_assoc, List.cons_append]

end Text

/-! ### Markers across the end of a region -/

namespace Line

/-- In front of a line is a line break, unless it is the first one. -/
theorem newline_before {t : Text} {l : Line} (mem : l ∈ ofText t) (pos : 0 < l.start) :
    t[l.start - 1]? = some '\n' := by
  have consecutive := consecutive_ofText t
  have within := (consecutive.bounds l mem).2
  have le := l.start_le_stop
  have lt : l.start - 1 < t.length := by omega
  rw [List.getElem?_eq_getElem lt]
  by_contra other
  obtain ⟨l', mem', start_le, lt_stop⟩ :=
    exists_number 0 (List.getElem?_eq_getElem lt) fun eq => other (congrArg some eq)
  rcases consecutive.apart mem mem' with rfl | apart | apart <;> omega

/-- Behind a line is a line break, unless the text ends there. -/
theorem newline_behind {t : Text} {l : Line} (mem : l ∈ ofText t) (lt : l.stop < t.length) :
    t[l.stop]? = some '\n' := by
  have consecutive := consecutive_ofText t
  have le := l.start_le_stop
  rw [List.getElem?_eq_getElem lt]
  by_contra other
  obtain ⟨l', mem', start_le, lt_stop⟩ :=
    exists_number 0 (List.getElem?_eq_getElem lt) fun eq => other (congrArg some eq)
  rcases consecutive.apart mem mem' with rfl | apart | apart <;> omega

end Line

namespace Region

/-- There is a line break between the characters of a text on both sides of the start or of the
    end of a region. -/
theorem exists_newline {t : Text} {r : Region} (mem_r : r ∈ ofText t) {start p stop : Nat}
    (in_region : r.start ≤ p ∧ p < r.stop) (in_span : start ≤ p ∧ p < stop)
    (stop_le : stop ≤ t.length) (across : start < r.start ∨ r.stop < stop) :
    ∃ k, start ≤ k ∧ k < stop ∧ t[k]? = some '\n' := by
  obtain ⟨starts, ends⟩ := scan_places r mem_r
  rcases across with before | behind
  · rcases starts with outside | ⟨l, mem, eq⟩
    · cases outside
    · exact ⟨l.start - 1, by omega, by omega, Line.newline_before mem (by omega)⟩
  · rcases ends with at_end | ⟨l, mem, eq | eq⟩
    · omega
    · exact ⟨l.start - 1, by omega, by omega, Line.newline_before mem (by omega)⟩
    · exact ⟨l.stop, by omega, by omega, Line.newline_behind mem (by omega)⟩

end Region

/-! ### Filled texts -/

namespace Template

/-- What stands in the place of an outlet: the given text, or the marker as it was. -/
def instead (given : Text → Option Text) (o : Occurrence) : Text := (given o.name).getD o.marker

/-- The character at the offset `p` of the text is still there when the text is filled, behind
    what comes of the text in front of it. -/
def Kept (t : Text) (given : Text → Option Text) (p : Nat) : Prop :=
  ∃ c rest, t[p]? = some c ∧ (ofText t).fill given =
    Text.splice (instead given) (t.take p) 0 ((ofText t).outlets.filter (·.stop ≤ p)) ++ c :: rest

/-- The character at the offset `p` of the text is in an outlet for which a text is given. -/
def Replaced (t : Text) (given : Text → Option Text) (p : Nat) (o : Occurrence) : Prop :=
  o ∈ (ofText t).outlets ∧ (given o.name).isSome = true ∧ o.start ≤ p ∧ p < o.stop

/-- Every character of a text is kept or replaced. -/
theorem kept_or_replaced (given : Text → Option Text) {t : Text} {p : Nat} (lt : p < t.length) :
    Kept t given p ∨ ∃ o, Replaced t given p o := by
  by_cases replaced : ∃ o, Replaced t given p o
  · exact .inr replaced
  · have at_p : t[p]? = some t[p] := List.getElem?_eq_getElem lt
    have same : ∀ o ∈ (ofText t).outlets, o.start ≤ p → p < o.stop →
        instead given o = o.marker := by
      intro o mem le lt
      cases found : given o.name with
      | none => rw [instead, found, Option.getD_none]
      | some new => exact absurd ⟨o, mem, by rw [found, Option.isSome_some], le, lt⟩ replaced
    obtain ⟨rest, eq⟩ := Text.splice_at (ordered_outlets t) (fun o _ => Nat.zero_le o.start) at_p
      (Nat.zero_le p) same
    exact .inl ⟨t[p], rest, at_p, (fill_eq t given).trans eq⟩

/-- An outlet that has a character in a region goes over an end of the region, and has a line
    break. -/
theorem outlet_across {t : Text} {o : Occurrence} {r : Region} {p : Nat}
    (mem_o : o ∈ (ofText t).outlets) (mem_r : r ∈ (ofText t).regions)
    (in_outlet : o.start ≤ p ∧ p < o.stop) (in_region : r.start ≤ p ∧ p < r.stop) :
    (o.start < r.start ∨ r.stop < o.stop) ∧ '\n' ∈ o.marker := by
  obtain ⟨-, not_held⟩ := mem_outlets_iff.mp mem_o
  have across : o.start < r.start ∨ r.stop < o.stop := by
    by_contra held
    refine not_held ⟨r, mem_r, ?_⟩
    rw [Region.contains, Bool.and_eq_true, decide_eq_true_eq, decide_eq_true_eq]
    omega
  obtain ⟨k, le, lt, newline⟩ := Region.exists_newline mem_r in_region in_outlet
    ((ordered_outlets t).inside o mem_o).2 across
  rw [(ordered_outlets t).marker o mem_o]
  exact ⟨across, Text.mem_slice newline le lt⟩

end Template

open Template (instead Kept Replaced)

/-- All outlets of the text are replaced at once by the given texts. -/
structure FilledAtOnce (t : Text) (given : Text → Option Text) : Prop where
  /-- The outlets are spans of the text that hold their markers, in order and apart from one
      another. -/
  spans : Template.Ordered t (Template.ofText t).outlets ∧
    ∀ o ∈ (Template.ofText t).outlets, o.start < o.stop
  /-- What comes out is what stands between the outlets, with the given texts, or else the
      markers, instead of the outlets. -/
  at_once : (Template.ofText t).fill given =
    t.splice (instead given) 0 (Template.ofText t).outlets
  /-- Its length is that of the text, more or less by what each outlet adds or takes away. -/
  length : (((Template.ofText t).fill given).length : Int) = t.length +
    ((Template.ofText t).outlets.map fun o =>
      ((instead given o).length : Int) - (o.stop - o.start)).sum
  /-- What is put in for one outlet makes no difference to what stands before it or behind
      it. -/
  apart : ∀ before o after, (Template.ofText t).outlets = before ++ o :: after →
    (Template.ofText t).fill given = Text.splice (instead given) (t.take o.start) 0 before ++
      (instead given o ++ t.splice (instead given) o.stop after)
  /-- With nothing to put in, the text stays as it is. -/
  nothing : (∀ o ∈ (Template.ofText t).outlets, given o.name = none) →
    (Template.ofText t).fill given = t
  /-- A character goes away only with an outlet for which a text is given. -/
  characters : ∀ p, p < t.length → Kept t given p ∨ ∃ o, Replaced t given p o
  /-- A character of a region goes away only with an outlet that goes over an end of the region,
      and has a line break. -/
  regions : ∀ r ∈ (Template.ofText t).regions, ∀ p, r.start ≤ p → p < r.stop →
    Kept t given p ∨ ∃ o, Replaced t given p o ∧
      (o.start < r.start ∨ r.stop < o.stop) ∧ '\n' ∈ o.marker

/-- Every text is filled as if all of its outlets were replaced at once. -/
theorem filled_at_once (t : Text) (given : Text → Option Text) : FilledAtOnce t given := by
  have ordered := Template.ordered_outlets t
  have from_zero : ∀ o ∈ (Template.ofText t).outlets, 0 ≤ o.start := fun o _ => Nat.zero_le o.start
  have at_once : (Template.ofText t).fill given =
    t.splice (instead given) 0 (Template.ofText t).outlets := Template.fill_eq t given
  constructor
  case spans =>
    exact ⟨ordered, fun o mem => Occurrence.start_lt_stop (Template.mem_outlets_iff.mp mem).1⟩
  case at_once => exact at_once
  case length =>
    rw [at_once, ← Text.length_splice ordered from_zero (Nat.zero_le _)]
    exact (Int.zero_add _).symm
  case apart =>
    intro before o after eq
    rw [at_once, eq]
    exact Text.splice_append before o after (eq ▸ ordered) (eq ▸ from_zero)
  case nothing =>
    intro nothing
    have same : (Template.ofText t).fill given = (Template.ofText t).fill fun _ => none := by
      rw [Template.fill_eq, Template.fill_eq]
      exact Text.splice_congr fun o mem => by rw [nothing o mem]
    rw [same, Template.fill_none]
    rfl
  case characters => exact fun p lt => Template.kept_or_replaced given lt
  case regions =>
    intro r mem_r p le lt
    have within := (Region.scan_outside_ordered (Line.consecutive_ofText t)).2 r mem_r
    have lt_length : p < t.length := Nat.lt_of_lt_of_le lt within.2.2
    rcases Template.kept_or_replaced given lt_length with kept | ⟨o, replaced⟩
    · exact .inl kept
    · have across := Template.outlet_across replaced.1 mem_r replaced.2.2 ⟨le, lt⟩
      exact .inr ⟨o, replaced, across⟩

/-- A marker goes away with a part of the indented block that it goes into. -/
example :
    let t := ['<', '!', '-', '-', '\n', '\t', 's', 'l', 'o', 't', ':', 'a', '-', '-', '>', ' ', 'b']
    (Template.ofText t).regions = [⟨5, 17, .indented⟩] ∧
      (Template.ofText t).fill (fun _ => some ['x']) = ['x', ' ', 'b'] := by
  decide

end MarkdownOutlets
