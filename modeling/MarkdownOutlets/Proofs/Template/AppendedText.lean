import Mathlib.Data.List.Pairwise
import MarkdownOutlets.Proofs.Template.CodeBlocks

/-! # Appended text

  What stands in whole lines of a text is read in the same way when more text
  comes behind them. Here `t` is empty or ends with a line break, and `u` is any
  text.

  The lines of `t ++ u` are those of `t`, but for the empty one at its end, and
  those of `u` (`Line.exists_front`). So the two passes over lines are the same up
  to the end of `t`, with the same regions closed and the same block open
  (`Region.scan_append`). At the end of `t` one pass closes the open block, and the
  other one goes on with it (`Region.exists_scan_open`, `Region.mem_scan_cases`).
  A marker within `t` is a marker of `t ++ u`, and the other way round
  (`Occurrence.filter_ofText_append`).

  The main statement is `append_keeps`.
-/

namespace MarkdownOutlets

/-! ### Lines -/

namespace Text

theorem slice_append (t u : Text) (i : Nat) {j : Nat} (within : j ≤ t.length) :
    slice (t ++ u) i j = t.slice i j := by
  rw [slice, slice, List.take_append_of_le_length within]

/-- The text is empty, or its last line is. -/
def EndsLine (t : Text) : Prop := t = [] ∨ t.getLast? = some '\n'

instance (t : Text) : Decidable t.EndsLine := inferInstanceAs (Decidable (_ ∨ _))

end Text

namespace Line

theorem number_append (pos : Nat) (t : Text) (pieces : List Text) :
    number pos (Text.split '\n' t ++ pieces) =
      number pos (Text.split '\n' t) ++ number (pos + t.length + 1) pieces := by
  induction t generalizing pos with
  | nil => rfl
  | cons c cs ih =>
    have behind := ih (pos + 1)
    have same (pos' : Nat) : pos' + 1 + cs.length + 1 = pos' + (c :: cs).length + 1 := by
      rw [List.length_cons]
      omega
    rw [same] at behind
    by_cases newline : c = '\n'
    · rw [Text.split, if_pos newline, List.cons_append, number, number]
      exact congrArg (_ :: ·) behind
    · -- The first line is longer by one, and the others are the same.
      obtain ⟨piece, rest, eq, eq'⟩ := split_cons_ne newline cs
      rw [eq] at behind
      rw [eq', List.cons_append, number, number]
      have longer : pos + 1 + piece.length + 1 = pos + (c :: piece).length + 1 := by
        rw [List.length_cons]
        omega
      simp only [List.cons_append, number, List.cons.injEq, longer] at behind
      rw [behind.2, List.cons_append]

/-- Whatever comes behind whole lines, they stay the first lines. -/
theorem exists_front {t : Text} (ends : t.EndsLine) :
    ∃ front, ∀ u, ofText (t ++ u) = front ++ number t.length (Text.split '\n' u) := by
  rcases ends with rfl | last
  · exact ⟨[], fun u => rfl⟩
  · obtain ⟨t, rfl⟩ := List.getLast?_eq_some_iff.mp last
    refine ⟨ofText t, fun u => ?_⟩
    rw [ofText, List.append_assoc, List.singleton_append, Text.split_append_cons, number_append,
      ofText, Nat.zero_add, List.length_append, List.length_singleton]

end Line

/-! ### Regions -/

namespace Region

open Line

/-- The regions that some lines close when `block` is open before them, and the block
    that is open behind them. -/
def through (block : Block) : List Line → List Region × Block
  | [] => ([], block)
  | l :: rest => ((block.next l).1 ++ (through (block.next l).2 rest).1,
      (through (block.next l).2 rest).2)

/-- The pass over some lines goes on from what the first ones leave open. -/
theorem scan_append (stop : Nat) (block : Block) (front rest : List Line) :
    scan stop block (front ++ rest) =
      (through block front).1 ++ scan stop (through block front).2 rest := by
  induction front generalizing block with
  | nil => rfl
  | cons l front ih =>
    rw [List.cons_append, scan_cons, ih, through, List.append_assoc]

/-- An empty line at the end of a text closes the block that is open. -/
theorem scan_empty_line (stop start : Nat) (block : Block) :
    scan stop block [⟨start, []⟩] = block.finish stop := by
  cases block <;> rfl

/-- The block that some lines leave open started on one of them, or before them. -/
theorem before_through {stop pos : Nat} {block : Block} {front rest : List Line} {l : Line}
    (consecutive : Consecutive stop pos (front ++ l :: rest)) (before : block.Before pos) :
    (through block front).2.Before l.start := by
  induction front generalizing pos block with
  | nil => exact consecutive.1 ▸ before
  | cons first front ih =>
    obtain ⟨rfl, behind⟩ := consecutive
    exact ih behind before.next

/-- At most one region is closed at the end of a text: that of the open block. -/
theorem Block.mem_finish {block : Block} {stop : Nat} {r : Region} (mem : r ∈ block.finish stop) :
    block.start? = some r.start ∧ r.stop = stop := by
  cases block with
  | outside => cases mem
  | fenced start d =>
    obtain rfl := List.mem_singleton.mp mem
    exact ⟨rfl, rfl⟩
  | indented start =>
    obtain rfl := List.mem_singleton.mp mem
    exact ⟨rfl, rfl⟩

/-- Only the end of that region depends on where the text ends. -/
theorem Block.finish_elsewhere {block : Block} {stop : Nat} (stop' : Nat) {r : Region}
    (mem : r ∈ block.finish stop) :
    ∃ r' ∈ block.finish stop', r'.start = r.start ∧ r'.kind = r.kind := by
  cases block with
  | outside => cases mem
  | fenced start d =>
    obtain rfl := List.mem_singleton.mp mem
    exact ⟨_, List.mem_singleton_self _, rfl, rfl⟩
  | indented start =>
    obtain rfl := List.mem_singleton.mp mem
    exact ⟨_, List.mem_singleton_self _, rfl, rfl⟩

theorem Block.start?_of_finish {block : Block} {stop : Nat} (none_closed : block.finish stop = []) :
    block.start? = none := by
  cases block with
  | outside => rfl
  | fenced start d => cases none_closed
  | indented start => cases none_closed

/-- A line closes the open block, with a region that does not end before the line, or leaves
    it open. -/
theorem Block.finish_next {block : Block} (l : Line) {stop : Nat} {r : Region}
    (mem : r ∈ block.finish stop) :
    (∃ r' ∈ (block.next l).1, r'.start = r.start ∧ r'.kind = r.kind ∧ l.start ≤ r'.stop) ∨
      r ∈ (block.next l).2.finish stop := by
  cases block with
  | outside => cases mem
  | fenced start d =>
    obtain rfl := List.mem_singleton.mp mem
    by_cases closes : l.fence? = some d
    · exact .inl ⟨⟨start, l.stop, .fenced⟩, by simp [next, closes], rfl, rfl, l.start_le_stop⟩
    · exact .inr (by simp [next, closes, finish])
  | indented start =>
    obtain rfl := List.mem_singleton.mp mem
    by_cases stays : (l.isIndented || l.isBlank) = true
    · exact .inr (by simp [next, stays, finish])
    · exact .inl ⟨⟨start, l.start, .indented⟩, by simp [next, stays], rfl, rfl, Nat.le_refl _⟩

/-- The open block becomes a region that does not end before the other lines. -/
theorem exists_scan_open {stop pos : Nat} {block : Block} {lines : List Line}
    (consecutive : Consecutive stop pos lines) (nonempty : lines ≠ []) {p : Nat} {r : Region}
    (mem : r ∈ block.finish p) :
    ∃ r' ∈ scan stop block lines, r'.start = r.start ∧ r'.kind = r.kind ∧ pos ≤ r'.stop := by
  induction lines generalizing pos block with
  | nil => exact absurd rfl nonempty
  | cons l rest ih =>
    obtain ⟨rfl, behind⟩ := consecutive
    have le := l.start_le_stop
    rw [scan_cons]
    rcases Block.finish_next l mem with ⟨r', closed, same, kind, reaches⟩ | still
    · exact ⟨r', List.mem_append_left _ closed, same, kind, reaches⟩
    · cases rest with
      | nil =>
        -- The text ends with the line, and so does the region.
        have stop_eq : l.stop + 1 = stop + 1 := behind
        obtain ⟨r', mem', same, kind⟩ := Block.finish_elsewhere stop still
        have ends := (Block.mem_finish mem').2
        exact ⟨r', List.mem_append_right _ mem', same, kind, by omega⟩
      | cons next rest =>
        obtain ⟨r', mem', same, kind, reaches⟩ := ih behind (List.cons_ne_nil _ _) still
        exact ⟨r', List.mem_append_right _ mem', same, kind, by omega⟩

/-- A region that is found in the rest of a pass is what becomes of the open block, or
    starts there. -/
theorem mem_scan_cases {stop pos : Nat} {block : Block} {lines : List Line}
    (consecutive : Consecutive stop pos lines) (nonempty : lines ≠ []) (before : block.Before pos)
    (p : Nat) {r : Region} (mem : r ∈ scan stop block lines) :
    (∃ r' ∈ block.finish p, r'.start = r.start ∧ r'.kind = r.kind ∧ pos ≤ r.stop) ∨
      pos ≤ r.start := by
  obtain ⟨ordered, bounds⟩ := scan_ordered consecutive before
  obtain ⟨start_le, lt, -⟩ := bounds r mem
  -- Of two regions that are found, one is behind the other.
  let Apart (a b : Region) : Prop := a = b ∨ a.stop ≤ b.start ∨ b.stop ≤ a.start
  have apart : ∀ ⦃a⦄, a ∈ scan stop block lines → ∀ ⦃b⦄, b ∈ scan stop block lines → Apart a b := by
    have one_way : (scan stop block lines).Pairwise Apart := ordered.imp fun le => .inr (.inl le)
    have other_way : (scan stop block lines).Pairwise (flip Apart) :=
      ordered.imp fun le => .inr (.inr le)
    exact one_way.forall_of_forall_of_flip (fun a _ => .inl rfl) other_way
  cases first : block.finish p with
  | nil =>
    rw [Block.start?_of_finish first, Option.getD_none] at start_le
    exact .inr start_le
  | cons r' more =>
    have mem' : r' ∈ block.finish p := first ▸ List.mem_cons_self
    obtain ⟨found, mem_found, same, kind, reaches⟩ := exists_scan_open consecutive nonempty mem'
    rw [(Block.mem_finish mem').1, Option.getD_some] at start_le
    rcases apart mem_found mem with rfl | behind | ahead
    · exact .inl ⟨r', List.mem_cons_self, same.symm, kind.symm, reaches⟩
    · exact .inr (Nat.le_trans reaches behind)
    · -- No region is found in front of the open block.
      omega

/-- Up to the end of whole lines a pass closes the same regions and leaves the same block
    open, whatever comes behind them. -/
theorem exists_seam {t : Text} (ends : t.EndsLine) :
    ∃ closed block, block.Before t.length ∧ ofText t = closed ++ block.finish t.length ∧
      ∀ u, ofText (t ++ u) =
        closed ++ scan (t ++ u).length block (number t.length (Text.split '\n' u)) := by
  obtain ⟨front, lines⟩ := exists_front ends
  have lines_t : Line.ofText t = front ++ [⟨t.length, []⟩] := by
    rw [← List.append_nil t, lines, List.append_nil]
    rfl
  have none_open : Block.outside.Before 0 := by simp [Block.Before, Block.start?]
  refine ⟨(through .outside front).1, (through .outside front).2, ?_, ?_, fun u => ?_⟩
  · exact before_through (lines_t ▸ consecutive_ofText t) none_open
  · rw [ofText, lines_t, scan_append, scan_empty_line]
  · rw [ofText, lines, scan_append]

section seam

variable {t : Text} (ends : t.EndsLine) (u : Text) {r : Region}

theorem consecutive_appended :
    Consecutive (t ++ u).length t.length (number t.length (Text.split '\n' u)) := by
  rw [List.length_append]
  exact consecutive_number t.length u

theorem number_split_ne_nil (pos : Nat) : number pos (Text.split '\n' u) ≠ [] := by
  obtain ⟨piece, pieces, eq⟩ := List.exists_cons_of_ne_nil (Text.split_ne_nil '\n' u)
  rw [eq, number]
  exact List.cons_ne_nil _ _

include ends

/-- A region of the text is still there, or goes on from the end of the text. -/
theorem region_kept (mem : r ∈ ofText t) : r ∈ ofText (t ++ u) ∨
    r.stop = t.length ∧ ∃ r' ∈ ofText (t ++ u), r'.start = r.start ∧ r'.kind = r.kind ∧
      r.stop ≤ r'.stop := by
  obtain ⟨closed, block, -, regions, longer⟩ := exists_seam ends
  rw [regions] at mem
  rw [longer]
  rcases List.mem_append.mp mem with mem | still
  · exact .inl (List.mem_append_left _ mem)
  · obtain ⟨r', mem', same, kind, reaches⟩ :=
      exists_scan_open (consecutive_appended u) (number_split_ne_nil u _) still
    have stop_eq := (Block.mem_finish still).2
    exact .inr ⟨stop_eq, r', List.mem_append_right _ mem', same, kind, stop_eq ▸ reaches⟩

/-- A region of the longer text that starts in the text is one of the text, which is cut off
    where the text ends. -/
theorem region_cut (mem : r ∈ ofText (t ++ u)) (lt : r.start < t.length) :
    ∃ r' ∈ ofText t, r'.start = r.start ∧ r'.kind = r.kind ∧ r'.stop = min r.stop t.length := by
  obtain ⟨closed, block, before, regions, longer⟩ := exists_seam ends
  rw [longer] at mem
  rcases List.mem_append.mp mem with mem | found
  · have mem : r ∈ ofText t := regions ▸ List.mem_append_left _ mem
    have inside := ((scan_outside_ordered (consecutive_ofText t)).2 r mem).2.2
    exact ⟨r, mem, rfl, rfl, (Nat.min_eq_left inside).symm⟩
  · rcases mem_scan_cases (consecutive_appended u) (number_split_ne_nil u _) before t.length found with
      ⟨r', still, same, kind, reaches⟩ | behind
    · refine ⟨r', regions ▸ List.mem_append_right _ still, same, kind, ?_⟩
      rw [Nat.min_eq_right reaches, (Block.mem_finish still).2]
    · omega

/-- A span within the text is in a region of the text if and only if it is in one of the
    longer text. -/
theorem contained_iff {start stop : Nat} (lt : start < stop) (within : stop ≤ t.length) :
    (∃ r ∈ ofText t, r.contains start stop = true) ↔
      ∃ r ∈ ofText (t ++ u), r.contains start stop = true := by
  simp only [contains, Bool.and_eq_true, decide_eq_true_eq]
  constructor
  · rintro ⟨r, mem, start_le, le_stop⟩
    rcases region_kept ends u mem with mem' | ⟨-, r', mem', same, -, reaches⟩
    · exact ⟨r, mem', start_le, le_stop⟩
    · exact ⟨r', mem', same ▸ start_le, Nat.le_trans le_stop reaches⟩
  · rintro ⟨r, mem, start_le, le_stop⟩
    obtain ⟨r', mem', same, -, stop_eq⟩ := region_cut ends u mem (by omega)
    exact ⟨r', mem', same ▸ start_le, by omega⟩

end seam

end Region

/-! ### Markers -/

namespace Occurrence

/-- The markers of the longer text that end within the text are those of the text. -/
theorem filter_ofText_append (t u : Text) :
    (ofText (t ++ u)).filter (fun o => o.stop ≤ t.length) = ofText t := by
  have increasing (t : Text) : (ofText t).Pairwise fun a b => a.start < b.start :=
    (markers_found t).ordered.imp And.left
  have nodup (t : Text) : (ofText t).Nodup :=
    (increasing t).imp fun lt same => absurd (same ▸ lt) (Nat.lt_irrefl _)
  have same : ((ofText (t ++ u)).filter (fun o => o.stop ≤ t.length)).Perm (ofText t) := by
    refine (List.perm_ext_iff_of_nodup ((nodup _).filter _) (nodup t)).mpr fun o => ?_
    rw [List.mem_filter, mem_ofText_iff, mem_ofText_iff, decide_eq_true_eq]
    constructor
    · rintro ⟨⟨le, -, marker, names⟩, within⟩
      exact ⟨le, within, marker.trans (Text.slice_append t u o.start within), names⟩
    · rintro ⟨le, within, marker, names⟩
      refine ⟨⟨le, ?_, marker.trans (Text.slice_append t u o.start within).symm, names⟩, within⟩
      rw [List.length_append]
      omega
  refine same.eq_of_pairwise ?_ ((increasing _).filter _) (increasing t)
  intro a b _ _ lt lt'
  exact absurd lt (Nat.lt_asymm lt')

end Occurrence

/-! ### Texts -/

/-- How a text is read when it stands in front of another one. -/
structure AppendKeeps (t u : Text) : Prop where
  /-- The outlets that end within the text are the outlets of the text. -/
  outlets : (Template.ofText (t ++ u)).outlets.filter (fun o => o.stop ≤ t.length) =
    (Template.ofText t).outlets
  /-- A region that ends before the text does is the same region. -/
  ended : ∀ r ∈ (Template.ofText t).regions, r.stop < t.length →
    r ∈ (Template.ofText (t ++ u)).regions
  /-- A region that reaches the end of the text does not end earlier. -/
  reaching : ∀ r ∈ (Template.ofText t).regions, t.length ≤ r.stop →
    ∃ r' ∈ (Template.ofText (t ++ u)).regions, r'.start = r.start ∧ r'.kind = r.kind ∧
      r.stop ≤ r'.stop
  /-- No other region starts within the text. -/
  cut : ∀ r' ∈ (Template.ofText (t ++ u)).regions, r'.start < t.length →
    ∃ r ∈ (Template.ofText t).regions, r.start = r'.start ∧ r.kind = r'.kind ∧
      r.stop = min r'.stop t.length
  /-- A marker stays one, and is protected if and only if it was. -/
  markers : ∀ o ∈ Occurrence.ofText t, o ∈ Occurrence.ofText (t ++ u) ∧
    (o ∈ (Template.ofText t).outlets ↔ o ∈ (Template.ofText (t ++ u)).outlets)

/-- What is appended behind whole lines makes no difference to how they are read. -/
theorem append_keeps {t : Text} (ends : t.EndsLine) (u : Text) : AppendKeeps t u := by
  have marker_of {o : Occurrence} (mem : o ∈ Occurrence.ofText t) :
      o ∈ Occurrence.ofText (t ++ u) ∧ o.start < o.stop ∧ o.stop ≤ t.length := by
    have lt := Occurrence.start_lt_stop mem
    rw [← Occurrence.filter_ofText_append t u, List.mem_filter, decide_eq_true_eq] at mem
    exact ⟨mem.1, lt, mem.2⟩
  have protected_iff {o : Occurrence} (mem : o ∈ Occurrence.ofText t) :
      (∃ r ∈ Region.ofText t, r.contains o.start o.stop = true) ↔
        ∃ r ∈ Region.ofText (t ++ u), r.contains o.start o.stop = true := by
    obtain ⟨-, lt, within⟩ := marker_of mem
    exact Region.contained_iff ends u lt within
  constructor
  case outlets =>
    simp only [Template.ofText]
    rw [List.filter_comm, Occurrence.filter_ofText_append]
    refine List.filter_congr fun o mem => ?_
    rw [Bool.eq_iff_iff, Bool.not_eq_true', Bool.not_eq_true', ← Bool.not_eq_true, ← Bool.not_eq_true,
      List.any_eq_true, List.any_eq_true, protected_iff mem]
  case ended =>
    intro r mem lt
    rcases Region.region_kept ends u mem with kept | ⟨stop_eq, -⟩
    · exact kept
    · omega
  case reaching =>
    intro r mem _
    rcases Region.region_kept ends u mem with kept | ⟨-, goes_on⟩
    · exact ⟨r, kept, rfl, rfl, Nat.le_refl _⟩
    · exact goes_on
  case cut => exact fun r' mem lt => Region.region_cut ends u mem lt
  case markers =>
    intro o mem
    refine ⟨(marker_of mem).1, ?_⟩
    rw [Template.mem_outlets_iff, Template.mem_outlets_iff]
    exact and_congr (iff_of_true mem (marker_of mem).1) (not_congr (protected_iff mem))

/-- An indented block at the end of a text goes on over an indented line behind it. -/
theorem append_keeps_indented :
    Text.EndsLine "    x\n".toList ∧ AppendKeeps "    x\n".toList "\ty".toList ∧
    (Template.ofText "    x\n".toList).regions = [⟨0, 6, .indented⟩] ∧
    (Template.ofText ("    x\n".toList ++ "\ty".toList)).regions = [⟨0, 8, .indented⟩] := by
  have ends : Text.EndsLine "    x\n".toList := by decide
  exact ⟨ends, append_keeps ends "\ty".toList, by decide, by decide⟩

end MarkdownOutlets
