import MarkdownOutlets.Proofs.Template.Grammar

/-! # Lines and fenced blocks

  The lines of a text stand in it one behind the other
  (`Line.consecutive_ofText`), and a line is a fence line if it starts with a
  long run of one of two marks (`Line.fence?_eq_some_iff`).

  `Region.Fences` finds the fenced blocks of some lines from left to right, as
  if there were no indented blocks. The pass over the lines, which looks for both
  kinds at once, finds the same ones (`Region.fences_iff`), and what it finds is
  in order (`Region.scan_ordered`).
-/

namespace MarkdownOutlets

/-! ### Lines -/

namespace Line

theorem start_le_stop (l : Line) : l.start ≤ l.stop := Nat.le_add_right _ _

/-- The lines follow each other from the offset `pos` to the end of the text
    at `stop`, with one line break between each two. -/
def Consecutive (stop : Nat) : (pos : Nat) → List Line → Prop
  | pos, [] => pos = stop + 1
  | pos, l :: rest => l.start = pos ∧ Consecutive stop (l.stop + 1) rest

theorem Consecutive.pos_le {stop pos : Nat} {lines : List Line} (h : Consecutive stop pos lines) :
    pos ≤ stop + 1 := by
  induction lines generalizing pos with
  | nil => exact Nat.le_of_eq h
  | cons l rest ih =>
    have le := ih h.2
    have within := l.start_le_stop
    have start := h.1
    omega

theorem Consecutive.bounds {stop pos : Nat} {lines : List Line} (h : Consecutive stop pos lines) :
    ∀ l ∈ lines, pos ≤ l.start ∧ l.stop ≤ stop := by
  induction lines generalizing pos with
  | nil => simp
  | cons l rest ih =>
    have le := h.2.pos_le
    have within := l.start_le_stop
    have start := h.1
    refine List.forall_mem_cons.mpr ⟨by omega, fun l' mem => ?_⟩
    have bounds := ih h.2 l' mem
    omega

/-- Of two lines one is behind the other. -/
theorem Consecutive.apart {stop pos : Nat} {lines : List Line} (h : Consecutive stop pos lines)
    {l l' : Line} (mem : l ∈ lines) (mem' : l' ∈ lines) :
    l = l' ∨ l.stop < l'.start ∨ l'.stop < l.start := by
  induction lines generalizing pos with
  | nil => simp at mem
  | cons first rest ih =>
    have behind (l : Line) (mem : l ∈ rest) : first.stop < l.start := (h.2.bounds l mem).1
    rcases List.mem_cons.mp mem with eq | mem
    · rcases List.mem_cons.mp mem' with eq' | mem'
      · exact .inl (eq.trans eq'.symm)
      · exact .inr (.inl (eq ▸ behind l' mem'))
    · rcases List.mem_cons.mp mem' with eq' | mem'
      · exact .inr (.inr (eq' ▸ behind l mem))
      · exact ih h.2 mem mem'

theorem split_cons_ne {sep c : Char} (ne : c ≠ sep) (cs : Text) :
    ∃ piece pieces, Text.split sep cs = piece :: pieces ∧
      Text.split sep (c :: cs) = (c :: piece) :: pieces := by
  obtain ⟨piece, pieces, eq⟩ := List.exists_cons_of_ne_nil (Text.split_ne_nil sep cs)
  exact ⟨piece, pieces, eq, by rw [Text.split, if_neg ne, eq]⟩

theorem consecutive_number (pos : Nat) (t : Text) :
    Consecutive (pos + t.length) pos (number pos (Text.split '\n' t)) := by
  induction t generalizing pos with
  | nil => exact ⟨rfl, rfl⟩
  | cons c cs ih =>
    have rest := ih (pos + 1)
    have stop_eq : pos + 1 + cs.length = pos + (c :: cs).length := by
      rw [List.length_cons]
      omega
    rw [stop_eq] at rest
    by_cases newline : c = '\n'
    · rw [Text.split, if_pos newline]
      exact ⟨rfl, rest⟩
    · -- The first line is longer by one, and the others are the same.
      obtain ⟨piece, pieces, eq, eq'⟩ := split_cons_ne newline cs
      rw [eq] at rest
      rw [eq']
      have same : pos + 1 + piece.length + 1 = pos + (c :: piece).length + 1 := by
        rw [List.length_cons]
        omega
      exact ⟨rfl, by simpa only [number, stop, same] using rest.2⟩

theorem consecutive_ofText (t : Text) : Consecutive t.length 0 (ofText t) := by
  have numbered := consecutive_number 0 t
  rwa [Nat.zero_add] at numbered

theorem map_content_number (pos : Nat) (pieces : List Text) :
    (number pos pieces).map (·.content) = pieces := by
  induction pieces generalizing pos with
  | nil => rfl
  | cons piece pieces ih => simp only [number, List.map_cons, ih]

/-- A line stands in the text where it says. -/
theorem slice_number (front : Text) {pieces : List Text} {l : Line}
    (mem : l ∈ number front.length pieces) :
    (front ++ Text.join ['\n'] pieces).slice l.start l.stop = l.content := by
  induction pieces generalizing front with
  | nil => simp [number] at mem
  | cons piece pieces ih =>
    rcases List.mem_cons.mp mem with rfl | mem
    · have drop_eq : ∃ rest, (front ++ Text.join ['\n'] (piece :: pieces)).drop front.length =
          piece ++ rest := by
        rw [List.drop_left]
        cases pieces with
        | nil => exact ⟨[], by simp [Text.join, List.intercalate]⟩
        | cons next pieces =>
          exact ⟨'\n' :: Text.join ['\n'] (next :: pieces), by simp [Text.join, List.intercalate]⟩
      obtain ⟨rest, eq⟩ := drop_eq
      exact Text.slice_of_drop eq
    · cases pieces with
      | nil => simp [number] at mem
      | cons next pieces =>
        have joined : front ++ Text.join ['\n'] (piece :: next :: pieces) =
            (front ++ piece ++ ['\n']) ++ Text.join ['\n'] (next :: pieces) := by
          simp [Text.join, List.intercalate]
        rw [joined]
        exact ih _ (by simpa [Nat.add_assoc] using mem)

/-- Every character but a line break is on some line. -/
theorem exists_number (pos : Nat) {t : Text} {c : Char} {k : Nat} (at_k : t[k]? = some c)
    (ne : c ≠ '\n') :
    ∃ l ∈ number pos (Text.split '\n' t), l.start ≤ pos + k ∧ pos + k < l.stop := by
  induction t generalizing pos k with
  | nil => simp at at_k
  | cons d cs ih =>
    by_cases newline : d = '\n'
    · rw [Text.split, if_pos newline]
      cases k with
      | zero =>
        obtain rfl : d = c := by simpa using at_k
        exact absurd newline ne
      | succ k =>
        obtain ⟨l, mem, start, stop⟩ := ih (pos + 1) (by simpa using at_k)
        exact ⟨l, List.mem_cons_of_mem _ mem, by omega, by omega⟩
    · obtain ⟨piece, pieces, eq, eq'⟩ := split_cons_ne newline cs
      rw [eq']
      cases k with
      | zero =>
        refine ⟨_, List.mem_cons_self .., Nat.le_refl pos, ?_⟩
        simp [stop]
      | succ k =>
        obtain ⟨l, mem, start, stop⟩ := ih (pos + 1) (by simpa using at_k)
        rw [eq] at mem
        rcases List.mem_cons.mp mem with rfl | mem
        · refine ⟨_, List.mem_cons_self .., Nat.le_add_right pos _, ?_⟩
          simp only [Line.stop, List.length_cons] at stop ⊢
          omega
        · have same : pos + 1 + piece.length + 1 = pos + (d :: piece).length + 1 := by
            rw [List.length_cons]
            omega
          rw [same] at mem
          exact ⟨l, List.mem_cons_of_mem _ mem, by omega, by omega⟩

/-! ### Fence lines -/

/-- A run is as long as it can be. -/
theorem run?_eq_some_iff {mark : Char} {t d : Text} :
    run? mark t = some d ↔ ∃ n rest, 3 ≤ n ∧ d = List.replicate n mark ∧ t = d ++ rest ∧
      rest.head? ≠ some mark := by
  have replicate_eq : t.takeWhile (· == mark) =
      List.replicate (t.takeWhile (· == mark)).length mark :=
    List.eq_replicate_of_mem fun c mem => by simpa using List.mem_takeWhile_imp mem
  unfold run?
  simp only [Option.ite_none_right_eq_some, Option.some.injEq]
  constructor
  · rintro ⟨long, rfl⟩
    refine ⟨_, t.dropWhile (· == mark), long, replicate_eq,
      List.takeWhile_append_dropWhile.symm, ?_⟩
    intro head
    have stops := List.head?_dropWhile_not (· == mark) t
    rw [head] at stops
    simp at stops
  · rintro ⟨n, rest, long, rfl, rfl, stops⟩
    have behind : rest.takeWhile (· == mark) = [] := by
      cases rest with
      | nil => rfl
      | cons c rest =>
        have ne : c ≠ mark := by simpa using stops
        rw [List.takeWhile_cons_of_neg (by simpa using ne)]
    have run_eq : (List.replicate n mark ++ rest).takeWhile (· == mark) =
        List.replicate n mark := by
      rw [List.takeWhile_append_of_pos (fun c mem => by simp [List.eq_of_mem_replicate mem]),
        behind, List.append_nil]
    rw [run_eq, List.length_replicate]
    exact ⟨long, rfl⟩

/-- The delimiter of a fence line is the longest run of its mark, of which there
    are two. -/
theorem fence?_eq_some_iff {l : Line} {d : Text} :
    l.fence? = some d ↔ ∃ mark, (mark = '\x60' ∨ mark = '~') ∧ ∃ n rest, 3 ≤ n ∧
      d = List.replicate n mark ∧ l.content = d ++ rest ∧ rest.head? ≠ some mark := by
  unfold fence?
  constructor
  · intro h
    rcases Option.or_eq_some_iff.mp h with h | ⟨-, h⟩
    · exact ⟨_, .inl rfl, run?_eq_some_iff.mp h⟩
    · exact ⟨_, .inr rfl, run?_eq_some_iff.mp h⟩
  · rintro ⟨mark, rfl | rfl, h⟩
    · rw [run?_eq_some_iff.mpr h, Option.some_or]
    · have other : run? '\x60' l.content = none := by
        -- The first character decides which mark it is.
        obtain ⟨n, rest, long, rfl, eq, -⟩ := h
        obtain ⟨n, rfl⟩ : ∃ m, n = m + 1 := ⟨n - 1, by omega⟩
        simp [run?, eq, List.replicate_succ]
      rw [other, Option.none_or]
      exact run?_eq_some_iff.mpr h

/-- A fence line starts with its mark. -/
theorem content_of_fence? {l : Line} {d : Text} (h : l.fence? = some d) :
    ∃ mark rest, (mark = '\x60' ∨ mark = '~') ∧ l.content = mark :: rest := by
  obtain ⟨mark, which, n, rest, long, rfl, eq, -⟩ := fence?_eq_some_iff.mp h
  obtain ⟨n, rfl⟩ : ∃ m, n = m + 1 := ⟨n - 1, by omega⟩
  exact ⟨mark, _, which, by rw [eq, List.replicate_succ, List.cons_append]⟩

/-- A fence line is neither indented nor blank. -/
theorem plain_of_fence? {l : Line} {d : Text} (h : l.fence? = some d) :
    l.isIndented = false ∧ l.isBlank = false := by
  have not_blank : MarkdownOutlets.isBlank '\x60' = false ∧
      MarkdownOutlets.isBlank '~' = false := by
    decide
  obtain ⟨mark, rest, rfl | rfl, eq⟩ := content_of_fence? h
  · exact ⟨by simp [isIndented, eq], by simp [isBlank, Text.isBlankText, eq, not_blank]⟩
  · exact ⟨by simp [isIndented, eq], by simp [isBlank, Text.isBlankText, eq, not_blank]⟩

theorem fence?_eq_none {l : Line} (h : l.isIndented = true ∨ l.isBlank = true) :
    l.fence? = none := by
  cases fence : l.fence? with
  | none => rfl
  | some d =>
    obtain ⟨not_indented, not_blank⟩ := plain_of_fence? fence
    simp [not_indented, not_blank] at h

end Line

namespace Region

open Line

/-! ### Fenced blocks -/

/-- The fenced ones among some regions. -/
def fencedOnly (regions : List Region) : List Region := regions.filter fun r => r.kind = .fenced

/-- The regions of the fenced blocks of some lines, when `stop` is the end of
    the text. -/
inductive Fences (stop : Nat) : List Line → List Region → Prop
  /-- No line is left. -/
  | nil : Fences stop [] []
  /-- A line that is no fence line opens no block. -/
  | plain {l : Line} {rest : List Line} {regions : List Region} (plain : l.fence? = none)
      (behind : Fences stop rest regions) : Fences stop (l :: rest) regions
  /-- A fence line opens a block, and the next fence line with the same
      delimiter closes it. -/
  | closed {opening closing : Line} {inside rest : List Line} {regions : List Region}
      {delimiter : Text} (opens : opening.fence? = some delimiter)
      (others : ∀ l ∈ inside, l.fence? ≠ some delimiter) (closes : closing.fence? = some delimiter)
      (behind : Fences stop rest regions) :
      Fences stop (opening :: (inside ++ closing :: rest))
        (⟨opening.start, closing.stop, .fenced⟩ :: regions)
  /-- No fence line closes the block, which goes on to the end of the text. -/
  | unclosed {opening : Line} {rest : List Line} {delimiter : Text}
      (opens : opening.fence? = some delimiter)
      (others : ∀ l ∈ rest, l.fence? ≠ some delimiter) :
      Fences stop (opening :: rest) [⟨opening.start, stop, .fenced⟩]

theorem exists_fences (stop : Nat) (lines : List Line) : ∃ regions, Fences stop lines regions := by
  induction length_eq : lines.length using Nat.strongRecOn generalizing lines with
  | ind n ih =>
    cases lines with
    | nil => exact ⟨[], .nil⟩
    | cons l rest =>
      rw [List.length_cons] at length_eq
      cases fence : l.fence? with
      | none =>
        obtain ⟨regions, behind⟩ := ih rest.length (by omega) rest rfl
        exact ⟨regions, .plain fence behind⟩
      | some d =>
        cases found : rest.find? fun l => l.fence? = some d with
        | none =>
          refine ⟨_, .unclosed fence fun l mem => ?_⟩
          simpa using List.find?_eq_none.mp found l mem
        | some closing =>
          obtain ⟨closes, inside, rest, rfl, others⟩ := List.find?_eq_some_iff_append.mp found
          rw [List.length_append, List.length_cons] at length_eq
          obtain ⟨regions, behind⟩ := ih rest.length (by omega) rest rfl
          refine ⟨_, .closed fence (fun l mem => ?_) (by simpa using closes) behind⟩
          simpa using others l mem

theorem scan_cons (stop : Nat) (block : Block) (l : Line) (rest : List Line) :
    scan stop block (l :: rest) = (block.next l).1 ++ scan stop (block.next l).2 rest := rfl

/-- Lines that do not close a fenced block leave it open. -/
theorem scan_fenced_append (stop start : Nat) {delimiter : Text} {inside : List Line}
    (others : ∀ l ∈ inside, l.fence? ≠ some delimiter) (more : List Line) :
    scan stop (.fenced start delimiter) (inside ++ more) =
      scan stop (.fenced start delimiter) more := by
  induction inside with
  | nil => rfl
  | cons l inside ih =>
    have other := others l (by simp)
    rw [List.cons_append, scan_cons]
    simp only [Block.next, if_neg other, List.nil_append]
    exact ih fun l mem => others l (by simp [mem])

theorem opened_of_plain {l : Line} (plain : l.fence? = none) :
    Block.opened l = if l.isIndented && !l.isBlank then .indented l.start else .outside := by
  simp only [Block.opened, plain]

theorem opened_of_fence {l : Line} {d : Text} (fence : l.fence? = some d) :
    Block.opened l = .fenced l.start d := by
  simp only [Block.opened, fence]

/-- An open indented block makes no difference to the fenced ones. -/
theorem fencedOnly_scan_indented (stop start : Nat) (lines : List Line) :
    fencedOnly (scan stop (.indented start) lines) = fencedOnly (scan stop .outside lines) := by
  induction lines generalizing start with
  | nil => rfl
  | cons l rest ih =>
    simp only [scan_cons, Block.next, List.nil_append]
    by_cases stays : (l.isIndented || l.isBlank) = true
    · have plain := fence?_eq_none (by simpa using stays)
      rw [if_pos stays, opened_of_plain plain]
      split
      · exact (ih start).trans (ih l.start).symm
      · exact ih start
    · rw [if_neg stays]
      simp [fencedOnly]

/-- The pass finds the fenced blocks that are found without indented ones. -/
theorem Fences.eq_scan {stop : Nat} {lines : List Line} {regions : List Region}
    (h : Fences stop lines regions) : regions = fencedOnly (scan stop .outside lines) := by
  induction h with
  | nil => rfl
  | @plain l rest regions plain _ ih =>
    rw [scan_cons]
    simp only [Block.next, opened_of_plain plain, List.nil_append]
    split
    · rw [fencedOnly_scan_indented]
      exact ih
    · exact ih
  | closed opens others closes _ ih =>
    rw [scan_cons]
    simp only [Block.next, opened_of_fence opens, List.nil_append]
    rw [scan_fenced_append _ _ others, scan_cons]
    simp only [Block.next, if_pos closes]
    simpa [fencedOnly] using ih
  | @unclosed opening rest _ opens others =>
    have open_still := scan_fenced_append stop opening.start others []
    rw [List.append_nil] at open_still
    rw [scan_cons]
    simp only [Block.next, opened_of_fence opens, List.nil_append]
    rw [open_still]
    rfl

theorem fences_iff {stop : Nat} {lines : List Line} {regions : List Region} :
    Fences stop lines regions ↔ regions = fencedOnly (scan stop .outside lines) := by
  constructor
  · exact Fences.eq_scan
  · rintro rfl
    obtain ⟨regions, fences⟩ := exists_fences stop lines
    exact fences.eq_scan ▸ fences

/-! ### Regions in order -/

/-- Where the open block started, if one is open. -/
def Block.start? : Block → Option Nat
  | .outside => none
  | .fenced start _ => some start
  | .indented start => some start

/-- The line that opens a block is not empty. -/
theorem Block.start?_opened {l : Line} {s : Nat} (h : (Block.opened l).start? = some s) :
    s = l.start ∧ l.start < l.stop := by
  have longer (nonempty : l.content ≠ []) : l.start < l.stop := by
    have positive := List.length_pos_iff.mpr nonempty
    rw [Line.stop]
    omega
  cases fence : l.fence? with
  | some d =>
    obtain ⟨mark, rest, -, eq⟩ := content_of_fence? fence
    rw [opened_of_fence fence] at h
    exact ⟨(Option.some.inj h).symm, longer (by simp [eq])⟩
  | none =>
    rw [opened_of_plain fence] at h
    split at h
    · rename_i opens
      refine ⟨(Option.some.inj h).symm, longer fun empty => ?_⟩
      have blank : l.isBlank = true := by simp [Line.isBlank, Text.isBlankText, empty]
      simp [blank] at opens
    · simp [Block.start?] at h

/-- A block that is open behind a line was open before it, or starts with it. -/
theorem Block.start?_next {block : Block} {l : Line} {s : Nat}
    (h : (block.next l).2.start? = some s) :
    block.start? = some s ∨ s = l.start ∧ l.start < l.stop := by
  cases block with
  | outside => exact .inr (start?_opened h)
  | fenced s' d =>
    simp only [next] at h
    split at h
    · simp [start?] at h
    · exact .inl h
  | indented s' =>
    simp only [next] at h
    split at h
    · exact .inl h
    · exact .inr (start?_opened h)

/-- A line closes only the block that is open: at its end if that is a fenced
    block, and in front of it if that is an indented one. -/
theorem Block.mem_next {block : Block} {l : Line} {r : Region} (mem : r ∈ (block.next l).1) :
    block.start? = some r.start ∧ (block.next l).1 = [r] ∧
      (r.kind = .fenced ∧ r.stop = l.stop ∧ (block.next l).2 = .outside ∨
        r.kind = .indented ∧ r.stop = l.start ∧ (block.next l).2 = .opened l) := by
  cases block with
  | outside => simp [next] at mem
  | fenced s d =>
    simp only [next] at mem ⊢
    split at mem
    · rename_i closes
      obtain rfl := List.mem_singleton.mp mem
      simp [closes, start?]
    · simp at mem
  | indented s =>
    simp only [next] at mem ⊢
    split at mem
    · simp at mem
    · rename_i ends
      obtain rfl := List.mem_singleton.mp mem
      simp [ends, start?]

/-- The block, if one is open, started on a line before the offset `pos`. -/
def Block.Before (pos : Nat) (block : Block) : Prop := ∀ s, block.start? = some s → s + 1 < pos

theorem Block.Before.next {block : Block} {l : Line} (before : block.Before l.start) :
    (block.next l).2.Before (l.stop + 1) := by
  intro s eq
  have le := l.start_le_stop
  rcases start?_next eq with eq | ⟨rfl, lt⟩
  · have := before s eq
    omega
  · omega

/-- What is open behind a line does not start earlier than what is open before
    it. -/
theorem Block.Before.getD_le {block : Block} {l : Line} (before : block.Before l.start) :
    block.start?.getD l.start ≤ (block.next l).2.start?.getD (l.stop + 1) := by
  have le := l.start_le_stop
  have first : block.start?.getD l.start ≤ l.start := by
    cases eq : block.start? with
    | none => exact Nat.le_refl _
    | some s =>
      have := before s eq
      rw [Option.getD_some]
      omega
  cases eq : (block.next l).2.start? with
  | none =>
    rw [Option.getD_none]
    omega
  | some s =>
    rw [Option.getD_some]
    rcases start?_next eq with same | ⟨rfl, -⟩
    · rw [same, Option.getD_some]
    · exact first

/-- A region that a line closes is not empty, and ends before what is open
    behind the line. -/
theorem Block.Before.closed {block : Block} {l : Line} (before : block.Before l.start)
    {r : Region} (mem : r ∈ (block.next l).1) :
    r.start < r.stop ∧ r.stop ≤ l.stop ∧ r.stop ≤ (block.next l).2.start?.getD (l.stop + 1) := by
  obtain ⟨start, -, which⟩ := mem_next mem
  have lt := before _ start
  have le := l.start_le_stop
  rcases which with ⟨-, stop, next⟩ | ⟨-, stop, next⟩
  · rw [next]
    simp only [start?, Option.getD_none]
    omega
  · have opened_le : l.start ≤ (opened l).start?.getD (l.stop + 1) := by
      cases eq : (opened l).start? with
      | none =>
        rw [Option.getD_none]
        omega
      | some s => exact Nat.le_of_eq (start?_opened eq).1.symm
    rw [next]
    omega

/-- The regions that are found are not empty, and each one ends before the next
    one starts. -/
theorem scan_ordered {stop pos : Nat} {block : Block} {lines : List Line}
    (consecutive : Consecutive stop pos lines) (before : block.Before pos) :
    (scan stop block lines).Pairwise (fun r r' => r.stop ≤ r'.start) ∧
      ∀ r ∈ scan stop block lines,
        block.start?.getD pos ≤ r.start ∧ r.start < r.stop ∧ r.stop ≤ stop := by
  induction lines generalizing block pos with
  | nil =>
    have pos_eq : pos = stop + 1 := consecutive
    have lt (s : Nat) (eq : block.start? = some s) : s < stop := by
      have := before s eq
      omega
    cases block with
    | outside => simp [scan, Block.finish]
    | fenced s d => simpa [scan, Block.finish, Block.start?] using lt
    | indented s => simpa [scan, Block.finish, Block.start?] using lt
  | cons l rest ih =>
    obtain ⟨rfl, behind⟩ := consecutive
    have stop_le := behind.pos_le
    obtain ⟨ordered, bounds⟩ := ih behind before.next
    rw [scan_cons]
    constructor
    · refine List.pairwise_append.mpr ⟨?_, ordered, fun r mem r' mem' => ?_⟩
      · -- At most one region is closed.
        cases closed : (block.next l).1 with
        | nil => exact .nil
        | cons r more =>
          have one := (Block.mem_next (closed ▸ List.mem_cons_self .. : r ∈ (block.next l).1)).2.1
          rw [← closed, one]
          exact List.pairwise_singleton _ _
      · exact Nat.le_trans (before.closed mem).2.2 (bounds r' mem').1
    · intro r mem
      rcases List.mem_append.mp mem with mem | mem
      · obtain ⟨lt, le, -⟩ := before.closed mem
        rw [(Block.mem_next mem).1, Option.getD_some]
        omega
      · obtain ⟨start, within⟩ := bounds r mem
        exact ⟨Nat.le_trans before.getD_le start, within⟩

/-- The same when no block is open. -/
theorem scan_outside_ordered {stop pos : Nat} {lines : List Line}
    (consecutive : Consecutive stop pos lines) :
    (scan stop .outside lines).Pairwise (fun r r' => r.stop ≤ r'.start) ∧
      ∀ r ∈ scan stop .outside lines, pos ≤ r.start ∧ r.start < r.stop ∧ r.stop ≤ stop :=
  scan_ordered consecutive (by simp [Block.Before, Block.start?])

/-- Regions start with lines, and end with lines or in front of them. -/
theorem scan_places {stop : Nat} {block : Block} {lines : List Line} :
    ∀ r ∈ scan stop block lines,
      (block.start? = some r.start ∨ ∃ l ∈ lines, l.start = r.start) ∧
        (r.stop = stop ∨ ∃ l ∈ lines, l.start = r.stop ∨ l.stop = r.stop) := by
  induction lines generalizing block with
  | nil =>
    cases block with
    | outside => simp [scan, Block.finish]
    | fenced s d => simp [scan, Block.finish, Block.start?]
    | indented s => simp [scan, Block.finish, Block.start?]
  | cons l rest ih =>
    intro r mem
    rw [scan_cons] at mem
    rcases List.mem_append.mp mem with mem | mem
    · obtain ⟨start, -, which⟩ := Block.mem_next mem
      refine ⟨.inl start, .inr ⟨l, by simp, ?_⟩⟩
      rcases which with ⟨-, eq, -⟩ | ⟨-, eq, -⟩
      · exact .inr eq.symm
      · exact .inl eq.symm
    · obtain ⟨start, stop⟩ := ih r mem
      constructor
      · rcases start with start | ⟨l', mem', eq⟩
        · rcases Block.start?_next start with start | ⟨eq, -⟩
          · exact .inl start
          · exact .inr ⟨l, by simp, eq.symm⟩
        · exact .inr ⟨l', by simp [mem'], eq⟩
      · rcases stop with stop | ⟨l', mem', eq⟩
        · exact .inl stop
        · exact .inr ⟨l', by simp [mem'], eq⟩

end Region

end MarkdownOutlets
