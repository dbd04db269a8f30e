import MarkdownOutlets.Proofs.Template.FencedBlocks

/-! # Code blocks, line by line

  A template is read in one pass over its lines, in which a line is outside of
  any block, inside a fenced block or inside an indented one. Here the indented
  blocks are described apart from the pass: `Region.IndentedBlock` is a run of
  lines outside of the fenced regions which is as long as it can be.

  `Region.Midway` is what is known in the middle of the pass. A line keeps it
  (`Region.Midway.step`), and it says which indented blocks the rest of the pass
  will find (`Region.Midway.mem_scan_iff`). The main statement, `blocks_found`,
  compares the regions of a text with the two descriptions, and says which
  markers they keep from being outlets.
-/

namespace MarkdownOutlets

namespace Region

open Line

/-! ### Lines and the fenced regions -/

/-- The line is in none of the regions. -/
def Spare (regions : List Region) (l : Line) : Prop :=
  ∀ r ∈ regions, r.contains l.start l.stop = false

theorem mem_fencedOnly {regions : List Region} {r : Region} :
    r ∈ fencedOnly regions ↔ r ∈ regions ∧ r.kind = .fenced := by
  simp [fencedOnly]

/-- The region of an open fenced block goes over the next line. -/
theorem exists_fenced (start : Nat) (delimiter : Text) {stop pos : Nat} {lines : List Line}
    (consecutive : Consecutive stop pos lines) :
    ∃ r ∈ fencedOnly (scan stop (.fenced start delimiter) lines), r.start = start ∧
      pos ≤ r.stop + 1 ∧ ∀ l rest, lines = l :: rest → l.stop ≤ r.stop := by
  induction lines generalizing pos with
  | nil =>
    have pos_eq : pos = stop + 1 := consecutive
    exact ⟨⟨start, stop, .fenced⟩, by simp [scan, Block.finish, fencedOnly], rfl,
      Nat.le_of_eq pos_eq, by simp⟩
  | cons l rest ih =>
    obtain ⟨rfl, behind⟩ := consecutive
    have le := l.start_le_stop
    rw [scan_cons]
    simp only [Block.next]
    split
    · refine ⟨⟨start, l.stop, .fenced⟩, by simp [fencedOnly], rfl, Nat.le_succ_of_le le, ?_⟩
      rintro _ _ ⟨⟩
      exact Nat.le_refl _
    · obtain ⟨r, mem, start_eq, le', -⟩ := ih behind
      refine ⟨r, mem, start_eq, by omega, ?_⟩
      rintro _ _ ⟨⟩
      omega

/-- A line that is no fence line, outside of fenced blocks, makes no difference
    to them. -/
theorem fencedOnly_scan_plain {stop : Nat} {block : Block} {l : Line} {rest : List Line}
    (plain : l.fence? = none) (not_fenced : ∀ s d, block ≠ .fenced s d) :
    fencedOnly (scan stop block (l :: rest)) = fencedOnly (scan stop .outside rest) := by
  have outside : fencedOnly (scan stop .outside (l :: rest)) =
      fencedOnly (scan stop .outside rest) := by
    rw [scan_cons]
    simp only [Block.next, opened_of_plain plain, List.nil_append]
    split
    · exact fencedOnly_scan_indented ..
    · rfl
  cases block with
  | outside => exact outside
  | fenced s d => exact absurd rfl (not_fenced s d)
  | indented s => exact (fencedOnly_scan_indented ..).trans outside

/-- A fence line opens a fenced block wherever none is open. -/
theorem next_of_fence {block : Block} {l : Line} {d : Text} (fence : l.fence? = some d)
    (not_fenced : ∀ s d, block ≠ .fenced s d) : (block.next l).2 = .fenced l.start d := by
  cases block with
  | outside => exact opened_of_fence fence
  | fenced s d => exact absurd rfl (not_fenced s d)
  | indented s =>
    obtain ⟨not_indented, not_blank⟩ := plain_of_fence? fence
    simp [Block.next, not_indented, not_blank, opened_of_fence fence]

/-- A line that is no fence line, outside of fenced blocks, is apart from all fenced
    regions. -/
theorem away_of_plain {stop : Nat} {block : Block} {l : Line} {rest : List Line}
    {closed : List Region} (consecutive : Consecutive stop l.start (l :: rest))
    (passed : ∀ r ∈ closed, r.stop < l.start) (not_fenced : ∀ s d, block ≠ .fenced s d)
    (plain : l.fence? = none) :
    ∀ r ∈ closed ++ fencedOnly (scan stop block (l :: rest)),
      r.stop < l.start ∨ l.stop < r.start := by
  intro r mem
  rcases List.mem_append.mp mem with mem | mem
  · exact .inl (passed r mem)
  · rw [fencedOnly_scan_plain plain not_fenced] at mem
    exact .inr ((scan_outside_ordered consecutive.2).2 r (mem_fencedOnly.mp mem).1).1

/-- The next line is in no fenced region if no fenced block is open and it does
    not open one. -/
theorem spare_iff {stop : Nat} {block : Block} {l : Line} {rest : List Line}
    {closed : List Region} (consecutive : Consecutive stop l.start (l :: rest))
    (before : block.Before l.start) (passed : ∀ r ∈ closed, r.stop < l.start) :
    Spare (closed ++ fencedOnly (scan stop block (l :: rest))) l ↔
      (∀ s d, block ≠ .fenced s d) ∧ l.fence? = none := by
  have le := l.start_le_stop
  constructor
  · -- Otherwise a region would hold the line.
    intro spare
    have no_region {r : Region} (mem : r ∈ fencedOnly (scan stop block (l :: rest)))
        (start : r.start ≤ l.start) (stop : l.stop ≤ r.stop) : False := by
      have out := spare r (List.mem_append_right _ mem)
      simp [contains, start, stop] at out
    have not_fenced (s : Nat) (d : Text) : block ≠ .fenced s d := by
      rintro rfl
      obtain ⟨r, mem, start, -, stop⟩ := exists_fenced s d consecutive
      have := before s rfl
      exact no_region mem (by omega) (stop l rest rfl)
    refine ⟨not_fenced, ?_⟩
    by_contra fence
    obtain ⟨d, fence⟩ := Option.ne_none_iff_exists'.mp fence
    obtain ⟨r, mem, start, stop, -⟩ :=
      exists_fenced l.start d consecutive.2
    refine no_region (r := r) ?_ (by omega) (by omega)
    rw [scan_cons, next_of_fence fence not_fenced, fencedOnly, List.filter_append]
    exact List.mem_append_right _ mem
  · rintro ⟨not_fenced, plain⟩ r mem
    have away := away_of_plain consecutive passed not_fenced plain r mem
    simp only [contains, Bool.and_eq_false_iff, decide_eq_false_iff_not]
    omega

/-! ### Indented blocks -/

/-- The lines are outside of the fenced regions, the first one is indented and
    not blank, and all are indented or blank. -/
structure IndentedRun (fenced : List Region) (run : List Line) : Prop where
  /-- The first line opens the run. -/
  opens : ∃ l rest, run = l :: rest ∧ l.isIndented = true ∧ l.isBlank = false
  /-- Each line may stand in it. -/
  each : ∀ l ∈ run, Spare fenced l ∧ (l.isIndented = true ∨ l.isBlank = true)

/-- The lines `run` behind the lines `before` are a run, which cannot start
    earlier. -/
structure StartsRun (fenced : List Region) (before run : List Line) : Prop where
  /-- They are a run. -/
  isRun : IndentedRun fenced run
  /-- They are none any more together with some of the lines before them. -/
  earliest : ∀ front back, before = front ++ back → back ≠ [] → ¬ IndentedRun fenced (back ++ run)

/-- The lines `run` between the lines `before` and `after` are an indented
    block: a run that cannot start earlier, and ends only in front of a line
    that is fenced or is neither indented nor blank. -/
structure IndentedBlock (fenced : List Region) (before run after : List Line) : Prop
    extends StartsRun fenced before run where
  /-- The line behind it, if there is one, may not stand in it. -/
  latest : ∀ l rest, after = l :: rest →
    ¬ Spare fenced l ∨ l.isIndented = false ∧ l.isBlank = false

/-- Where the first one of some lines starts, or the end of the text if there is
    none. -/
def startOf (stop : Nat) : List Line → Nat
  | [] => stop
  | l :: _ => l.start

namespace IndentedRun

variable {fenced : List Region} {run more : List Line} {l : Line}

theorem ne_nil (h : IndentedRun fenced run) : run ≠ [] := by
  obtain ⟨l, rest, rfl, -⟩ := h.opens
  simp

/-- The first lines of a run are a run. -/
theorem of_append (h : IndentedRun fenced (run ++ more)) (nonempty : run ≠ []) :
    IndentedRun fenced run := by
  obtain ⟨l, rest, rfl⟩ := List.exists_cons_of_ne_nil nonempty
  obtain ⟨l', rest', eq, opens⟩ := h.opens
  obtain ⟨rfl, -⟩ := List.cons.inj eq
  exact ⟨⟨l, rest, rfl, opens⟩, fun l mem => h.each l (List.mem_append_left _ mem)⟩

theorem append_line (h : IndentedRun fenced run) (spare : Spare fenced l)
    (fits : l.isIndented = true ∨ l.isBlank = true) : IndentedRun fenced (run ++ [l]) := by
  obtain ⟨first, rest, rfl, opens⟩ := h.opens
  refine ⟨⟨first, rest ++ [l], rfl, opens⟩, fun l' mem => ?_⟩
  rcases List.mem_append.mp mem with mem | mem
  · exact h.each l' mem
  · obtain rfl := List.mem_singleton.mp mem
    exact ⟨spare, fits⟩

end IndentedRun

namespace StartsRun

variable {fenced : List Region} {front front' run run' : List Line} {l : Line}

/-- Of the runs that end at the same place, one cannot start earlier. -/
theorem unique (h : StartsRun fenced front run) (h' : StartsRun fenced front' run')
    (eq : front ++ run = front' ++ run') : run = run' := by
  rcases List.append_eq_append_iff.mp eq with ⟨back, front_eq, run_eq⟩ | ⟨back, front_eq, run_eq⟩
  · by_cases empty : back = []
    · simpa [empty] using run_eq
    · exact absurd (run_eq ▸ h.isRun) (h'.earliest front back front_eq empty)
  · by_cases empty : back = []
    · simpa [empty] using run_eq.symm
    · exact absurd (run_eq ▸ h'.isRun) (h.earliest front' back front_eq empty)

theorem append_line (h : StartsRun fenced front run) (spare : Spare fenced l)
    (fits : l.isIndented = true ∨ l.isBlank = true) : StartsRun fenced front (run ++ [l]) := by
  refine ⟨h.isRun.append_line spare fits, fun front' back eq nonempty longer => ?_⟩
  rw [← List.append_assoc] at longer
  exact h.earliest front' back eq nonempty (longer.of_append (by simp [nonempty]))

end StartsRun

/-! ### The pass -/

/-- What is known when the lines `before` are read, with `block` open behind
    them, and the lines `after` at the offset `pos` are not. -/
structure Midway (stop : Nat) (fenced : List Region) (pos : Nat) (before : List Line)
    (block : Block) (after : List Line) : Prop where
  /-- The other lines go on to the end of the text. -/
  consecutive : Consecutive stop pos after
  /-- The open block started before. -/
  started : block.Before pos
  /-- The fenced regions are those that were found, and those to be found. -/
  passed : ∃ closed, fenced = closed ++ fencedOnly (scan stop block after) ∧
    ∀ r ∈ closed, r.stop < pos
  /-- An open indented block is a run, which is as long as it can be so far. -/
  within : ∀ s, block = .indented s →
    ∃ front run, before = front ++ run ∧ StartsRun fenced front run ∧ startOf stop run = s
  /-- If none is open, then there is no run that could go on. -/
  without : (∀ s, block ≠ .indented s) →
    ∀ front run, before = front ++ run → ¬ IndentedRun fenced run

namespace Midway

variable {stop pos : Nat} {fenced : List Region} {before after rest : List Line} {block : Block}
  {l : Line}

theorem spare_iff (h : Midway stop fenced pos before block (l :: rest)) :
    Spare fenced l ↔ (∀ s d, block ≠ .fenced s d) ∧ l.fence? = none := by
  obtain ⟨closed, rfl, passed⟩ := h.passed
  obtain rfl := h.consecutive.1
  exact Region.spare_iff h.consecutive h.started passed

/-- Lines that are read one after the other end with the last one of them. -/
theorem append_singleton_eq {front run : List Line} (eq : before ++ [l] = front ++ run)
    (nonempty : run ≠ []) : ∃ first, run = first ++ [l] ∧ before = front ++ first := by
  obtain ⟨first, last, rfl⟩ : ∃ first last, run = first ++ [last] :=
    ⟨run.dropLast, run.getLast nonempty, (List.dropLast_append_getLast nonempty).symm⟩
  rw [← List.append_assoc] at eq
  obtain ⟨eq, last_eq⟩ := List.append_inj' eq rfl
  exact ⟨first, by rw [List.cons.inj last_eq |>.1], eq⟩

/-- No run ends with a line that may not stand in it. -/
theorem no_run (out : ¬ (Spare fenced l ∧ (l.isIndented = true ∨ l.isBlank = true)))
    (front run : List Line) (eq : before ++ [l] = front ++ run) : ¬ IndentedRun fenced run := by
  intro isRun
  obtain ⟨first, rfl, -⟩ := append_singleton_eq eq isRun.ne_nil
  exact out (isRun.each l (by simp))

theorem init {lines : List Line} (consecutive : Consecutive stop 0 lines) :
    Midway stop (fencedOnly (scan stop .outside lines)) 0 [] .outside lines where
  consecutive := consecutive
  started := by simp [Block.Before, Block.start?]
  passed := ⟨[], rfl, by simp⟩
  within := by simp
  without := by
    intro _ front run eq isRun
    exact isRun.ne_nil (List.append_eq_nil_iff.mp eq.symm).2

/-- Where no run goes on, a line that is indented and not blank starts one. -/
theorem starts_singleton
    (no_run_before : ∀ front run, before = front ++ run → ¬ IndentedRun fenced run)
    (spare : Spare fenced l) (indented : l.isIndented = true) (not_blank : l.isBlank = false) :
    StartsRun fenced before [l] := by
  constructor
  case isRun => exact ⟨⟨l, [], rfl, indented, not_blank⟩, by simp [spare, indented]⟩
  case earliest =>
    intro front back eq nonempty longer
    exact no_run_before front back eq (longer.of_append nonempty)

/-- Another line starts none there. -/
theorem no_run_of_opens_not
    (no_run_before : ∀ front run, before = front ++ run → ¬ IndentedRun fenced run)
    (opens_not : ¬ (l.isIndented = true ∧ l.isBlank = false)) (front run : List Line)
    (eq : before ++ [l] = front ++ run) : ¬ IndentedRun fenced run := by
  intro isRun
  obtain ⟨first, rfl, before_eq⟩ := append_singleton_eq eq isRun.ne_nil
  by_cases empty : first = []
  · obtain ⟨_, _, run_eq, indented, not_blank⟩ := isRun.opens
    rw [empty, List.nil_append] at run_eq
    obtain ⟨rfl, -⟩ := List.cons.inj run_eq
    exact opens_not ⟨indented, not_blank⟩
  · exact no_run_before front first before_eq (isRun.of_append empty)

/-- What happens to runs at a line outside of the fenced regions. -/
theorem runs_of_spare (h : Midway stop fenced pos before block (l :: rest))
    (spare : Spare fenced l) :
    (∀ s, (block.next l).2 = .indented s → ∃ front run, before ++ [l] = front ++ run ∧
        StartsRun fenced front run ∧ startOf stop run = s) ∧
      ((∀ s, (block.next l).2 ≠ .indented s) → ∀ front run, before ++ [l] = front ++ run →
        ¬ IndentedRun fenced run) := by
  obtain ⟨not_fenced, plain⟩ := h.spare_iff.mp spare
  cases block with
  | fenced s d => exact absurd rfl (not_fenced s d)
  | outside =>
    have no_run_before := h.without (by simp)
    simp only [Block.next, opened_of_plain plain, Bool.and_eq_true, Bool.not_eq_true']
    by_cases opens : l.isIndented = true ∧ l.isBlank = false
    · rw [if_pos opens]
      refine ⟨fun s eq => ⟨before, [l], rfl, ?_, Block.indented.inj eq⟩, by simp⟩
      exact starts_singleton no_run_before spare opens.1 opens.2
    · rw [if_neg opens]
      exact ⟨by simp, fun _ => no_run_of_opens_not no_run_before opens⟩
  | indented s =>
    simp only [Block.next, opened_of_plain plain]
    by_cases fits : (l.isIndented || l.isBlank) = true
    · -- The line goes on with the block.
      rw [if_pos fits]
      obtain ⟨front, run, rfl, starts, start⟩ := h.within s rfl
      refine ⟨fun s' eq => ⟨front, run ++ [l], List.append_assoc .., ?_, ?_⟩, by simp⟩
      · exact starts.append_line spare (by simpa using fits)
      · obtain ⟨first, more, rfl⟩ := List.exists_cons_of_ne_nil starts.isRun.ne_nil
        exact start.trans (Block.indented.inj eq)
    · -- It ends the block, and opens none.
      rw [if_neg fits]
      simp only [Bool.or_eq_true, not_or] at fits
      have closes : (l.isIndented && !l.isBlank) = false := by simp [fits]
      simp only [closes, Bool.false_eq_true, if_false]
      exact ⟨by simp, fun _ => no_run (by simp [fits])⟩

/-- No indented block is open behind a line of a fenced region. -/
theorem next_of_not_spare (h : Midway stop fenced pos before block (l :: rest))
    (out : ¬ Spare fenced l) (s : Nat) : (block.next l).2 ≠ .indented s := by
  by_cases not_fenced : ∀ s d, block ≠ .fenced s d
  · obtain ⟨d, fence⟩ := Option.ne_none_iff_exists'.mp fun plain =>
      out (h.spare_iff.mpr ⟨not_fenced, plain⟩)
    rw [next_of_fence fence not_fenced]
    rintro ⟨⟩
  · push Not at not_fenced
    obtain ⟨start, d, rfl⟩ := not_fenced
    simp only [Block.next]
    split <;> rintro ⟨⟩

/-- A line keeps what is known. -/
theorem step (h : Midway stop fenced pos before block (l :: rest)) :
    Midway stop fenced (l.stop + 1) (before ++ [l]) (block.next l).2 rest := by
  obtain ⟨closed, eq, passed⟩ := h.passed
  obtain rfl := h.consecutive.1
  constructor
  case consecutive => exact h.consecutive.2
  case started => exact h.started.next
  case passed =>
    refine ⟨closed ++ fencedOnly (block.next l).1, ?_, fun r mem => ?_⟩
    · rw [eq, scan_cons, fencedOnly, List.filter_append, List.append_assoc]
      rfl
    · rcases List.mem_append.mp mem with mem | mem
      · exact Nat.lt_of_lt_of_le (passed r mem) (Nat.le_succ_of_le l.start_le_stop)
      · exact Nat.lt_succ_of_le (h.started.closed (mem_fencedOnly.mp mem).1).2.1
  case within =>
    by_cases spare : Spare fenced l
    · exact (h.runs_of_spare spare).1
    · exact fun s opens => absurd opens (h.next_of_not_spare spare s)
  case without =>
    by_cases spare : Spare fenced l
    · exact (h.runs_of_spare spare).2
    · exact fun _ => no_run fun fits => spare fits.1

/-- An indented block is open if and only if there is a run behind the other
    lines, and it started where the run starts. -/
theorem open_iff (h : Midway stop fenced pos before block after) {s : Nat} :
    block = .indented s ↔
      ∃ front run, before = front ++ run ∧ StartsRun fenced front run ∧ startOf stop run = s := by
  constructor
  · exact h.within s
  · rintro ⟨front, run, eq, starts, rfl⟩
    by_cases none_open : ∀ s, block ≠ .indented s
    · exact absurd starts.isRun (h.without none_open front run eq)
    · push Not at none_open
      obtain ⟨s, opens⟩ := none_open
      obtain ⟨front', run', eq', starts', start⟩ := h.within s opens
      rw [opens, ← start, starts.unique starts' (eq.symm.trans eq')]

/-- A line closes the indented block that ends in front of it. -/
theorem mem_next_iff (h : Midway stop fenced pos before block (l :: rest)) {r : Region} :
    r ∈ (block.next l).1 ∧ r.kind = .indented ↔ ∃ front run, before = front ++ run ∧
      IndentedBlock fenced front run (l :: rest) ∧ r = ⟨startOf stop run, l.start, .indented⟩ := by
  constructor
  · rintro ⟨mem, kind⟩
    cases block with
    | outside => simp [Block.next] at mem
    | fenced s d =>
      simp only [Block.next] at mem
      split at mem <;> simp at mem
      simp [mem] at kind
    | indented s =>
      simp only [Block.next] at mem
      split at mem
      · simp at mem
      · rename_i ends
        simp only [Bool.or_eq_true, not_or, Bool.not_eq_true] at ends
        obtain ⟨front, run, eq, starts, rfl⟩ := h.within s rfl
        refine ⟨front, run, eq, { starts with latest := ?_ }, List.mem_singleton.mp mem⟩
        rintro _ _ ⟨⟩
        exact .inr ends
  · rintro ⟨front, run, eq, ⟨starts, latest⟩, rfl⟩
    obtain rfl := h.open_iff.mpr ⟨front, run, eq, starts, rfl⟩
    have ends : l.isIndented = false ∧ l.isBlank = false := by
      rcases latest l rest rfl with out | ends
      · -- The line is in a fenced region as a fence line.
        obtain ⟨d, fence⟩ := Option.ne_none_iff_exists'.mp fun plain =>
          out (h.spare_iff.mpr ⟨by simp, plain⟩)
        exact plain_of_fence? fence
      · exact ends
    simp [Block.next, ends]

/-- The end of the text closes the indented block that goes on to it. -/
theorem mem_finish_iff (h : Midway stop fenced pos before block []) {r : Region} :
    r ∈ block.finish stop ∧ r.kind = .indented ↔ ∃ front run, before = front ++ run ∧
      IndentedBlock fenced front run [] ∧ r = ⟨startOf stop run, stop, .indented⟩ := by
  constructor
  · rintro ⟨mem, kind⟩
    cases block with
    | outside => simp [Block.finish] at mem
    | fenced s d =>
      rw [List.mem_singleton.mp mem] at kind
      cases kind
    | indented s =>
      obtain ⟨front, run, eq, starts, rfl⟩ := h.within s rfl
      exact ⟨front, run, eq, { starts with latest := by simp }, List.mem_singleton.mp mem⟩
  · rintro ⟨front, run, eq, ⟨starts, -⟩, rfl⟩
    obtain rfl := h.open_iff.mpr ⟨front, run, eq, starts, rfl⟩
    exact ⟨List.mem_singleton_self _, rfl⟩

/-- The rest of the pass finds the indented blocks that end there. -/
theorem mem_scan_iff (h : Midway stop fenced pos before block after) {r : Region} :
    r ∈ scan stop block after ∧ r.kind = .indented ↔
      ∃ front run back, before ++ after = front ++ run ++ back ∧
        before.length ≤ front.length + run.length ∧ IndentedBlock fenced front run back ∧
        r = ⟨startOf stop run, startOf stop back, .indented⟩ := by
  induction after generalizing pos before block with
  | nil =>
    rw [scan, h.mem_finish_iff]
    constructor
    · rintro ⟨front, run, rfl, isBlock, rfl⟩
      exact ⟨front, run, [], rfl, by simp, isBlock, rfl⟩
    · rintro ⟨front, run, back, eq, long, isBlock, rfl⟩
      have length_eq := congrArg List.length eq
      simp only [List.length_append, List.length_nil] at length_eq
      obtain rfl : back = [] := List.length_eq_zero_iff.mp (by omega)
      exact ⟨front, run, by simpa using eq, isBlock, rfl⟩
  | cons l rest ih =>
    rw [scan_cons, List.mem_append, or_and_right, h.mem_next_iff, ih h.step, List.append_assoc,
      List.singleton_append, List.length_append, List.length_singleton]
    constructor
    · rintro (⟨front, run, rfl, isBlock, rfl⟩ | ⟨front, run, back, eq, long, found⟩)
      · exact ⟨front, run, l :: rest, rfl, by simp, isBlock, rfl⟩
      · exact ⟨front, run, back, eq, by omega, found⟩
    · rintro ⟨front, run, back, eq, long, isBlock, rfl⟩
      by_cases here : before.length = front.length + run.length
      · obtain ⟨rfl, rfl⟩ := List.append_inj eq (by simpa using here)
        exact .inl ⟨front, run, rfl, isBlock, rfl⟩
      · exact .inr ⟨front, run, back, eq, by omega, isBlock, rfl⟩

end Midway

/-- The indented blocks that are found among some lines. -/
theorem mem_scan_indented_iff {stop : Nat} {lines : List Line}
    (consecutive : Consecutive stop 0 lines) {r : Region} :
    r ∈ scan stop .outside lines ∧ r.kind = .indented ↔
      ∃ before run after, lines = before ++ run ++ after ∧
        IndentedBlock (fencedOnly (scan stop .outside lines)) before run after ∧
        r = ⟨startOf stop run, startOf stop after, .indented⟩ := by
  simpa using (Midway.init consecutive).mem_scan_iff (r := r)

/-! ### Markers and lines -/

/-- A region holds a line if it holds a part of the line. -/
theorem contains_of_touches {t : Text} {r : Region} (mem_r : r ∈ Region.ofText t) {l : Line}
    (mem : l ∈ Line.ofText t) {start stop : Nat} (inside : r.start ≤ start ∧ stop ≤ r.stop)
    (touches_start : l.start < stop) (touches_stop : start < l.stop) :
    r.start ≤ l.start ∧ l.stop ≤ r.stop := by
  have consecutive := consecutive_ofText t
  obtain ⟨starts, ends⟩ := scan_places r mem_r
  have le := l.start_le_stop
  constructor
  · rcases starts with starts | ⟨first, mem_first, eq⟩
    · simp [Block.start?] at starts
    · have le_first := first.start_le_stop
      rcases consecutive.apart mem mem_first with rfl | apart | apart <;> omega
  · rcases ends with eq | ⟨last, mem_last, eq⟩
    · have bounds := (consecutive.bounds l mem).2
      omega
    · have le_last := last.start_le_stop
      rcases consecutive.apart mem mem_last with rfl | apart | apart <;> omega

/-- A region holds a marker if it holds the lines on which the marker is. -/
theorem contains_marker_iff {t : Text} {r : Region} (mem_r : r ∈ Region.ofText t)
    {o : Occurrence} (mem_o : o ∈ Occurrence.ofText t) :
    r.contains o.start o.stop = true ↔ ∀ l ∈ Line.ofText t, l.start < o.stop → o.start < l.stop →
      r.contains l.start l.stop = true := by
  simp only [contains, Bool.and_eq_true, decide_eq_true_eq]
  constructor
  · intro inside l mem touches_start touches_stop
    exact contains_of_touches mem_r mem inside touches_start touches_stop
  · intro holds
    have lt := Occurrence.start_lt_stop mem_o
    -- The first and the last character of a marker are on a line each.
    obtain ⟨first, last⟩ := Occurrence.characters_at_ends mem_o
    obtain ⟨l, mem, start_le, lt_stop⟩ := exists_number 0 first (by decide)
    obtain ⟨l', mem', start_le', lt_stop'⟩ := exists_number 0 last (by decide)
    have holds_first := (holds l mem (by omega) (by omega)).1
    have holds_last := (holds l' mem' (by omega) (by omega)).2
    omega

end Region

namespace Template

theorem mem_outlets_iff {t : Text} {o : Occurrence} :
    o ∈ (ofText t).outlets ↔
      o ∈ Occurrence.ofText t ∧ ¬ ∃ r ∈ (ofText t).regions, r.contains o.start o.stop = true := by
  simp [ofText]

end Template

/-! ### Texts -/

/-- How the regions and the outlets of a text compare with its lines. -/
structure BlocksFound (t : Text) : Prop where
  /-- The lines are the pieces between line breaks, and each one stands in the
      text where it says. -/
  lines : (Line.ofText t).map (·.content) = Text.split '\n' t ∧
    Line.Consecutive t.length 0 (Line.ofText t) ∧
    ∀ l ∈ Line.ofText t, t.slice l.start l.stop = l.content
  /-- A fence line starts with at least three backticks or at least three tildes,
      and all of them are its delimiter. -/
  fence : ∀ l : Line, ∀ d, l.fence? = some d ↔ ∃ mark, (mark = '\x60' ∨ mark = '~') ∧
    ∃ n rest, 3 ≤ n ∧ d = List.replicate n mark ∧ l.content = d ++ rest ∧ rest.head? ≠ some mark
  /-- The fenced regions are those of the fenced blocks of the lines. -/
  fenced : ∀ regions, Region.Fences t.length (Line.ofText t) regions ↔
    regions = Region.fencedOnly (Template.ofText t).regions
  /-- The indented regions are those of the indented blocks of the lines, each
      from its first line to the line behind it. -/
  indented : ∀ r, r ∈ (Template.ofText t).regions ∧ r.kind = .indented ↔
    ∃ before run after, Line.ofText t = before ++ run ++ after ∧
      Region.IndentedBlock (Region.fencedOnly (Template.ofText t).regions) before run after ∧
      r = ⟨Region.startOf t.length run, Region.startOf t.length after, .indented⟩
  /-- The regions are in order and do not overlap. -/
  ordered : (Template.ofText t).regions.Pairwise fun r r' => r.stop ≤ r'.start
  /-- No region is empty, and each one starts with a line. -/
  spans : ∀ r ∈ (Template.ofText t).regions, r.start < r.stop ∧ r.stop ≤ t.length ∧
    ∃ l ∈ Line.ofText t, l.start = r.start
  /-- A marker is no outlet if one region holds it from end to end. -/
  outlets : ∀ o, o ∈ (Template.ofText t).outlets ↔ o ∈ Occurrence.ofText t ∧
    ¬ ∃ r ∈ (Template.ofText t).regions, r.start ≤ o.start ∧ o.stop ≤ r.stop
  /-- That is, if one region holds all the lines on which it is. -/
  excluded : ∀ o ∈ Occurrence.ofText t, o ∉ (Template.ofText t).outlets ↔
    ∃ r ∈ (Template.ofText t).regions, ∀ l ∈ Line.ofText t,
      l.start < o.stop → o.start < l.stop → r.start ≤ l.start ∧ l.stop ≤ r.stop

/-- The regions of a text are its code blocks, line by line, and its outlets are
    the markers outside of them. -/
theorem blocks_found (t : Text) : BlocksFound t := by
  have consecutive := Line.consecutive_ofText t
  have found := Region.scan_outside_ordered consecutive
  constructor
  case lines =>
    refine ⟨Line.map_content_number 0 _, consecutive, fun l mem => ?_⟩
    have stands := Line.slice_number [] mem
    rwa [List.nil_append, Text.join_split] at stands
  case fence => exact fun l d => Line.fence?_eq_some_iff
  case fenced => exact fun regions => Region.fences_iff
  case indented => exact fun r => Region.mem_scan_indented_iff consecutive
  case ordered => exact found.1
  case spans =>
    intro r mem
    obtain ⟨-, lt, le⟩ := found.2 r mem
    refine ⟨lt, le, (Region.scan_places r mem).1.resolve_left ?_⟩
    simp [Region.Block.start?]
  case outlets =>
    intro o
    simp only [Template.mem_outlets_iff, Region.contains, Bool.and_eq_true, decide_eq_true_eq]
  case excluded =>
    intro o mem_o
    rw [Template.mem_outlets_iff, not_and_not_right]
    constructor
    · intro excluded
      obtain ⟨r, mem, holds⟩ := excluded mem_o
      refine ⟨r, mem, ?_⟩
      simpa [Region.contains] using (Region.contains_marker_iff mem mem_o).mp holds
    · rintro ⟨r, mem, holds⟩ -
      refine ⟨r, mem, (Region.contains_marker_iff mem mem_o).mpr ?_⟩
      simpa [Region.contains] using holds

end MarkdownOutlets
