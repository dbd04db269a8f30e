import Mathlib.Data.List.Sort
import MarkdownOutlets.Proofs.Template.CodeBlocks

/-! # Two scans

  The code blocks of a text may also be found in two scans with offsets into
  the text. The first one goes over the fence lines and finds the fenced
  blocks. The second one goes over all lines and finds the indented blocks; it
  leaves out the lines that start in a fenced region, of which both ends belong
  to it here. In the end all regions are sorted by where they start.

  The two scans find what the single pass over the lines finds, in the same
  order (`Region.ofText_eq_ofScans`).
-/

namespace MarkdownOutlets

namespace Region

open Line

/-! ### The scans -/

/-- The fence lines among some lines, with their delimiters. -/
def fenceLines (lines : List Line) : List (Line × Text) :=
  lines.filterMap fun l => l.fence?.map (l, ·)

/-- The regions of fenced blocks, from fence lines and the block that is open
    before them: where it starts, and its delimiter. -/
def scanFenced (stop : Nat) : (opened : Option (Nat × Text)) → List (Line × Text) → List Region
  | none, [] => []
  | some (start, _), [] => [⟨start, stop, .fenced⟩]
  | none, (l, fence) :: rest => scanFenced stop (some (l.start, fence)) rest
  | some (start, delimiter), (l, fence) :: rest =>
    if fence = delimiter then ⟨start, l.stop, .fenced⟩ :: scanFenced stop none rest
    else scanFenced stop (some (start, delimiter)) rest

/-- The line starts in one of the regions, or where one of them ends. -/
def isInside (regions : List Region) (l : Line) : Bool :=
  regions.any fun r => r.start ≤ l.start && l.start ≤ r.stop

/-- The indented block that is open before an offset ends there. -/
def closeIndented (opened : Option Nat) (stop : Nat) : List Region :=
  (opened.map fun start => ⟨start, stop, .indented⟩).toList

/-- One line in the second scan: the region that it closes, and where the block starts
    that is open behind it. -/
def nextIndented (fenced : List Region) (opened : Option Nat) (l : Line) :
    List Region × Option Nat :=
  if isInside fenced l then (closeIndented opened l.start, none)
  else if l.isIndented && !l.isBlank then ([], some (opened.getD l.start))
  else if !l.isBlank then (closeIndented opened l.start, none)
  else ([], opened)

/-- The regions of indented blocks, from lines and where the block starts that is
    open before them. -/
def scanIndented (stop : Nat) (fenced : List Region) : (opened : Option Nat) → List Line → List Region
  | opened, [] => closeIndented opened stop
  | opened, l :: rest =>
    let (closed, after) := nextIndented fenced opened l
    closed ++ scanIndented stop fenced after rest

/-- The regions of a text, from both scans. -/
def ofScans (t : Text) : List Region :=
  let fenced := scanFenced t.length none (fenceLines (Line.ofText t))
  (fenced ++ scanIndented t.length fenced none (Line.ofText t)).mergeSort fun r r' =>
    r.start ≤ r'.start

/-! ### Fenced blocks -/

/-- The fenced block that is open. -/
def Block.fence? : Block → Option (Nat × Text)
  | .fenced start delimiter => some (start, delimiter)
  | _ => none

theorem fence?_opened (l : Line) : (Block.opened l).fence? = l.fence?.map (l.start, ·) := by
  cases fence : l.fence? with
  | none =>
    rw [opened_of_plain fence]
    split <;> rfl
  | some d =>
    rw [opened_of_fence fence]
    rfl

/-- The scan of fence lines finds the fenced regions of the pass. -/
theorem scanFenced_eq {stop : Nat} {block : Block} {lines : List Line} :
    scanFenced stop block.fence? (fenceLines lines) = fencedOnly (scan stop block lines) := by
  induction lines generalizing block with
  | nil => cases block <;> rfl
  | cons l rest ih =>
    -- Where no fenced block is open, the scan goes on with what the line opens.
    have opens : scanFenced stop none (fenceLines (l :: rest)) =
        scanFenced stop (Block.opened l).fence? (fenceLines rest) := by
      rw [fence?_opened]
      cases fence : l.fence? with
      | none => simp [fenceLines, fence]
      | some d => simp [fenceLines, fence, scanFenced]
    rw [scan_cons]
    cases block with
    | outside => exact opens.trans ih
    | fenced start delimiter =>
      simp only [Block.next, Block.fence?]
      cases fence : l.fence? with
      | none =>
        rw [if_neg (by simp)]
        have rest_eq := @ih (.fenced start delimiter)
        simpa [fenceLines, fence, Block.fence?] using rest_eq
      | some d =>
        have lines_eq : fenceLines (l :: rest) = (l, d) :: fenceLines rest := by
          simp [fenceLines, fence]
        rw [lines_eq, scanFenced]
        by_cases same : d = delimiter
        · rw [if_pos same, if_pos (congrArg some same)]
          have rest_eq := @ih .outside
          simpa [fencedOnly, Block.fence?] using rest_eq
        · rw [if_neg same, if_neg (by simpa using same)]
          exact @ih (.fenced start delimiter)
    | indented start =>
      refine (opens.trans ih).trans ?_
      have same := fencedOnly_scan_indented stop start (l :: rest)
      rw [scan_cons, scan_cons] at same
      exact same.symm

/-! ### Indented blocks -/

/-- The indented ones among some regions. -/
def indentedOnly (regions : List Region) : List Region := regions.filter fun r => r.kind = .indented

/-- Where the indented block starts that is open. -/
def Block.indent? : Block → Option Nat
  | .indented start => some start
  | _ => none

/-- A line starts in a fenced region if a fenced block is open or it opens one. -/
theorem isInside_eq_false_iff {stop : Nat} {block : Block} {l : Line} {rest : List Line}
    {closed : List Region} (consecutive : Consecutive stop l.start (l :: rest))
    (before : block.Before l.start) (passed : ∀ r ∈ closed, r.stop < l.start) :
    isInside (closed ++ fencedOnly (scan stop block (l :: rest))) l = false ↔
      (∀ s d, block ≠ .fenced s d) ∧ l.fence? = none := by
  have le := l.start_le_stop
  constructor
  · -- A region that holds the line would hold its start.
    intro out
    refine (spare_iff consecutive before passed).mp fun r mem => ?_
    have apart := List.any_eq_false.mp out r mem
    simp only [Bool.and_eq_true, decide_eq_true_eq] at apart
    simp only [contains, Bool.and_eq_false_iff, decide_eq_false_iff_not]
    omega
  · rintro ⟨not_fenced, plain⟩
    refine List.any_eq_false.mpr fun r mem => ?_
    have away := away_of_plain consecutive passed not_fenced plain r mem
    simp only [Bool.and_eq_true, decide_eq_true_eq]
    omega

/-- A line does the same in both. -/
theorem nextIndented_eq {fenced : List Region} {block : Block} {l : Line}
    (out : isInside fenced l = false ↔ (∀ s d, block ≠ .fenced s d) ∧ l.fence? = none) :
    nextIndented fenced block.indent? l =
      (indentedOnly (block.next l).1, (block.next l).2.indent?) := by
  unfold nextIndented
  by_cases inside : isInside fenced l = true
  · rw [if_pos inside]
    have not_out := mt out.mpr (by simp [inside])
    cases block with
    | fenced start delimiter =>
      simp only [Block.next]
      split <;> rfl
    | outside =>
      obtain ⟨d, fence⟩ := Option.ne_none_iff_exists'.mp fun plain => not_out ⟨by simp, plain⟩
      simp only [Block.next, opened_of_fence fence]
      rfl
    | indented start =>
      obtain ⟨d, fence⟩ := Option.ne_none_iff_exists'.mp fun plain => not_out ⟨by simp, plain⟩
      obtain ⟨not_indented, not_blank⟩ := plain_of_fence? fence
      simp only [Block.next, not_indented, not_blank, opened_of_fence fence]
      rfl
  · rw [if_neg inside]
    obtain ⟨not_fenced, plain⟩ := out.mp (by simpa using inside)
    cases block with
    | fenced start delimiter => exact absurd rfl (not_fenced start delimiter)
    | outside =>
      simp only [Block.next, opened_of_plain plain]
      cases l.isIndented <;> cases l.isBlank <;> rfl
    | indented start =>
      simp only [Block.next, opened_of_plain plain]
      cases l.isIndented <;> cases l.isBlank <;> rfl

/-- The scan of all lines finds the indented regions of the pass. -/
theorem scanIndented_eq {stop pos : Nat} {block : Block} {lines : List Line}
    {closed : List Region} (consecutive : Consecutive stop pos lines) (before : block.Before pos)
    (passed : ∀ r ∈ closed, r.stop < pos) :
    scanIndented stop (closed ++ fencedOnly (scan stop block lines)) block.indent? lines =
      indentedOnly (scan stop block lines) := by
  induction lines generalizing block pos closed with
  | nil => cases block <;> rfl
  | cons l rest ih =>
    obtain ⟨rfl, behind⟩ := consecutive
    have out := isInside_eq_false_iff ⟨rfl, behind⟩ before passed
    -- The regions are the same behind the line, one of which it may have closed.
    have fenced_eq : closed ++ fencedOnly (scan stop block (l :: rest)) =
        (closed ++ fencedOnly (block.next l).1) ++ fencedOnly (scan stop (block.next l).2 rest) := by
      rw [scan_cons, fencedOnly, List.filter_append, List.append_assoc]
      rfl
    have passed_next : ∀ r ∈ closed ++ fencedOnly (block.next l).1, r.stop < l.stop + 1 := by
      intro r mem
      rcases List.mem_append.mp mem with mem | mem
      · exact Nat.lt_of_lt_of_le (passed r mem) (Nat.le_succ_of_le l.start_le_stop)
      · exact Nat.lt_succ_of_le (before.closed (mem_fencedOnly.mp mem).1).2.1
    have rest_eq := ih behind before.next passed_next
    rw [← fenced_eq] at rest_eq
    rw [scanIndented, nextIndented_eq out]
    simp only [rest_eq]
    exact (List.filter_append ..).symm

/-! ### Both kinds -/

theorem fencedOnly_append_perm (regions : List Region) :
    (fencedOnly regions ++ indentedOnly regions).Perm regions := by
  have others : indentedOnly regions = regions.filter fun r => !decide (r.kind = .fenced) := by
    refine List.filter_congr fun r _ => ?_
    cases r.kind <;> rfl
  rw [others]
  exact List.filter_append_perm ..

/-- Regions of the pass start one behind the other. -/
theorem starts_lt (t : Text) : (ofText t).Pairwise fun r r' => r.start < r'.start := by
  obtain ⟨apart, bounds⟩ := scan_outside_ordered (consecutive_ofText t)
  exact apart.imp_of_mem fun {r r'} mem _ le => Nat.lt_of_lt_of_le (bounds r mem).2.1 le

/-- The two scans find the regions of the pass, in the same order. -/
theorem ofText_eq_ofScans (t : Text) : ofText t = ofScans t := by
  have fenced : scanFenced t.length none (fenceLines (Line.ofText t)) = fencedOnly (ofText t) :=
    @scanFenced_eq t.length .outside _
  have indented : scanIndented t.length (fencedOnly (ofText t)) none (Line.ofText t) =
      indentedOnly (ofText t) :=
    @scanIndented_eq t.length 0 .outside _ [] (consecutive_ofText t)
      (by simp [Block.Before, Block.start?]) (by simp)
  have scans_eq : ofScans t = (fencedOnly (ofText t) ++ indentedOnly (ofText t)).mergeSort
      fun r r' => r.start ≤ r'.start := by
    unfold ofScans
    simp only [fenced, indented]
  have perm : (ofText t).Perm (ofScans t) := by
    rw [scans_eq]
    exact ((List.mergeSort_perm ..).trans (fencedOnly_append_perm _)).symm
  have sorted : (ofScans t).Pairwise fun r r' => r.start ≤ r'.start := by
    rw [scans_eq]
    exact List.pairwise_mergeSort' (fun r r' : Region => r.start ≤ r'.start) _
  -- No two regions have the same start, so that there is one way to sort them.
  have distinct : ((ofText t).map Region.start).Nodup :=
    List.pairwise_map.mpr ((starts_lt t).imp Nat.ne_of_lt)
  have same (r r' : Region) (mem : r ∈ ofText t) (mem' : r' ∈ ofScans t) (le : r.start ≤ r'.start)
      (ge : r'.start ≤ r.start) : r = r' :=
    List.inj_on_of_nodup_map distinct mem (perm.mem_iff.mpr mem') (Nat.le_antisymm le ge)
  exact perm.eq_of_pairwise same ((starts_lt t).imp Nat.le_of_lt) sorted

end Region

end MarkdownOutlets
