import MarkdownOutlets.Proofs.Template.Grammar

/-! # Filled templates

  A template is filled from its end: the last outlet is replaced first, each
  one in a text in which those behind it were replaced already. What comes out
  can be told without this order. It is what stands between the outlets of the
  original text, with something in the place of each outlet, as if all of them
  were replaced at once (`Template.fill_eq`).
-/

namespace MarkdownOutlets

namespace Text

/-- What stands in the text from the position on, with something instead of each of the
    occurrences. -/
def splice (instead : Occurrence → Text) (t : Text) : (pos : Nat) → List Occurrence → Text
  | pos, [] => t.drop pos
  | pos, o :: os => t.slice pos o.start ++ (instead o ++ splice instead t o.stop os)

theorem take_append_slice (t : Text) {i j : Nat} (le : i ≤ j) :
    t.take i ++ t.slice i j = t.take j := by
  have front : (t.take j).take i = t.take i := by rw [List.take_take, Nat.min_eq_left le]
  rw [slice, ← front, List.take_append_drop]

end Text

namespace Template

/-- The occurrences are in the text, in order and apart from one another. -/
structure Ordered (t : Text) (os : List Occurrence) : Prop where
  /-- Each of them is in the text. -/
  inside : ∀ o ∈ os, o.start ≤ o.stop ∧ o.stop ≤ t.length
  /-- Each of them ends before the next one starts. -/
  apart : os.Pairwise fun a b => a.stop ≤ b.start
  /-- Its marker is what stands there. -/
  marker : ∀ o ∈ os, o.marker = t.slice o.start o.stop

theorem Ordered.tail {t : Text} {o : Occurrence} {os : List Occurrence}
    (ordered : Ordered t (o :: os)) : Ordered t os where
  inside o' mem := ordered.inside o' (List.mem_cons_of_mem o mem)
  apart := (List.pairwise_cons.mp ordered.apart).2
  marker o' mem := ordered.marker o' (List.mem_cons_of_mem o mem)

/-- The outlets of a text are in order. -/
theorem ordered_outlets (t : Text) : Ordered t (ofText t).outlets := by
  have found : ∀ o ∈ (ofText t).outlets, o ∈ Occurrence.ofText t :=
    fun o mem => (List.mem_filter.mp mem).1
  refine ⟨fun o mem => ?_, ?_, fun o mem => ?_⟩
  · obtain ⟨le, within, -, -⟩ := Occurrence.mem_ofText_iff.mp (found o mem)
    exact ⟨le, within⟩
  · exact (Occurrence.pairwise_scan 0 0 t).filter _
  · obtain ⟨-, -, marker, -⟩ := Occurrence.mem_ofText_iff.mp (found o mem)
    exact marker

/-- One occurrence is replaced in a text that is as before up to its end. -/
theorem replaceAt_eq {t rest new : Text} {o : Occurrence} (le : o.start ≤ o.stop)
    (within : o.stop ≤ t.length) :
    replaceAt o new (t.take o.stop ++ rest) = t.take o.start ++ new ++ rest := by
  have length_eq : (t.take o.stop).length = o.stop := List.length_take_of_le within
  have front : (t.take o.stop ++ rest).take o.start = t.take o.start := by
    rw [List.take_append_of_le_length (by omega), List.take_take, Nat.min_eq_left le]
  have back : (t.take o.stop ++ rest).drop o.stop = rest := by
    rw [List.drop_left' length_eq]
  rw [replaceAt, front, back]

/-- Occurrences behind a position are replaced from the last one on. -/
theorem foldr_replaceAt {t : Text} {os : List Occurrence} (ordered : Ordered t os)
    (given : Text → Option Text) {pos : Nat} (behind : ∀ o ∈ os, pos ≤ o.start) :
    os.foldr (fun o filled =>
        match given o.name with
        | some new => replaceAt o new filled
        | none => filled) t =
      t.take pos ++ t.splice (fun o => (given o.name).getD o.marker) pos os := by
  induction os generalizing pos with
  | nil => exact (List.take_append_drop pos t).symm
  | cons o os ih =>
    obtain ⟨le, within⟩ := ordered.inside o List.mem_cons_self
    have after_o : ∀ o' ∈ os, o.stop ≤ o'.start := (List.pairwise_cons.mp ordered.apart).1
    have pos_le : pos ≤ o.start := behind o List.mem_cons_self
    -- The text before the outlet, as it stands in front of all that is replaced.
    have before : t.take o.start = t.take pos ++ t.slice pos o.start :=
      (t.take_append_slice pos_le).symm
    rw [List.foldr_cons, ih ordered.tail after_o, Text.splice]
    cases found : given o.name with
    | some new =>
      simp only [Option.getD_some]
      rw [replaceAt_eq le within, before, List.append_assoc, List.append_assoc]
    | none =>
      simp only [Option.getD_none]
      rw [ordered.marker o List.mem_cons_self, ← t.take_append_slice le, before, List.append_assoc,
        List.append_assoc]

/-- A template is filled as if all outlets were replaced at once. -/
theorem fill_eq (t : Text) (given : Text → Option Text) :
    (ofText t).fill given =
      t.splice (fun o => (given o.name).getD o.marker) 0 (ofText t).outlets := by
  have filled := foldr_replaceAt (ordered_outlets t) given fun o _ => Nat.zero_le o.start
  rw [List.take_zero, List.nil_append] at filled
  exact filled

/-- Without anything to put in, the text stays as it is. -/
theorem fill_none (t : Template) : t.fill (fun _ => none) = t.text := by
  unfold fill
  induction t.outlets with
  | nil => rfl
  | cons o os ih => exact ih

/-- What stands between the outlets of a text. -/
def remainder (t : Text) : Text := t.splice (fun _ => []) 0 (ofText t).outlets

theorem fill_empty (t : Text) : (ofText t).fill (fun _ => some []) = remainder t := by
  rw [fill_eq]
  rfl

end Template

end MarkdownOutlets
