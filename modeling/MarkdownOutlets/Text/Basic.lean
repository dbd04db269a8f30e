/-! # Text

  Documents, outlet names and paths are texts. A text is the list of its
  code points, so that an offset into it counts code points and a cut at an
  offset is `List.take` or `List.drop`.
-/

namespace MarkdownOutlets

/-- A text, as the list of its code points. -/
abbrev Text := List Char

instance : LawfulBEq Text := inferInstanceAs (LawfulBEq (List Char))

namespace Text

/-! ### Cutting and joining -/

/-- The pieces of a text between the occurrences of `sep`. There is always
    at least one piece, possibly empty. -/
def split (sep : Char) : Text → List Text
  | [] => [[]]
  | c :: cs =>
    if c = sep then [] :: split sep cs
    else
      match split sep cs with
      | [] => [[c]]
      | piece :: pieces => (c :: piece) :: pieces

/-- The pieces one after the other, with `sep` between each two. -/
def join (sep : Text) (pieces : List Text) : Text :=
  sep.intercalate pieces

/-- A text cut at the first occurrence of `sep`, which belongs to neither
    part; `none` when there is no occurrence. -/
def cutFirst (sep : Char) : Text → Option (Text × Text)
  | [] => none
  | c :: cs =>
    if c = sep then some ([], cs)
    else (cutFirst sep cs).map fun parts => (c :: parts.1, parts.2)

/-- A text cut at the last occurrence of `sep`, which belongs to neither
    part; `none` when there is no occurrence. -/
def cutLast (sep : Char) : Text → Option (Text × Text)
  | [] => none
  | c :: cs =>
    match cutLast sep cs with
    | some parts => some (c :: parts.1, parts.2)
    | none => if c = sep then some ([], cs) else none

/-- A text without the given leading part, when it starts with it. -/
def dropStart? : (start text : Text) → Option Text
  | [], text => some text
  | _ :: _, [] => none
  | s :: start, c :: cs => if s = c then dropStart? start cs else none

/-- A text without trailing characters of the given class. -/
def dropEndWhile (p : Char → Bool) : Text → Text
  | [] => []
  | c :: cs =>
    match dropEndWhile p cs with
    | [] => if p c then [] else [c]
    | rest => c :: rest

/-- A text without one line feed at its end. -/
def dropFinalNewline (t : Text) : Text :=
  if t.getLast? = some '\n' then t.dropLast else t

/-! ### Numerals -/

/-- A natural number in decimal digits. -/
def ofNat (n : Nat) : Text := Nat.toDigits 10 n

/-- An integer in decimal digits, with a minus sign when it is negative. -/
def ofInt : Int → Text
  | .ofNat n => ofNat n
  | .negSucc n => '-' :: ofNat (n + 1)

/-- A natural number in lower-case hexadecimal digits, filled up with zeros
    to at least `width` places. -/
def hex (width n : Nat) : Text :=
  let digits := Nat.toDigits 16 n
  List.replicate (width - digits.length) '0' ++ digits

/-! ### Order -/

/-- Texts in the order of their code points, a text after its own leading
    parts. -/
def le : Text → Text → Bool
  | [], _ => true
  | _ :: _, [] => false
  | a :: as, b :: bs => if a = b then le as bs else a.toNat < b.toNat

/-! ### Lemmas -/

theorem split_ne_nil (sep : Char) (t : Text) : split sep t ≠ [] := by
  cases t with
  | nil => simp [split]
  | cons c cs =>
    unfold split
    split
    · simp
    · split <;> simp

/-- Joining the pieces gives the text back. -/
theorem join_split (sep : Char) (t : Text) : join [sep] (split sep t) = t := by
  induction t with
  | nil => rfl
  | cons c cs ih =>
    unfold split
    split
    · rename_i hc
      subst hc
      cases hs : split c cs with
      | nil => exact absurd hs (split_ne_nil c cs)
      | cons piece pieces =>
        rw [hs] at ih
        simp only [join, List.intercalate] at ih ⊢
        simpa [List.intersperse] using ih
    · cases hs : split sep cs with
      | nil => exact absurd hs (split_ne_nil sep cs)
      | cons piece pieces =>
        rw [hs] at ih
        cases pieces <;> simp_all [join, List.intercalate, List.intersperse]

/-- No piece holds the separator. -/
theorem not_mem_of_mem_split {sep : Char} {t piece : Text} (h : piece ∈ split sep t) :
    sep ∉ piece := by
  induction t generalizing piece with
  | nil => simp_all [split]
  | cons c cs ih =>
    unfold split at h
    split at h
    · rcases List.mem_cons.1 h with rfl | h
      · simp
      · exact ih h
    · rename_i hc
      cases hs : split sep cs with
      | nil => exact absurd hs (split_ne_nil sep cs)
      | cons first pieces =>
        rw [hs] at h ih
        rcases List.mem_cons.1 h with rfl | h
        · have := ih (List.mem_cons_self ..)
          simp_all [eq_comm]
        · exact ih (List.mem_cons_of_mem _ h)

/-- A text without the separator is one piece. -/
theorem split_of_notMem {sep : Char} {t : Text} (not_mem : sep ∉ t) : split sep t = [t] := by
  induction t with
  | nil => rfl
  | cons c cs ih =>
    rw [List.mem_cons, not_or] at not_mem
    rw [split, if_neg (Ne.symm not_mem.1), ih not_mem.2]

/-- What stands in front of the first separator is the first piece. -/
theorem split_append {sep : Char} {piece : Text} (not_mem : sep ∉ piece) (rest : Text) :
    split sep (piece ++ sep :: rest) = piece :: split sep rest := by
  induction piece with
  | nil => simp [split]
  | cons c cs ih =>
    rw [List.mem_cons, not_or] at not_mem
    rw [List.cons_append, split, if_neg (Ne.symm not_mem.1), ih not_mem.2]

/-- The pieces of two texts with the separator between them. -/
theorem split_append_cons (sep : Char) (t u : Text) :
    split sep (t ++ sep :: u) = split sep t ++ split sep u := by
  induction t with
  | nil => simp [split]
  | cons c cs ih =>
    by_cases same : c = sep
    · rw [List.cons_append, split, if_pos same, split, if_pos same, ih]
      rfl
    · obtain ⟨piece, pieces, eq⟩ := List.exists_cons_of_ne_nil (split_ne_nil sep cs)
      rw [eq] at ih
      simp only [List.cons_append, split, if_neg same, ih, eq]

@[simp] theorem dropStart?_append (start rest : Text) :
    dropStart? start (start ++ rest) = some rest := by
  induction start with
  | nil => rfl
  | cons s start ih => simp [dropStart?, ih]

theorem eq_append_of_dropStart? {start text rest : Text}
    (h : dropStart? start text = some rest) : text = start ++ rest := by
  induction start generalizing text with
  | nil => simp_all [dropStart?]
  | cons s start ih =>
    cases text with
    | nil => simp [dropStart?] at h
    | cons c cs =>
      unfold dropStart? at h
      split at h
      · rename_i hc
        subst hc
        simp [ih h]
      · simp at h

end Text

end MarkdownOutlets
