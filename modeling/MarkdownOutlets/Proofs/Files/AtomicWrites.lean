import MarkdownOutlets.Files.Writing
import MarkdownOutlets.Proofs.Files.Serving

/-! # All or nothing

  A file is written as a whole or not at all, whatever the file system refuses and
  wherever it stops (`writes_all_or_nothing`). Three things can be met while a file is
  written, and each is the tree of the start with little added: directories on the way
  (`Grown`), these and the new file (`Writing`), or these and the content in its place
  (`Replaced`).

  The directories on the way are made before anything else, and a path may come back to
  one of them: `a/../a` leads to the directory that has just been made for it. A target
  that was missing can be a directory then (`Detour`), and in no other case.
-/

namespace MarkdownOutlets

namespace FileTree

variable {p : FilePath} {t g s : FileTree} {q place : List Text}

/-! ### Directories on the way -/

/-- At this place is the directory of a path or one of those above it. -/
def OnTheWay (p : FilePath) (s : FileTree) (q : List Text) : Prop :=
  ∃ above, above <+: p.parent.names ∧ s.locate { p with names := above } = .ok q

theorem OnTheWay.mono (way : OnTheWay p t q) (keeps : KeepsDirectories t s) : OnTheWay p s q := by
  obtain ⟨above, start, leads⟩ := way
  exact ⟨above, start, keeps.locate leads⟩

/-- The place had nothing and has now a directory on the way to the path. -/
def Made (p : FilePath) (t s : FileTree) (q : List Text) : Prop :=
  t.get? q = none ∧ s.get? q = some .directory ∧ OnTheWay p s q

theorem Made.mono (made : Made p t g q) (keeps : KeepsDirectories g s) : Made p t s q := by
  obtain ⟨absent, directory, way⟩ := made
  exact ⟨absent, keeps.directories q directory, way.mono keeps⟩

/-- A path that comes back to a directory that was made on the way to it. -/
def Detour (p : FilePath) (t s : FileTree) (q : List Text) : Prop :=
  FilePath.up ∈ p.names ∧ Made p t s q

/-- From one tree to the other nothing but directories on the way to a path were made. -/
structure Grown (p : FilePath) (t s : FileTree) : Prop where
  /-- The working directory is the same. -/
  cwd : s.cwd = t.cwd
  /-- Every place has what it had, or such a directory. -/
  places : ∀ q, s.get? q = t.get? q ∨ Made p t s q

namespace Grown

theorem refl (p : FilePath) (t : FileTree) : Grown p t t := ⟨rfl, fun _ => .inl rfl⟩

theorem kept (grown : Grown p t s) {entry : FileEntry} (there : t.get? q = some entry) :
    s.get? q = some entry := by
  rcases grown.places q with same | ⟨absent, -, -⟩
  · exact same.trans there
  · cases absent.symm.trans there

theorem absent (grown : Grown p t s) (nothing : s.get? q = none) : t.get? q = none := by
  rcases grown.places q with same | ⟨absent, -, -⟩
  · exact same.symm.trans nothing
  · exact absent

theorem keepsDirectories (grown : Grown p t s) : KeepsDirectories t s :=
  ⟨grown.cwd, fun _ => grown.kept⟩

/-- A new entry makes no difference elsewhere. -/
theorem elsewhere (grown : Grown p t g) (free : g.get? place ≠ some .directory)
    (entry : FileEntry) (other : q ≠ place) :
    (g.put place entry).get? q = t.get? q ∨ Made p t (g.put place entry) q := by
  have keeps : KeepsDirectories g (g.put place entry) := .of_put free entry
  rcases grown.places q with same | made
  · rw [get?_put g (ne_nil_of_get? free), if_neg other]
    exact .inl same
  · exact .inr (made.mono keeps)

theorem makeDirectory (grown : Grown p t s) {above : List Text} (start : above <+: p.parent.names)
    {a : Except OsFault Unit} {s' : FileTree}
    (commits : Commits s (s.makeDirectory { p with names := above }) a s') : Grown p t s' := by
  cases commits with
  | refused => exact grown
  | made done =>
    obtain ⟨place, leads, unused, rfl⟩ := makeDirectory_eq_ok.mp done
    have free : s.get? place ≠ some .directory := by simp [unused]
    have keeps : KeepsDirectories s (s.put place .directory) := .of_put free _
    refine ⟨grown.cwd, ?_⟩
    intro q
    by_cases here : q = place
    · subst here
      have directory : (s.put q .directory).get? q = some .directory := by
        rw [get?_put s (ne_nil_of_get? free), if_pos rfl]
      exact .inr ⟨grown.absent unused, directory, above, start, keeps.locate leads⟩
    · exact grown.elsewhere free _ here

/-- The target has what it had, but for a path that comes back to its own directory. -/
theorem target (grown : Grown p t s) (home : t.get? t.cwd = some .directory)
    (leads : s.locate p = .ok q) : s.get? q = t.get? q ∨ Detour p t s q := by
  rcases grown.places q with same | made
  · exact .inl same
  refine .inr ⟨?_, made⟩
  by_contra straight
  obtain ⟨absent, -, above, start, to_above⟩ := made
  have short : above.length ≤ p.names.length - 1 := by
    simpa [FilePath.parent] using start.length_le
  have above_straight : FilePath.up ∉ above := fun mem =>
    straight (List.dropLast_subset _ (start.subset mem))
  -- both paths go straight on from the same directory, so that they are equally long
  have whole := walk_straight straight (locate_eq_ok.mp leads).2.2
  have part := walk_straight above_straight (locate_eq_ok.mp to_above).2.2
  have same : above = p.names := List.append_cancel_left (part.symm.trans whole)
  have none_left : p.names = [] := List.eq_nil_of_length_eq_zero (by rw [same] at short; omega)
  rw [none_left, List.append_nil] at whole
  have base : t.get? (if p.isAbsolute then [] else s.cwd) = some .directory := by
    split
    · exact t.get?_root
    · rw [grown.cwd, home]
  rw [whole, base] at absent
  cases absent

end Grown

/-! ### The new file -/

/-- A path at which a new file can be. -/
structure Temporary (g : FileTree) (temporary : FilePath) (place : List Text) : Prop where
  /-- The place that it leads to. -/
  leads : g.locate temporary = .ok place
  /-- Nothing is there. -/
  unused : g.get? place = none

/-- A path leads to no place in its directory but that of its name. -/
theorem locate_ne_of_name {name : Text} (found : t.locate p.parent = .ok place)
    (other : name ≠ p.name) : t.locate p ≠ .ok (place ++ [name]) := by
  intro leads
  obtain ⟨_, _, to_parent⟩ := locate_eq_ok.mp found
  obtain ⟨_, _, on⟩ := locate_eq_ok.mp leads
  rcases List.eq_nil_or_concat p.names with none_left | ⟨front, last, names⟩
  · rw [FilePath.parent, none_left] at to_parent
    rw [none_left] at on
    have equal := Except.ok.inj (to_parent.symm.trans on)
    simp at equal
  · rw [FilePath.parent, names, List.concat_eq_append, List.dropLast_concat] at to_parent
    rw [names, List.concat_eq_append] at on
    obtain ⟨between, to_between, from_between⟩ := walk_append_eq_ok.mp on
    cases to_parent.symm.trans to_between
    obtain ⟨_, _, ends⟩ := walk_cons_eq_ok.mp from_between
    have at_end := Except.ok.inj ends
    split at at_end
    · have shorter := congrArg List.length at_end
      simp at shorter
    · have same : last = name := by simpa using at_end
      exact other (by simp [FilePath.name, names, same])

namespace Temporary

variable {temporary : FilePath} {written : Bytes} {reserved : Text}

theorem of_creates (creates : Creates p.name g p.parent (.ok temporary) s) :
    ∃ place, Temporary g temporary place ∧ g.locate p ≠ .ok place ∧
      s = g.put place (.file []) := by
  cases creates with
  | made found unused other leads =>
    exact ⟨_, ⟨leads, unused⟩, locate_ne_of_name (find_eq_ok.mp found).1 other, rfl⟩

/-- Whatever name it has, a new file is at a path at which there was nothing. -/
theorem of_new {directory : FilePath}
    (creates : Creates reserved g directory (.ok temporary) s) :
    ∃ place, Temporary g temporary place ∧ s = g.put place (.file []) := by
  cases creates with
  | made found unused other leads => exact ⟨_, ⟨leads, unused⟩, rfl⟩

theorem of_created {directory : FilePath}
    (created : g.createTemporary directory = .ok (temporary, s)) :
    ∃ place, Temporary g temporary place ∧ s = g.put place (.file []) := by
  obtain ⟨place, found, rfl, ⟨q, leads⟩, rfl⟩ := createTemporary_eq_ok.mp created
  have at_name := locate_name (find_eq_ok.mp found).1 (g.freshName_ne_up place) leads
  exact ⟨_, ⟨at_name ▸ leads, (g.freshName_spec place).2⟩, rfl⟩

variable (new : Temporary g temporary place)

include new

theorem free : g.get? place ≠ some .directory := by simp [new.unused]

theorem find : (g.put place (.file written)).find temporary = .ok (place, .file written) := by
  refine find_eq_ok.mpr ⟨(KeepsDirectories.of_put new.free _).locate new.leads, ?_⟩
  rw [get?_put g (ne_nil_of_get? new.free), if_pos rfl]

theorem append (more : Bytes) : (g.put place (.file written)).append temporary more =
    .ok (g.put place (.file (written ++ more))) :=
  append_eq_ok.mpr ⟨place, written, new.find, (g.put_put place _ _).symm⟩

theorem remove : (g.put place (.file written)).remove temporary = .ok g :=
  remove_eq_ok.mpr ⟨place, written, new.find, (erase_put new.unused _).symm⟩

theorem replace_eq_ok : (g.put place (.file written)).replace temporary p = .ok s ↔
    ∃ q, g.locate p = .ok q ∧ g.get? q ≠ some .directory ∧ s = g.put q (.file written) := by
  have onward : KeepsDirectories g (g.put place (.file written)) := .of_put new.free _
  have back : KeepsDirectories (g.put place (.file written)) g := .put_file new.free _
  rw [FileTree.replace_eq_ok]
  constructor
  · rintro ⟨source, content, q, found, leads, free, rfl⟩
    cases new.find.symm.trans found
    refine ⟨q, back.locate leads, fun directory => free (onward.directories q directory), ?_⟩
    rw [erase_put new.unused]
  · rintro ⟨q, leads, free, rfl⟩
    refine ⟨place, written, q, new.find, onward.locate leads, ?_, ?_⟩
    · intro directory
      exact free (back.directories q directory)
    · rw [erase_put new.unused]

end Temporary

/-! ### The trees met -/

/-- The directories on the way are made, and the new file has some content. The path leads
    elsewhere. -/
def Writing (p : FilePath) (t : FileTree) (temporary : FilePath) (written : Bytes)
    (s : FileTree) : Prop :=
  ∃ g place, Grown p t g ∧ Temporary g temporary place ∧ g.locate p ≠ .ok place ∧
    s = g.put place (.file written)

/-- The directories on the way are made, and the content is in its place. -/
def Replaced (p : FilePath) (t : FileTree) (content : Bytes) (s : FileTree) : Prop :=
  ∃ g q, Grown p t g ∧ g.locate p = .ok q ∧ g.get? q ≠ some .directory ∧
    s = g.put q (.file content)

/-- The trees met before the end. -/
def Underway (p : FilePath) (t s : FileTree) : Prop :=
  Grown p t s ∨ ∃ temporary written, Writing p t temporary written s

/-- The trees met at the end. -/
def Ended (p : FilePath) (t : FileTree) (content : Bytes) :
    Except FileProgram.WriteFault Unit → FileTree → Prop
  | .ok () => Replaced p t content
  | .error _ => Grown p t

end FileTree

namespace FileProgram

open FileTree

variable {p : FilePath} {t s : FileTree} {reserved : Text}

/-! ### Each part of a write -/

theorem ifDirectory_along (grown : Grown p t s) (q : FilePath) (fault : OsFault) :
    Along reserved (Grown p t) (fun _ => Grown p t) (ifDirectory q fault) s := by
  refine .bind (R := fun _ => Grown p t) ?_ ?_
  · refine .request grown ?_
    intro answer s' looked
    cases looked
    split
    · exact .done grown
    · exact .done grown
  · intro found s' grown'
    cases found with
    | true => exact .done grown'
    | false => exact .done grown'

/-- To make a directory, and to go on in some way if that above it is missing. -/
theorem makeDirectory_along {names : List Text} (start : names <+: p.parent.names)
    (grown : Grown p t s) {k : Except OsFault Unit → FileProgram (Except OsFault Unit)}
    (made : k (.ok ()) = .done (.ok ()))
    (refused : ∀ fault, fault.reason ≠ .notFound →
      k (.error fault) = ifDirectory { p with names } fault)
    (missing : ∀ fault s', fault.reason = .notFound → Grown p t s' →
      Along reserved (Grown p t) (fun _ => Grown p t) (k (.error fault)) s') :
    Along reserved (Grown p t) (fun _ => Grown p t)
      (request (.makeDirectory { p with names }) >>= k) s := by
  refine .request grown ?_
  intro answer s' commits
  have grown' := grown.makeDirectory start commits
  cases answer with
  | ok =>
    rw [made]
    exact .done grown'
  | error fault =>
    by_cases none_above : fault.reason = .notFound
    · exact missing fault s' none_above grown'
    · rw [refused fault none_above]
      exact ifDirectory_along grown' _ _

theorem makeDirectoriesAt_along (above : List Text) (start : above.reverse <+: p.parent.names)
    (grown : Grown p t s) :
    Along reserved (Grown p t) (fun _ => Grown p t) (makeDirectoriesAt p.root above) s := by
  induction above generalizing s with
  | nil =>
    refine makeDirectory_along start grown rfl (fun _ other => if_neg other) ?_
    intro fault s' none_above grown'
    dsimp only
    rw [if_pos none_above]
    exact .done grown'
  | cons name above ih =>
    refine makeDirectory_along start grown rfl (fun _ other => if_neg other) ?_
    intro fault s' none_above grown'
    dsimp only
    rw [if_pos none_above]
    -- first the directory above, then this one again
    have above_start : above.reverse <+: p.parent.names :=
      (List.prefix_append above.reverse [name]).trans (by simpa using start)
    refine (ih above_start grown').bind ?_
    intro made s'' grown''
    cases made with
    | error fault => exact .done grown''
    | ok =>
      refine makeDirectory_along start grown'' rfl (fun _ other => if_neg other) ?_
      intro fault s₃ still grown₃
      dsimp only
      rw [if_pos still]
      exact .done grown₃

section writing

variable {I : FileTree → Prop} {g : FileTree} {temporary : FilePath} {place : List Text}
  {written content : Bytes}

theorem appendAll_along (new : Temporary g temporary place)
    (now : ∀ written, I (g.put place (.file written))) (chunks : List Bytes) (written : Bytes) :
    Along reserved I
      (fun result s => ∃ all, s = g.put place (.file all) ∧
        (result = .ok () → all = written ++ chunks.flatten))
      (appendAll temporary chunks) (g.put place (.file written)) := by
  induction chunks generalizing written with
  | nil => exact .done ⟨written, rfl, fun _ => by simp⟩
  | cons chunk rest ih =>
    refine .request (now written) ?_
    intro answer s' appends
    cases appends with
    | made done =>
      cases (new.append chunk).symm.trans done
      simpa [List.append_assoc] using ih (written ++ chunk)
    | torn part done fault =>
      -- some of the chunk is in the new file, and nothing more will be
      cases (new.append _).symm.trans done
      exact .done ⟨_, rfl, fun fine => by cases fine⟩
    | refused fault =>
      exact .done ⟨written, rfl, fun fine => by cases fine⟩

/-- Nothing is left of a new file that is not put in place. -/
theorem giveUp_along (grown : Grown p t g) (new : Temporary g temporary place)
    (now : I (g.put place (.file written))) (fault : WriteFault) :
    Along reserved I (Ended p t content) (giveUp temporary fault) (g.put place (.file written)) := by
  refine .request now ?_
  intro answer s' removed
  have gone : (answer, s') = (.ok (), g) := by
    rw [removed, new.remove]
    rfl
  cases gone
  exact .done grown

/-- Any property of the trees with directories made on the way, and with the new file beside
    them, holds up to the end of a write, whatever name the new file has. -/
theorem writeAtomically_keeps (p : FilePath) (t : FileTree) (chunks : List Bytes)
    (failure : Option Text) (grown_now : ∀ s, Grown p t s → I s)
    (new_now : ∀ g temporary s, Grown p t g →
      Creates reserved g p.parent (.ok temporary) s → ∃ place, Temporary g temporary place ∧
        s = g.put place (.file []) ∧ ∀ written, I (g.put place (.file written))) :
    Along reserved I (Ended p t chunks.flatten) (writeAtomically p chunks failure) t := by
  have parents : Along reserved I (fun _ => Grown p t) (makeParent p) t :=
    (makeDirectoriesAt_along _ (by simp) (.refl p t)).mono grown_now
  refine parents.bind ?_
  intro made g grown
  cases made with
  | error fault => exact .done grown
  | ok =>
    refine .request (grown_now g grown) ?_
    intro answer s creates
    cases answer with
    | error fault =>
      cases creates with
      | refused => exact .done grown
    | ok temporary =>
      -- from here on there is a new file, until it is removed or put in place
      obtain ⟨place, new, rfl, now⟩ := new_now g temporary s grown creates
      refine (appendAll_along new now chunks []).bind ?_
      rintro result s ⟨all, rfl, complete⟩
      cases result with
      | error fault => exact giveUp_along grown new (now all) _
      | ok =>
        cases failure with
        | some reason => exact giveUp_along grown new (now all) _
        | none =>
          refine .request (now all) ?_
          intro answer s' commits
          cases commits with
          | refused fault => exact giveUp_along grown new (now all) _
          | made done =>
            obtain ⟨q, leads, free, rfl⟩ := new.replace_eq_ok.mp done
            cases complete rfl
            exact .done ⟨g, q, grown, leads, free, rfl⟩

end writing

/-- A new file of another name than the target is not in its place. -/
theorem writeAtomically_along (p : FilePath) (t : FileTree) (chunks : List Bytes)
    (failure : Option Text) : Along p.name (Underway p t) (Ended p t chunks.flatten)
      (writeAtomically p chunks failure) t := by
  refine writeAtomically_keeps p t chunks failure (fun _ => .inl) ?_
  intro g temporary s grown creates
  obtain ⟨place, new, elsewhere, rfl⟩ := Temporary.of_creates creates
  refine ⟨place, new, rfl, ?_⟩
  intro written
  exact .inr ⟨temporary, written, g, place, grown, new, elsewhere, rfl⟩

/-- Whatever name the new file has, a write ends with the content in place or with nothing
    but directories made on the way. -/
theorem writeAtomically_ends (p : FilePath) (t : FileTree) (chunks : List Bytes)
    (failure : Option Text) : Along reserved (fun _ => True) (Ended p t chunks.flatten)
      (writeAtomically p chunks failure) t := by
  refine writeAtomically_keeps p t chunks failure (fun _ _ => trivial) ?_
  intro g temporary s grown creates
  obtain ⟨place, new, rfl⟩ := Temporary.of_new creates
  exact ⟨place, new, rfl, fun _ => trivial⟩

/-! ### Writes on which nothing fails -/

theorem run_appendAll {g : FileTree} {temporary : FilePath} {place : List Text}
    (new : Temporary g temporary place) (input : Text) (chunks : List Bytes) (written : Bytes) :
    (g.put place (.file written)).run input (appendAll temporary chunks) =
      (.ok (), g.put place (.file (written ++ chunks.flatten))) := by
  induction chunks generalizing written with
  | nil =>
    rw [List.flatten_nil, List.append_nil]
    rfl
  | cons chunk rest ih =>
    have appended : answer input (.append temporary chunk) (g.put place (.file written)) =
        (.ok (), g.put place (.file (written ++ chunk))) := by
      show commit _ ((g.put place (.file written)).append temporary chunk) = _
      rw [new.append chunk]
      rfl
    rw [appendAll, run_ask, appended, List.flatten_cons, ← List.append_assoc]
    exact ih _

/-- A write is done where its directory can be made, a new file can be made there, and the
    path does not lead to a directory. -/
theorem run_writeAtomically {input : Text} {g : FileTree} {temporary : FilePath} {q : List Text}
    (made : t.run input (makeParent p) = (.ok (), g))
    (created : g.createTemporary p.parent = .ok (temporary, s)) (leads : g.locate p = .ok q)
    (free : g.get? q ≠ some .directory) (chunks : List Bytes) :
    t.run input (writeAtomically p chunks none) = (.ok (), g.put q (.file chunks.flatten)) := by
  obtain ⟨place, new, rfl⟩ := Temporary.of_created created
  have answered : answer input (.createTemporary p.parent) g =
      (.ok temporary, g.put place (.file [])) := by
    simp only [answer, created]
  have replaced : answer input (.replace temporary p) (g.put place (.file chunks.flatten)) =
      (.ok (), g.put q (.file chunks.flatten)) := by
    have done : (g.put place (.file chunks.flatten)).replace temporary p =
        .ok (g.put q (.file chunks.flatten)) := new.replace_eq_ok.mpr ⟨q, leads, free, rfl⟩
    show commit _ ((g.put place (.file chunks.flatten)).replace temporary p) = _
    rw [done]
    rfl
  have written := run_appendAll new input chunks []
  rw [List.nil_append] at written
  rw [writeAtomically, FileTree.run_bind, made]
  dsimp only
  rw [run_ask, answered]
  dsimp only
  rw [FileTree.run_bind, written]
  dsimp only
  rw [run_ask, replaced]
  rfl

/-! ### All or nothing -/

/-- What is true at a moment of a write of the content to a path that started on the tree
    `t`: what is left to do is `rest` and the tree is `s`. The places of the target that
    are excused need not have what they had. -/
structure AllOrNothing (excused : List Text → Prop) (p : FilePath) (content : Bytes)
    (t : FileTree) (rest : FileProgram (Except WriteFault Unit)) (s : FileTree) : Prop where
  /-- The target is where it was. -/
  leads : ∀ q, t.locate p = .ok q → s.locate p = .ok q
  /-- It has all that it had or the whole content. -/
  target : ∀ q, s.locate p = .ok q →
    s.get? q = t.get? q ∨ s.get? q = some (.file content) ∨ excused q
  /-- All other places that had something have it. -/
  others : ∀ q entry, t.get? q = some entry → s.locate p ≠ .ok q → s.get? q = some entry
  /-- At a good end the target has the content, and nothing else has changed but for the
      directories made on the way. -/
  returned : rest = .done (.ok ()) → ∃ q, s.locate p = .ok q ∧ s.get? q = some (.file content) ∧
    ∀ other ≠ q, s.get? other = t.get? other ∨ Made p t s other
  /-- At a bad end nothing has changed but for the directories made on the way, which the
      target is none of. -/
  raised : ∀ fault, rest = .done (.error fault) →
    (∀ q, s.get? q = t.get? q ∨ Made p t s q) ∧
      ∀ q, s.locate p = .ok q → s.get? q = t.get? q ∨ excused q

namespace AllOrNothing

variable {content : Bytes} {rest : FileProgram (Except WriteFault Unit)}

theorem of_grown (home : t.get? t.cwd = some .directory) (grown : Grown p t s)
    (open_end : rest ≠ .done (.ok ())) : AllOrNothing (Detour p t s) p content t rest s where
  leads _ := grown.keepsDirectories.locate
  target _ leads := (grown.target home leads).imp_right .inr
  others _ _ there _ := grown.kept there
  returned ended := absurd ended open_end
  raised _ _ := ⟨grown.places, fun _ => grown.target home⟩

theorem of_writing (home : t.get? t.cwd = some .directory) {temporary : FilePath}
    {written : Bytes} (writing : Writing p t temporary written s)
    (unfinished : ∀ result, rest ≠ .done result) :
    AllOrNothing (Detour p t s) p content t rest s := by
  obtain ⟨g, place, grown, new, elsewhere, rfl⟩ := writing
  have onward : KeepsDirectories g (g.put place (.file written)) := .of_put new.free _
  have back : KeepsDirectories (g.put place (.file written)) g := .put_file new.free _
  have now := get?_put g (ne_nil_of_get? new.free) (.file written)
  refine ⟨fun _ leads => onward.locate (grown.keepsDirectories.locate leads), ?_, ?_,
    fun ended => absurd ended (unfinished _), fun _ ended => absurd ended (unfinished _)⟩
  · intro q leads
    -- the new file is not in the place of the target, and so makes no difference to it
    have other : q ≠ place := by
      rintro rfl
      exact elsewhere (back.locate leads)
    rw [now, if_neg other]
    rcases grown.target home (back.locate leads) with same | ⟨detour, made⟩
    · exact .inl same
    · exact .inr (.inr ⟨detour, made.mono onward⟩)
  · intro q entry there _
    have other : q ≠ place := by
      rintro rfl
      cases (grown.kept there).symm.trans new.unused
    rw [now, if_neg other, grown.kept there]

theorem of_replaced (replaced : Replaced p t content s) (result : rest = .done (.ok ())) :
    AllOrNothing (Detour p t s) p content t rest s := by
  obtain ⟨g, place, grown, there, free, rfl⟩ := replaced
  have onward : KeepsDirectories g (g.put place (.file content)) := .of_put free _
  have now := get?_put g (ne_nil_of_get? free) (.file content)
  have leads := onward.locate there
  refine ⟨fun _ leads => onward.locate (grown.keepsDirectories.locate leads), ?_, ?_, ?_, ?_⟩
  · intro q leads_q
    cases leads.symm.trans leads_q
    exact .inr (.inl (by rw [now, if_pos rfl]))
  · intro q entry at_q elsewhere
    have other : q ≠ place := by
      rintro rfl
      exact elsewhere leads
    rw [now, if_neg other, grown.kept at_q]
  · intro _
    refine ⟨place, leads, by rw [now, if_pos rfl], ?_⟩
    intro q other
    exact grown.elsewhere free _ other
  · intro fault ended
    cases result.symm.trans ended

end AllOrNothing

/-- What is true of all writes to a path on a tree. -/
structure WritesWhole (p : FilePath) (t : FileTree) : Prop where
  /-- Whatever is written, whether the writer fails, and whatever is refused or torn on the
      way, each moment is one of all or nothing, but for a path that comes back to a directory
      made on the way to it. To fail for a reason of its own is also to be cut off after the
      last chunk, as when what was written cannot be saved. -/
  chunks : ∀ chunks failure rest s, Reaches p.name (writeAtomically p chunks failure) t rest s →
    AllOrNothing (Detour p t s) p chunks.flatten t rest s
  /-- So it is with a text. -/
  text : ∀ content rest s, Reaches p.name (writeText p content) t rest s →
    AllOrNothing (Detour p t s) p (Utf8.encode content) t rest s
  /-- Where nothing stands in the way, the write is done. -/
  done : ∀ input g temporary s q, t.run input (makeParent p) = (.ok (), g) →
    g.createTemporary p.parent = .ok (temporary, s) → g.locate p = .ok q →
    g.get? q ≠ some .directory → ∀ chunks,
      t.run input (writeAtomically p chunks none) = (.ok (), g.put q (.file chunks.flatten))

/-- Files are written as a whole or not at all. -/
theorem writes_all_or_nothing {t : FileTree} (home : t.get? t.cwd = some .directory)
    (p : FilePath) : WritesWhole p t := by
  have of_chunks : ∀ chunks failure rest s,
      Reaches p.name (writeAtomically p chunks failure) t rest s →
        AllOrNothing (Detour p t s) p chunks.flatten t rest s := by
    intro chunks failure rest s reached
    cases (writeAtomically_along p t chunks failure).at_moment reached with
    | done ended =>
      rename_i result
      cases result with
      | ok => exact .of_replaced ended rfl
      | error fault => exact .of_grown home ended (by simp)
    | ask now _ =>
      rcases now with grown | ⟨temporary, written, writing⟩
      · exact .of_grown home grown (by simp)
      · exact .of_writing home writing (by simp)
  constructor
  case chunks => exact of_chunks
  case text =>
    intro content rest s reached
    simpa using of_chunks [Utf8.encode content] none rest s reached
  case done =>
    intro input g temporary s q made created leads free chunks
    exact run_writeAtomically made created leads free chunks

/-- A text in two chunks, and a directory on the way that is missing. -/
theorem writes_all_or_nothing_new_directory :
    let t : FileTree := { cwd := [], entries := [] }
    let p := FilePath.ofText "docs/out.md".toList
    let s : FileTree := { cwd := [], entries := [(["docs".toList], .directory),
      (["docs".toList, "out.md".toList], .file [110, 101, 119])] }
    t.get? t.cwd = some .directory ∧
      t.run [] (writeAtomically p [[110], [101, 119]] none) = (.ok (), s) ∧
      AllOrNothing (Detour p t s) p [110, 101, 119] t (.done (.ok ())) s := by
  have ran : FileTree.run { cwd := [], entries := [] } []
      (writeAtomically (.ofText "docs/out.md".toList) [[110], [101, 119]] none) =
      (.ok (), { cwd := [], entries := [(["docs".toList], .directory),
        (["docs".toList, "out.md".toList], .file [110, 101, 119])] }) := by rfl
  have reached := reaches_run []
    (by decide : ¬ "tmp".toList <+: (FilePath.ofText "docs/out.md".toList).name)
    (writeAtomically (.ofText "docs/out.md".toList) [[110], [101, 119]] none)
    { cwd := [], entries := [] }
  rw [ran] at reached
  have home : FileTree.get? { cwd := [], entries := [] } [] = some .directory := rfl
  have whole := writes_all_or_nothing home (.ofText "docs/out.md".toList)
  exact ⟨home, ran, whole.chunks _ _ _ _ reached⟩

/-- A write that fails leaves the directory that its path comes back to, so that the target
    is not as before. -/
theorem failed_write_leaves_detour :
    let t : FileTree := { cwd := [], entries := [] }
    let p := FilePath.ofText "a/../a".toList
    t.get? t.cwd = some .directory ∧ ∃ rest s,
      Reaches p.name (writeAtomically p [[120]] (some "interrupted".toList)) t rest s ∧
        ¬ AllOrNothing (fun _ => False) p [120] t rest s := by
  have ran : FileTree.run { cwd := [], entries := [] } []
      (writeAtomically (.ofText "a/../a".toList) [[120]] (some "interrupted".toList)) =
      (.error (.writer "interrupted".toList),
        { cwd := [], entries := [(["a".toList], .directory)] }) := by rfl
  have reached := reaches_run []
    (by decide : ¬ "tmp".toList <+: (FilePath.ofText "a/../a".toList).name)
    (writeAtomically (.ofText "a/../a".toList) [[120]] (some "interrupted".toList))
    { cwd := [], entries := [] }
  rw [ran] at reached
  refine ⟨rfl, _, _, reached, fun all_or_nothing => ?_⟩
  rcases (all_or_nothing.raised _ rfl).2 ["a".toList] (by rfl) with same | excused
  · cases same
  · exact excused

end FileProgram

end MarkdownOutlets
