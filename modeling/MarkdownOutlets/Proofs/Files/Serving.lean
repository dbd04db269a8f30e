import MarkdownOutlets.Proofs.Files.Trees

/-! # Files that are served with faults

  A file system need not do what it is asked for: it can refuse any request, and
  writing can stop half way. `FileTree.Serves` says what may come of a request to a
  tree, and `FileProgram.Reaches` which moments a program can come to when every
  request is served so. `FileProgram.Along` is the rule to prove something of all these
  moments, request by request; `FileTree.run` is one of the ways to serve a program
  (`FileProgram.reaches_run`).
-/

namespace MarkdownOutlets

namespace FileTree

/-! ### What may come of a request -/

/-- What may come of a change that is made as a whole or not at all. -/
inductive Commits (t : FileTree) (change : Except OsFault FileTree) :
    Except OsFault Unit → FileTree → Prop
  /-- It is made. -/
  | made {s : FileTree} (done : change = .ok s) : Commits t change (.ok ()) s
  /-- It is refused, for whatever reason. -/
  | refused (fault : OsFault) : Commits t change (.error fault) t

/-- What may come of bytes to write to the end of a file. -/
inductive Appends (t : FileTree) (p : FilePath) (bytes : Bytes) :
    Except OsFault Unit → FileTree → Prop
  /-- All of them are written. -/
  | made {s : FileTree} (done : t.append p bytes = .ok s) : Appends t p bytes (.ok ()) s
  /-- Some of them are written when the fault occurs. -/
  | torn {written : Bytes} {s : FileTree} (part : written <+: bytes)
      (done : t.append p written = .ok s) (fault : OsFault) : Appends t p bytes (.error fault) s
  /-- None of them is written. -/
  | refused (fault : OsFault) : Appends t p bytes (.error fault) t

/-- What may come of the request for a new file in a directory. The new name is not the
    reserved one. -/
inductive Creates (reserved : Text) (t : FileTree) (directory : FilePath) :
    Except OsFault FilePath → FileTree → Prop
  /-- A file is made under a name that nothing in the directory has. -/
  | made {place : List Text} {name : Text} (found : t.find directory = .ok (place, .directory))
      (unused : t.get? (place ++ [name]) = none) (other : name ≠ reserved)
      (leads : t.locate { directory with names := directory.names ++ [name] } =
        .ok (place ++ [name])) :
      Creates reserved t directory (.ok { directory with names := directory.names ++ [name] })
        (t.put (place ++ [name]) (.file []))
  /-- No file is made. -/
  | refused (fault : OsFault) : Creates reserved t directory (.error fault) t

/-- The answer that a request to a tree may get, and the tree that is left. Looking
    changes nothing, and what is seen is of no concern here. To remove a file succeeds
    where there is a file. -/
def Serves (reserved : Text) (t : FileTree) : (r : FileRequest) → r.Answer → FileTree → Prop
  | .entry _, _, s => s = t
  | .read _, _, s => s = t
  | .makeDirectory p, a, s => Commits t (t.makeDirectory p) a s
  | .createTemporary directory, a, s => Creates reserved t directory a s
  | .append p bytes, a, s => Appends t p bytes a s
  | .replace p target, a, s => Commits t (t.replace p target) a s
  | .remove p, a, s => (a, s) = t.commit (t.remove p)
  | .standardInput, _, s => s = t

variable {reserved : Text} {t s : FileTree}

theorem Commits.of_commit (change : Except OsFault FileTree) :
    Commits t change (t.commit change).1 (t.commit change).2 := by
  cases change with
  | ok s => exact .made rfl
  | error fault => exact .refused fault

/-- A tree on which nothing fails is one that may be. -/
theorem serves_answer (input : Text) (free : ¬ "tmp".toList <+: reserved) (r : FileRequest) :
    Serves reserved t r (answer input r t).1 (answer input r t).2 := by
  cases r with
  | entry p => rfl
  | read p => rfl
  | makeDirectory p => exact .of_commit _
  | replace p target => exact .of_commit _
  | remove p => rfl
  | standardInput => rfl
  | append p bytes =>
    show Appends t p bytes (t.commit (t.append p bytes)).1 (t.commit (t.append p bytes)).2
    cases done : t.append p bytes with
    | ok s => exact .made done
    | error fault => exact .refused fault
  | createTemporary directory =>
    cases created : t.createTemporary directory with
    | error fault =>
      have given : answer input (.createTemporary directory) t = (.error fault, t) := by
        simp only [answer, created]
      rw [given]
      exact Creates.refused fault
    | ok made =>
      obtain ⟨p, s⟩ := made
      have given : answer input (.createTemporary directory) t = (.ok p, s) := by
        simp only [answer, created]
      rw [given]
      obtain ⟨place, found, rfl, ⟨q, leads⟩, rfl⟩ := createTemporary_eq_ok.mp created
      obtain ⟨tried, unused⟩ := t.freshName_spec place
      obtain ⟨n, -, named⟩ := List.mem_map.mp tried
      -- all names that are tried start alike, and the reserved one does not
      have other : t.freshName place ≠ reserved := by
        rintro rfl
        exact free ⟨_, named⟩
      have at_name := locate_name (find_eq_ok.mp found).1 (t.freshName_ne_up place) leads
      exact Creates.made found unused other (at_name ▸ leads)

end FileTree

namespace FileProgram

open FileTree (Serves)

variable {α β : Type} {reserved : Text} {I : FileTree → Prop} {Q : α → FileTree → Prop}
  {R : β → FileTree → Prop} {p rest : FileProgram α} {t s : FileTree}

/-! ### The moments of a program -/

/-- What is left of a program and the tree at some moment, from a program and the tree at
    its start. -/
inductive Reaches (reserved : Text) : FileProgram α → FileTree → FileProgram α → FileTree → Prop
  /-- The start. -/
  | here (p : FileProgram α) (t : FileTree) : Reaches reserved p t p t
  /-- After an answer. -/
  | served {r : FileRequest} {next : r.Answer → FileProgram α} {a : r.Answer} {t t' s : FileTree}
      {rest : FileProgram α} (serves : Serves reserved t r a t')
      (onward : Reaches reserved (next a) t' rest s) : Reaches reserved (.ask r next) t rest s

/-- The end of a run on a tree on which nothing fails is among the moments. -/
theorem reaches_run (input : Text) (free : ¬ "tmp".toList <+: reserved) (p : FileProgram α)
    (t : FileTree) : Reaches reserved p t (.done (t.run input p).1) (t.run input p).2 := by
  induction p generalizing t with
  | done a => exact .here _ t
  | ask r next ih => exact .served (FileTree.serves_answer input free r) (ih _ _)

/-- The tree has a property at every moment before the end of a program, and the result
    and the tree at the end have another one. -/
inductive Along (reserved : Text) (I : FileTree → Prop) (Q : α → FileTree → Prop) :
    FileProgram α → FileTree → Prop
  /-- The end. -/
  | done {a : α} {t : FileTree} (holds : Q a t) : Along reserved I Q (.done a) t
  /-- A request, whatever comes of it. -/
  | ask {r : FileRequest} {next : r.Answer → FileProgram α} {t : FileTree} (now : I t)
      (onward : ∀ a s, Serves reserved t r a s → Along reserved I Q (next a) s) :
      Along reserved I Q (.ask r next) t

namespace Along

theorem bind {p : FileProgram β} {k : β → FileProgram α} (first : Along reserved I R p t)
    (second : ∀ b s, R b s → Along reserved I Q (k b) s) : Along reserved I Q (p >>= k) t := by
  induction first with
  | done holds => exact second _ _ holds
  | ask now _ ih => exact .ask now ih

theorem request {r : FileRequest} {k : r.Answer → FileProgram α} (now : I t)
    (onward : ∀ a s, Serves reserved t r a s → Along reserved I Q (k a) s) :
    Along reserved I Q (FileProgram.request r >>= k) t :=
  .ask now onward

/-- A property that says less is there as well. -/
theorem mono {J : FileTree → Prop} (along : Along reserved I Q p t) (less : ∀ s, I s → J s) :
    Along reserved J Q p t := by
  induction along with
  | done holds => exact .done holds
  | ask now _ ih => exact .ask (less _ now) ih

/-- What is known along a program is known from each of its moments on. -/
theorem at_moment (along : Along reserved I Q p t) (reached : Reaches reserved p t rest s) :
    Along reserved I Q rest s := by
  induction reached with
  | here p t => exact along
  | served serves _ ih =>
    cases along with
    | ask now onward => exact ih (onward _ _ serves)

end Along

end FileProgram

end MarkdownOutlets
