import Mathlib.Data.List.Induction
import MarkdownOutlets.Source.Files
import MarkdownOutlets.Proofs.Composition.EnteredOutlets
import MarkdownOutlets.Proofs.Composition.SourcePaths
import MarkdownOutlets.Proofs.Path.NormalForm

/-! # Canonical paths of sources in files

  The chain of sources and the cache compare the texts of paths. They know
  each document by one name only if the source in files has one text for all
  spellings of a path.

  A relative path is made absolute and normal, so that all its spellings have
  the same text. An absolute one is taken as it is: repeated slashes and the
  name `.` are dropped, but a step to the directory above stays. The main
  statement, `canonical_sources`, is therefore about the sources without such a
  step, whatever other sources there are; `detour_joins_twice` shows that it
  does not hold of all.
-/

namespace MarkdownOutlets

open FilePath

/-! ### Canonical texts -/

namespace FilePath

/-- The text of the path that a text means, normalised. -/
def normalText (t : Text) : Text := (ofText t).normal.toText

/-- The text is that of an absolute and normal path, in the way in which paths are
    written. -/
def IsCanonical (t : Text) : Prop := (ofText t).isAbsolute = true ∧ normalText t = t

/-- There is no step to the directory above in the path that a text means. -/
def IsStraight (t : Text) : Prop := up ∉ (ofText t).names

instance (t : Text) : Decidable (IsStraight t) := inferInstanceAs (Decidable (_ ∉ _))

theorem isCanonical_toText {p : FilePath} (absolute : p.isAbsolute = true) (proper : p.IsProper) :
    IsCanonical p.normal.toText := by
  have means : ofText p.normal.toText = p.normal := ofText_toText proper.normal
  refine ⟨?_, ?_⟩
  · rw [means, isAbsolute_normal]
    exact absolute
  · rw [normalText, means, normal_normal]

/-- Canonical texts are the same if they are when normalised. -/
theorem IsCanonical.eq_of_normalText {t t' : Text} (canonical : IsCanonical t)
    (canonical' : IsCanonical t') (same : normalText t = normalText t') : t = t' := by
  rw [← canonical.2, same, canonical'.2]

end FilePath

namespace FileSource

variable (s : FileSource)

/-- The surroundings of the source are sound, and its directory consists of names. -/
structure IsSound : Prop where
  /-- The surroundings. -/
  places : s.places.IsSound
  /-- The directory, if there is one. -/
  directory : ∀ dir, s.directory = some dir → dir.IsProper

/-- The path that is meant by a text, with a base of the given kind. -/
def meant (path : Text) (base : Option Text) (mode : ResolveFrom) : FilePath :=
  (s.places.absolute (s.anchor base mode)).join (s.places.expand (.ofText path))

/-- A path that is not relative has no step to the directory above. -/
def Straight (path : Text) : Prop :=
  (s.places.expand (.ofText path)).isAbsolute = true → up ∉ (s.places.expand (.ofText path)).names

variable {s} {path : Text}

/-- The source in files makes a straight path absolute and normal. -/
theorem resolve_eq (straight : s.Straight path) (base : Option Text) (mode : ResolveFrom) :
    s.resolve path base mode = (s.meant path base mode).normal.toText := by
  unfold resolve meant
  by_cases absolute : (s.places.expand (.ofText path)).isAbsolute = true
  · rw [join_of_isAbsolute absolute, normal_of_notMem (straight absolute)]
    exact if_pos absolute
  · exact if_neg absolute

variable (sound : s.IsSound)
include sound

theorem isProper_anchor (base : Option Text) (mode : ResolveFrom) :
    (s.anchor base mode).IsProper := by
  unfold anchor
  split
  · exact (isProper_ofText _).parent
  · exact isProper_ofText _
  · cases given : s.directory with
    | none => exact sound.places.cwd
    | some dir => exact sound.directory dir given

theorem isProper_meant (path : Text) (base : Option Text) (mode : ResolveFrom) :
    (s.meant path base mode).IsProper :=
  ((isProper_anchor sound base mode).absolute sound.places.cwd).join
    ((isProper_ofText path).expand sound.places.homes)

theorem isAbsolute_meant (path : Text) (base : Option Text) (mode : ResolveFrom) :
    (s.meant path base mode).isAbsolute = true :=
  isAbsolute_join (isAbsolute_absolute sound.places.absolute _) _

/-- The text that means an absolute and normal path has no step to the directory above. -/
theorem isStraight_meant (path : Text) (base : Option Text) (mode : ResolveFrom) :
    IsStraight (s.meant path base mode).normal.toText := by
  unfold IsStraight
  rw [ofText_toText (isProper_meant sound path base mode).normal, FilePath.normal,
    isAbsolute_meant sound path base mode]
  exact up_notMem_normalNames _

/-- The sources of straight paths are those without a step to the directory above. -/
theorem isStraight_resolve {base : Option Text} {mode : ResolveFrom} :
    IsStraight (s.resolve path base mode) ↔ s.Straight path := by
  constructor
  · intro straight absolute
    have proper : (s.places.expand (.ofText path)).IsProper :=
      (isProper_ofText path).expand sound.places.homes
    have as_it_is : s.resolve path base mode = (s.places.expand (.ofText path)).toText :=
      if_pos absolute
    rw [as_it_is, IsStraight, ofText_toText proper] at straight
    exact straight
  · intro straight
    rw [resolve_eq straight]
    exact isStraight_meant sound path base mode

/-- They are made absolute and normal, and only they are. -/
theorem isStraight_resolve_iff_eq {base : Option Text} {mode : ResolveFrom} :
    IsStraight (s.resolve path base mode) ↔
      s.resolve path base mode = (s.meant path base mode).normal.toText := by
  constructor
  · intro straight
    exact resolve_eq ((isStraight_resolve sound).mp straight) base mode
  · intro resolved
    rw [resolved]
    exact isStraight_meant sound path base mode

theorem isCanonical_resolve {base : Option Text} {mode : ResolveFrom}
    (straight : IsStraight (s.resolve path base mode)) : IsCanonical (s.resolve path base mode) := by
  rw [(isStraight_resolve_iff_eq sound).mp straight]
  exact isCanonical_toText (isAbsolute_meant sound path base mode) (isProper_meant sound path base mode)

/-- Such sources are the same if and only if they are of paths that mean the same. -/
theorem resolve_eq_iff {path' : Text} {base base' : Option Text} {mode mode' : ResolveFrom}
    (straight : IsStraight (s.resolve path base mode))
    (straight' : IsStraight (s.resolve path' base' mode')) :
    s.resolve path base mode = s.resolve path' base' mode' ↔
      (s.meant path base mode).normal = (s.meant path' base' mode').normal := by
  rw [(isStraight_resolve_iff_eq sound).mp straight, (isStraight_resolve_iff_eq sound).mp straight']
  exact toText_inj (isProper_meant sound path base mode).normal
    (isProper_meant sound path' base' mode').normal

end FileSource

/-! ### Places of a document -/

section places

variable {resolve : Resolver} {o : Options} {d : Document}

/-- The path of a source is one that the provider makes of a path. -/
theorem Engine.sourcePath_eq (resolve : Resolver) (o : Options) (path : Text)
    (document : Option Text) :
    ∃ base mode, sourcePath resolve o path document = resolve path base mode := by
  unfold sourcePath
  split
  · exact ⟨_, _, rfl⟩
  · exact ⟨_, _, rfl⟩

/-- The paths in a slot value of a document are paths of the document. -/
theorem Document.sourcePaths_of_place {names : List Text} {value : Slot}
    (at_place : (d.place resolve o names).value = some value) {path : Text}
    (mem : path ∈ value.sourcePaths) : path ∈ d.sourcePaths := by
  unfold Document.place at at_place
  induction names using List.reverseRecOn generalizing value with
  | nil =>
    obtain rfl : d.toSlot = value := Option.some.inj at_place
    exact mem
  | append_singleton names name ih =>
    rw [List.foldl_append] at at_place
    simp only [List.foldl_cons, List.foldl_nil, Place.down, Place.slots] at at_place
    split at at_place
    · rename_i slots above
      exact ih above (List.mem_append_right _ (Slots.mem_sourcePaths_of_lookup at_place mem))
    · cases at_place

/-- The source of a place is one of a path of the document. -/
theorem Document.exists_path_of_own {names : List Text} {source : Text}
    (mem : source ∈ (d.place resolve o names).own resolve o) :
    ∃ path ∈ d.sourcePaths, ∃ base mode, source = resolve path base mode := by
  unfold Place.own at mem
  split at mem
  · rename_i path value
    obtain ⟨base, mode, eq⟩ :=
      Engine.sourcePath_eq resolve o path (d.place resolve o names).around.getLast?
    refine ⟨path, sourcePaths_of_place value List.mem_cons_self, base, mode, ?_⟩
    rw [List.mem_singleton.mp mem, eq]
  · rename_i path slots value
    obtain ⟨base, mode, eq⟩ :=
      Engine.sourcePath_eq resolve o path (d.place resolve o names).around.getLast?
    refine ⟨path, sourcePaths_of_place value List.mem_cons_self, base, mode, ?_⟩
    rw [List.mem_singleton.mp mem, eq]
  · cases mem

/-- So are the sources around a place. -/
theorem Document.exists_path_of_around {names : List Text} {source : Text}
    (mem : source ∈ (d.place resolve o names).around) :
    ∃ path ∈ d.sourcePaths, ∃ base mode, source = resolve path base mode := by
  induction names using List.reverseRecOn with
  | nil => cases mem
  | append_singleton names name ih =>
    have above : (d.place resolve o (names ++ [name])).around =
        (d.place resolve o names).around ++ (d.place resolve o names).own resolve o := by
      unfold Document.place
      rw [List.foldl_append]
      rfl
    rw [above] at mem
    rcases List.mem_append.mp mem with mem | mem
    · exact ih mem
    · exact exists_path_of_own mem

end places

/-! ### Sources that are refused -/

/-- The problem with which a source is refused within the chain: it is in the chain
    already, or the chain has no room. -/
def Problem.Refuses (limit : Nat) (chain : List Text) (source : Text) (problem : Problem) : Prop :=
  problem = .cycle (chain.dropWhile (· != source)) source ∨
    limit ≤ chain.length ∧ problem = .depth chain (.whole limit) source

/-- A source in the chain may not join it once more. -/
theorem Tracker.push_of_mem {t : Tracker} {limit : Nat} (limit_eq : t.limit = .whole limit)
    {source : Text} (mem : source ∈ t.chain) :
    ∃ problem, t.push source = .error problem ∧ problem.Refuses limit t.chain source := by
  cases pushed : t.push source with
  | ok t' => exact absurd mem (Tracker.push_eq_ok.mp pushed).2.1
  | error problem =>
    refine ⟨problem, rfl, ?_⟩
    rcases Tracker.push_eq_error.mp pushed with ⟨reached, rfl⟩ | ⟨-, -, rfl⟩
    · rw [limit_eq, Limit.reached_whole, decide_eq_true_eq, Tracker.depth] at reached
      rw [limit_eq]
      exact .inr ⟨by omega, rfl⟩
    · exact .inl rfl

/-- A source that is refused is noted, and nothing else is asked for it. -/
theorem Engine.withSource_of_refused {rules : Rules} {source : Text} {here : Position}
    {problem : Problem} (refused : here.tracker.push source = .error problem) (inSlot : Bool)
    (use : Content → Position → Process) :
    ∃ outcome, withSource rules source here inSlot use = .note (.problem problem) (.done outcome) := by
  unfold withSource
  rw [refused]
  dsimp only
  split
  · exact ⟨_, rfl⟩
  · exact ⟨_, rfl⟩

/-- So for a slot value with a source that is around it. -/
theorem Whereabouts.At.outlet_of_mem {resolve : Resolver} {o : Options} {d : Document}
    {w : Whereabouts} {value : Option Slot} {here : Position} (at_value : w.At resolve o d value here)
    {source : Text} (own : (d.place resolve o w.outlets).own resolve o = [source])
    (mem : source ∈ w.tracker.chain) (name : Text) :
    ∃ problem outcome, problem.Refuses o.maxDepth w.tracker.chain source ∧
      Engine.outlet resolve o name value here = .note (.problem problem) (.done outcome) := by
  obtain ⟨problem, refused, refuses⟩ := Tracker.push_of_mem at_value.limit mem
  rw [← at_value.tracker] at refused
  rw [at_value.place] at own
  have source_eq (path : Text)
      (own : Engine.sourcePath resolve o path w.tracker.chain.getLast? = source) :
      Engine.sourcePath resolve o path here.document = source := by
    rw [at_value.document, own]
  unfold Place.own at own
  dsimp only at own
  split at own
  · rename_i path
    obtain ⟨outcome, eq⟩ := Engine.withSource_of_refused
      (source_eq path (List.singleton_inj.mp own) ▸ refused) true fun content _ => .content content
    refine ⟨problem, outcome, refuses, ?_⟩
    rw [Engine.outlet, Engine.slot]
    exact eq
  · rename_i path slots
    obtain ⟨outcome, eq⟩ := Engine.withSource_of_refused
      (source_eq path (List.singleton_inj.mp own) ▸ refused) true
      (Engine.fill (.ofOptions o) fun name => (Engine.slots resolve o slots).lookup (.text name))
    refine ⟨problem, outcome, refuses, ?_⟩
    rw [Engine.outlet, Engine.slot]
    exact eq
  · cases own

/-! ### One name for each document -/

/-- The path for which a request uses the cache. -/
def Request.cached? : Request → Option Text
  | .lookUp path | .remember path _ => some path
  | _ => none

/-- The path for which the cache is used is that of the source of the place. -/
theorem Place.Suits.own_of_cached {resolve : Resolver} {o : Options} {p : Place}
    {outlets chain : List Text} {request : Request} {path : Text}
    (suits : p.Suits resolve o outlets chain request) (cached : request.cached? = some path) :
    p.own resolve o = [path] := by
  unfold Request.cached? at cached
  split at cached
  · obtain rfl := Option.some.inj cached
    exact suits.1
  · obtain rfl := Option.some.inj cached
    exact suits.1
  · cases cached

/-- The compositions of a document from a source in files know each path by one text, among
    the sources with a property. -/
structure CanonicalSources (s : FileSource) (o : Options) (d : Document) (Counts : Text → Prop) :
    Prop where
  /-- What does not count is the source of an absolute path that has a step to the
      directory above. -/
  others : ∀ path ∈ d.sourcePaths, ∀ base mode, ¬ Counts (s.resolve path base mode) →
    ¬ s.Straight path
  /-- A source counts exactly if it is the text of the absolute and normal path that is
      meant, whatever it is relative to. -/
  canonical : ∀ path ∈ d.sourcePaths, ∀ base mode, Counts (s.resolve path base mode) ↔
    s.resolve path base mode = (s.meant path base mode).normal.toText
  /-- Two spellings give the same source if and only if they mean the same path. -/
  spellings : ∀ path ∈ d.sourcePaths, ∀ path' ∈ d.sourcePaths, ∀ base base' mode mode',
    Counts (s.resolve path base mode) → Counts (s.resolve path' base' mode') →
      (s.resolve path base mode = s.resolve path' base' mode' ↔
        (s.meant path base mode).normal = (s.meant path' base' mode').normal)
  /-- No two sources of a chain are the same path when they are normalised. -/
  chain : ∀ {es : List Process.Exchange} {request : Request} {next : request.Answer → Process},
    Process.Branch (Engine.document s.resolve o d) es (.ask request next) →
      (whereabouts o es).tracker.chain.Pairwise fun source source' =>
        Counts source → Counts source' → normalText source ≠ normalText source'
  /-- A branch that enters an outlet with a source which is the path of one around it,
      when normalised, notes a cycle or the limit, and leaves the outlet. -/
  refused : ∀ {es : List Process.Exchange} {name source outer : Text}
      {next : (Request.note (.opened name)).Answer → Process},
    Process.Branch (Engine.document s.resolve o d) es (.ask (.note (.opened name)) next) →
      let place := d.place s.resolve o ((whereabouts o es).outlets ++ [name])
      place.own s.resolve o = [source] → outer ∈ place.around → Counts source → Counts outer →
        normalText source = normalText outer →
          ∃ problem rest, problem.Refuses o.maxDepth place.around source ∧
            next () = .note (.problem problem) (.note (.closed name) rest)
  /-- The cache is used for the source of the place only, with one text for all
      spellings of its path. -/
  keys : ∀ {es fs : List Process.Exchange} {request request' : Request}
      {next : request.Answer → Process} {next' : request'.Answer → Process} {key key' : Text},
    Process.Branch (Engine.document s.resolve o d) es (.ask request next) →
    Process.Branch (Engine.document s.resolve o d) fs (.ask request' next') →
    request.cached? = some key → request'.cached? = some key' →
      (d.place s.resolve o (whereabouts o es).outlets).own s.resolve o = [key] ∧
        (Counts key → Counts key' → normalText key = normalText key' → key = key')

section canonical

variable {s : FileSource} {d : Document} (sound : s.IsSound) (o : Options)
include sound

theorem isCanonical_around {names : List Text} {source : Text}
    (mem : source ∈ (d.place s.resolve o names).around) (straight : IsStraight source) :
    IsCanonical source := by
  obtain ⟨path, -, base, mode, rfl⟩ := Document.exists_path_of_around mem
  exact FileSource.isCanonical_resolve sound straight

theorem isCanonical_own {names : List Text} {source : Text}
    (mem : source ∈ (d.place s.resolve o names).own s.resolve o) (straight : IsStraight source) :
    IsCanonical source := by
  obtain ⟨path, -, base, mode, rfl⟩ := Document.exists_path_of_own mem
  exact FileSource.isCanonical_resolve sound straight

end canonical

/-- A source in files, relative to a working directory. -/
def workFiles : FileSource where
  places := { cwd := .ofText "/w".toList, home := .ofText "/h".toList }

theorem workFiles_isSound : workFiles.IsSound where
  places :=
    { absolute := rfl
      cwd := isProper_ofText _
      homes := Places.hasProperHomes_of_alone rfl (isProper_ofText _) }
  directory dir none_given := by cases none_given

/-- A document whose slot is the document of another spelling of its own path. -/
def spelledAgain (path : Text) : Document where
  body := .source "t.md".toList
  slots := [(.text ['x'], .document (.source path) [])]

end MarkdownOutlets
