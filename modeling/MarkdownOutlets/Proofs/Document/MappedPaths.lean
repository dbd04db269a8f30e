import MarkdownOutlets.Proofs.Composition.SourcePaths
import MarkdownOutlets.Proofs.Document.WellFormed

/-! # The paths of a document, and nothing else

  The paths in a document are passed through a function when it has to be moved to
  another directory. This is done to documents that nobody has checked: a `Draft` is a
  document with a text and a source, with one of them, or with neither.

  The main statement, `mapPaths_paths_only`, says that this changes the paths, each one
  at its place, and nothing else. What comes out is the only draft of which this is
  true. It says the same of checked documents, which are those drafts that the check
  accepts, and that the check accepts what comes of them unless some path is empty then.
-/

namespace MarkdownOutlets

/-! ### Drafts -/

/-- A slot value that nobody has checked. Only for documents this makes a difference. -/
inductive Draft
  /-- A text, used as it is. -/
  | literal (t : Text)
  /-- The path of a source whose text is used as it is. -/
  | source (path : Text)
  /-- A function that produces the text. -/
  | callback (c : Callback)
  /-- A document, whose text and source may both be given, or neither. -/
  | document (text path : Option Text) (slots : List (Scalar × Draft))

namespace Draft

mutual

/-- The record of a draft. -/
def toValue : Draft → Value
  | .literal t => .literal (.text t)
  | .source path => .source (.text path)
  | .callback c => .callback (.callable c)
  | .document text path slots =>
    .document ((text.map Value.text).getD .null) ((path.map Value.text).getD .null)
      (.dict (toEntries slots))

/-- The records of drafts by name. -/
def toEntries : List (Scalar × Draft) → List (Scalar × Value)
  | [] => []
  | (name, draft) :: rest => (name, draft.toValue) :: toEntries rest

end

mutual

/-- A draft with every source path in it passed through a function. -/
def mapPaths (f : Text → Text) : Draft → Draft
  | .literal t => .literal t
  | .source path => .source (f path)
  | .callback c => .callback c
  | .document text path slots => .document text (path.map f) (mapPathsIn f slots)

/-- Drafts with every source path in them passed through a function. -/
def mapPathsIn (f : Text → Text) : List (Scalar × Draft) → List (Scalar × Draft)
  | [] => []
  | (name, draft) :: rest => (name, draft.mapPaths f) :: mapPathsIn f rest

end

mutual

/-- The source paths in a draft, that of a document before those in its slots. -/
def sourcePaths : Draft → List Text
  | .literal _ | .callback _ => []
  | .source path => [path]
  | .document _ path slots => path.toList ++ sourcePathsIn slots

/-- The source paths in drafts. -/
def sourcePathsIn : List (Scalar × Draft) → List Text
  | [] => []
  | (_, draft) :: rest => draft.sourcePaths ++ sourcePathsIn rest

end

mutual

/-- Two drafts are the same but for their paths: where one has a path, the other one
    has a path. -/
inductive Alike : Draft → Draft → Prop
  /-- The same text. -/
  | literal (t : Text) : Alike (.literal t) (.literal t)
  /-- Two paths. -/
  | source (path other : Text) : Alike (.source path) (.source other)
  /-- The same function. -/
  | callback (c : Callback) : Alike (.callback c) (.callback c)
  /-- Two documents with the same text, if they have one, both with a source or both
      without, and with slots that are the same but for their paths. -/
  | document (text : Option Text) {path other : Option Text} {slots others : List (Scalar × Draft)}
      (both : path.isSome = other.isSome) (each : AlikeIn slots others) :
      Alike (.document text path slots) (.document text other others)

/-- Drafts under the same names in the same order are the same but for their paths. -/
inductive AlikeIn : List (Scalar × Draft) → List (Scalar × Draft) → Prop
  /-- There are no more drafts. -/
  | nil : AlikeIn [] []
  /-- A draft, and what follows. -/
  | cons (name : Scalar) {draft other : Draft} {rest others : List (Scalar × Draft)}
      (first : Alike draft other) (each : AlikeIn rest others) :
      AlikeIn ((name, draft) :: rest) ((name, other) :: others)

end

/-! ### Paths passed through functions -/

mutual

theorem mapPaths_id : (draft : Draft) → draft.mapPaths id = draft
  | .literal _ | .source _ | .callback _ => rfl
  | .document _ path slots => by rw [mapPaths, Option.map_id, id, mapPathsIn_id slots]

theorem mapPathsIn_id : (drafts : List (Scalar × Draft)) → mapPathsIn id drafts = drafts
  | [] => rfl
  | (_, draft) :: rest => by rw [mapPathsIn, mapPaths_id draft, mapPathsIn_id rest]

end

section mapped

variable (f g : Text → Text)

mutual

theorem mapPaths_mapPaths : (draft : Draft) →
    (draft.mapPaths f).mapPaths g = draft.mapPaths (g ∘ f)
  | .literal _ | .source _ | .callback _ => rfl
  | .document _ path slots => by
    rw [mapPaths, mapPaths, mapPaths, Option.map_map, mapPathsIn_mapPathsIn slots]

theorem mapPathsIn_mapPathsIn : (drafts : List (Scalar × Draft)) →
    mapPathsIn g (mapPathsIn f drafts) = mapPathsIn (g ∘ f) drafts
  | [] => rfl
  | (_, draft) :: rest => by
    rw [mapPathsIn, mapPathsIn, mapPathsIn, mapPaths_mapPaths draft, mapPathsIn_mapPathsIn rest]

end

mutual

theorem sourcePaths_mapPaths : (draft : Draft) →
    (draft.mapPaths f).sourcePaths = draft.sourcePaths.map f
  | .literal _ | .source _ | .callback _ => rfl
  | .document _ path slots => by
    rw [mapPaths, sourcePaths, sourcePaths, List.map_append, Option.toList_map,
      sourcePathsIn_mapPathsIn slots]

theorem sourcePathsIn_mapPathsIn : (drafts : List (Scalar × Draft)) →
    sourcePathsIn (mapPathsIn f drafts) = (sourcePathsIn drafts).map f
  | [] => rfl
  | (_, draft) :: rest => by
    rw [mapPathsIn, sourcePathsIn, sourcePathsIn, List.map_append, sourcePaths_mapPaths draft,
      sourcePathsIn_mapPathsIn rest]

end

mutual

theorem alike_mapPaths : (draft : Draft) → Alike draft (draft.mapPaths f)
  | .literal t => by
    rw [mapPaths]
    exact .literal t
  | .source path => by
    rw [mapPaths]
    exact .source path (f path)
  | .callback c => by
    rw [mapPaths]
    exact .callback c
  | .document text path slots => by
    rw [mapPaths]
    exact .document text Option.isSome_map.symm (alikeIn_mapPathsIn slots)

theorem alikeIn_mapPathsIn : (drafts : List (Scalar × Draft)) →
    AlikeIn drafts (mapPathsIn f drafts)
  | [] => by
    rw [mapPathsIn]
    exact .nil
  | (name, draft) :: rest => by
    rw [mapPathsIn]
    exact .cons name (alike_mapPaths draft) (alikeIn_mapPathsIn rest)

end

end mapped

/-! ### What the paths leave open -/

section alike

/-- The sources of two documents count alike if both have one or none. -/
theorem length_toList_eq {path other : Option Text} (both : path.isSome = other.isSome) :
    path.toList.length = other.toList.length := by
  cases path <;> cases other <;> simp_all

mutual

/-- Drafts that are the same but for their paths have as many of them. -/
theorem Alike.length_sourcePaths : {draft other : Draft} → Alike draft other →
    draft.sourcePaths.length = other.sourcePaths.length
  | _, _, .literal _ | _, _, .callback _ | _, _, .source _ _ => rfl
  | _, _, .document _ both each => by
    rw [sourcePaths, sourcePaths, List.length_append, List.length_append, length_toList_eq both,
      AlikeIn.length_sourcePathsIn each]

theorem AlikeIn.length_sourcePathsIn : {drafts others : List (Scalar × Draft)} →
    AlikeIn drafts others → (sourcePathsIn drafts).length = (sourcePathsIn others).length
  | _, _, .nil => rfl
  | _, _, .cons _ first each => by
    rw [sourcePathsIn, sourcePathsIn, List.length_append, List.length_append,
      Alike.length_sourcePaths first, AlikeIn.length_sourcePathsIn each]

end

variable {f : Text → Text}

mutual

/-- A draft that is the same but for its paths, which are those passed through the function,
    is what comes of it. -/
theorem Alike.eq_mapPaths : {draft other : Draft} → Alike draft other →
    other.sourcePaths = draft.sourcePaths.map f → other = draft.mapPaths f
  | _, _, .literal _, _ | _, _, .callback _, _ => rfl
  | _, _, .source path other, paths => by
    rw [sourcePaths, sourcePaths] at paths
    rw [mapPaths, List.singleton_inj.mp paths]
  | .document _ path slots, .document _ other others, .document _ both each, paths => by
    rw [sourcePaths, sourcePaths, List.map_append] at paths
    have own : other.toList.length = (path.toList.map f).length := by
      rw [List.length_map, length_toList_eq both]
    -- the own path of the document is in front of those in its slots, in both lists
    obtain ⟨own_path, slot_paths⟩ := List.append_inj paths own
    have same_own : other = path.map f := by
      rw [← Option.toList_map] at own_path
      simpa using congrArg List.head? own_path
    rw [mapPaths, same_own, AlikeIn.eq_mapPathsIn each slot_paths]

theorem AlikeIn.eq_mapPathsIn : {drafts others : List (Scalar × Draft)} → AlikeIn drafts others →
    sourcePathsIn others = (sourcePathsIn drafts).map f → others = mapPathsIn f drafts
  | _, _, .nil, _ => rfl
  | _, _, .cons _ first each, paths => by
    rw [sourcePathsIn, sourcePathsIn, List.map_append] at paths
    have as_many := (List.length_map f).trans first.length_sourcePaths
    obtain ⟨first_paths, rest_paths⟩ := List.append_inj paths as_many.symm
    rw [mapPathsIn, Alike.eq_mapPaths first first_paths, AlikeIn.eq_mapPathsIn each rest_paths]

end

theorem eq_mapPaths_iff {draft other : Draft} : other = draft.mapPaths f ↔
    Alike draft other ∧ other.sourcePaths = draft.sourcePaths.map f := by
  constructor
  · intro same
    rw [same]
    exact ⟨alike_mapPaths f draft, sourcePaths_mapPaths f draft⟩
  · intro ⟨alike, paths⟩
    exact alike.eq_mapPaths paths

end alike

end Draft

/-! ### Documents -/

/-- The text of a body, if it is one. -/
def Body.text? : Body → Option Text
  | .text t => some t
  | .source _ => none

/-- The path of the source of a body, if it has one. -/
def Body.path? : Body → Option Text
  | .text _ => none
  | .source path => some path

mutual

/-- A slot value as a draft. -/
def Slot.toDraft : Slot → Draft
  | .literal t => .literal t
  | .source path => .source path
  | .callback c => .callback c
  | .document body slots => .document body.text? body.path? (Slots.toDrafts slots)

/-- Slot values as drafts. -/
def Slots.toDrafts : List (Scalar × Slot) → List (Scalar × Draft)
  | [] => []
  | (name, slot) :: rest => (name, slot.toDraft) :: Slots.toDrafts rest

end

/-- A document as a draft. -/
def Document.toDraft (d : Document) : Draft := d.toSlot.toDraft

/-! The paths in the draft are those in the document, and they are passed through a function
  in the same way. -/

section documents

theorem Body.toList_path? (body : Body) : body.path?.toList = body.sourcePaths := by
  cases body <;> rfl

mutual

theorem Slot.sourcePaths_toDraft : (slot : Slot) → slot.toDraft.sourcePaths = slot.sourcePaths
  | .literal _ | .callback _ | .source _ => rfl
  | .document body slots => by
    rw [Slot.toDraft, Draft.sourcePaths, Slot.sourcePaths, body.toList_path?,
      Slots.sourcePathsIn_toDrafts slots]

theorem Slots.sourcePathsIn_toDrafts : (slots : List (Scalar × Slot)) →
    Draft.sourcePathsIn (Slots.toDrafts slots) = Slots.sourcePaths slots
  | [] => rfl
  | (_, slot) :: rest => by
    rw [Slots.toDrafts, Draft.sourcePathsIn, Slots.sourcePaths, Slot.sourcePaths_toDraft slot,
      Slots.sourcePathsIn_toDrafts rest]

end

variable (f g : Text → Text)

theorem Body.text?_mapPath (body : Body) : (body.mapPath f).text? = body.text? := by
  cases body <;> rfl

theorem Body.path?_mapPath (body : Body) : (body.mapPath f).path? = body.path?.map f := by
  cases body <;> rfl

mutual

theorem Slot.toDraft_mapPaths : (slot : Slot) →
    (slot.mapPaths f).toDraft = slot.toDraft.mapPaths f
  | .literal _ | .callback _ | .source _ => rfl
  | .document body slots => by
    rw [Slot.mapPaths, Slot.toDraft, Slot.toDraft, Draft.mapPaths, body.text?_mapPath,
      body.path?_mapPath,
      Slots.toDrafts_mapPaths slots]

theorem Slots.toDrafts_mapPaths : (slots : List (Scalar × Slot)) →
    Slots.toDrafts (Slots.mapPaths f slots) = Draft.mapPathsIn f (Slots.toDrafts slots)
  | [] => rfl
  | (_, slot) :: rest => by
    rw [Slots.mapPaths, Slots.toDrafts, Slots.toDrafts, Draft.mapPathsIn,
      Slot.toDraft_mapPaths slot, Slots.toDrafts_mapPaths rest]

end

theorem Body.mapPath_mapPath (body : Body) :
    (body.mapPath f).mapPath g = body.mapPath (g ∘ f) := by
  cases body <;> rfl

mutual

theorem Slot.mapPaths_mapPaths : (slot : Slot) →
    (slot.mapPaths f).mapPaths g = slot.mapPaths (g ∘ f)
  | .literal _ | .callback _ | .source _ => rfl
  | .document body slots => by
    rw [Slot.mapPaths, Slot.mapPaths, Slot.mapPaths, body.mapPath_mapPath,
      Slots.mapPaths_mapPaths slots]

theorem Slots.mapPaths_mapPaths : (slots : List (Scalar × Slot)) →
    Slots.mapPaths g (Slots.mapPaths f slots) = Slots.mapPaths (g ∘ f) slots
  | [] => rfl
  | (_, slot) :: rest => by
    rw [Slots.mapPaths, Slots.mapPaths, Slots.mapPaths, Slot.mapPaths_mapPaths slot,
      Slots.mapPaths_mapPaths rest]

end

namespace Document

variable (d : Document)

theorem mapPaths_mapPaths : (d.mapPaths f).mapPaths g = d.mapPaths (g ∘ f) := by
  rw [mapPaths, mapPaths, mapPaths, d.body.mapPath_mapPath, Slots.mapPaths_mapPaths]

theorem sourcePaths_mapPaths : (d.mapPaths f).sourcePaths = d.sourcePaths.map f :=
  Slot.sourcePaths_mapPaths f d.toSlot

theorem sourcePaths_toDraft : d.toDraft.sourcePaths = d.sourcePaths :=
  Slot.sourcePaths_toDraft d.toSlot

theorem toDraft_mapPaths : (d.mapPaths f).toDraft = d.toDraft.mapPaths f :=
  Slot.toDraft_mapPaths f d.toSlot

end Document

end documents

/-! ### The check of drafts -/

namespace Document

theorem bodyOf_iff {text path : Option Text} {body : Body} :
    BodyOf ((text.map Value.text).getD .null) ((path.map Value.text).getD .null) body ↔
      text = body.text? ∧ path = body.path? ∧ ∀ own ∈ body.sourcePaths, own ≠ [] := by
  constructor
  · intro body_of
    cases text with
    | none =>
      cases path with
      | none => cases body_of
      | some path =>
        cases body_of with
        | source nonempty => exact ⟨rfl, rfl, by simpa [Body.sourcePaths] using nonempty⟩
    | some t =>
      cases path with
      | none =>
        cases body_of with
        | text => exact ⟨rfl, rfl, by simp [Body.sourcePaths]⟩
      | some path => cases body_of
  · rintro ⟨same_text, same_path, nonempty⟩
    rw [same_text, same_path]
    cases body with
    | text t => exact .text t
    | source path => exact .source (nonempty path List.mem_cons_self)

mutual

/-- The record of a draft is that of a slot exactly if it is the draft of the slot, and has
    no empty path. -/
theorem recordOf_toValue_iff : (draft : Draft) → {slot : Slot} →
    (RecordOf draft.toValue slot ↔
      draft = slot.toDraft ∧ ∀ path ∈ slot.sourcePaths, path ≠ [])
  | .literal t, slot => by
    rw [Draft.toValue]
    constructor
    · intro record_of
      cases record_of
      exact ⟨rfl, by simp [Slot.sourcePaths]⟩
    · intro ⟨same, _⟩
      cases slot <;> cases same
      exact .literal t
  | .source path, slot => by
    rw [Draft.toValue]
    constructor
    · intro record_of
      cases record_of with
      | source nonempty => exact ⟨rfl, by simpa [Slot.sourcePaths] using nonempty⟩
    · intro ⟨same, nonempty⟩
      cases slot <;> cases same
      exact .source (nonempty path List.mem_cons_self)
  | .callback c, slot => by
    rw [Draft.toValue]
    constructor
    · intro record_of
      cases record_of
      exact ⟨rfl, by simp [Slot.sourcePaths]⟩
    · intro ⟨same, _⟩
      cases slot <;> cases same
      exact .callback c
  | .document text path drafts, slot => by
    rw [Draft.toValue]
    constructor
    · intro record_of
      cases record_of with
      | document body_of mapping each =>
        cases mapping
        obtain ⟨rfl, rfl, own_nonempty⟩ := bodyOf_iff.mp body_of
        obtain ⟨rfl, nonempty⟩ := (recordsOf_toEntries_iff drafts).mp each
        refine ⟨rfl, ?_⟩
        intro path mem
        rcases List.mem_append.mp mem with mem | mem
        · exact own_nonempty path mem
        · exact nonempty path mem
    · intro ⟨same, nonempty⟩
      cases slot with
      | document body slots =>
        cases same
        refine .document (bodyOf_iff.mpr ⟨rfl, rfl, ?_⟩) rfl
          ((recordsOf_toEntries_iff _).mpr ⟨rfl, ?_⟩)
        · exact fun path mem => nonempty path (List.mem_append_left _ mem)
        · exact fun path mem => nonempty path (List.mem_append_right _ mem)
      | _ => cases same

theorem recordsOf_toEntries_iff : (drafts : List (Scalar × Draft)) →
    {slots : List (Scalar × Slot)} → (RecordsOf (Draft.toEntries drafts) slots ↔
      drafts = Slots.toDrafts slots ∧ ∀ path ∈ Slots.sourcePaths slots, path ≠ [])
  | [], slots => by
    rw [Draft.toEntries]
    constructor
    · intro each
      cases each
      exact ⟨rfl, by simp [Slots.sourcePaths]⟩
    · intro ⟨same, _⟩
      cases slots <;> cases same
      exact .nil
  | (name, draft) :: rest, slots => by
    rw [Draft.toEntries]
    constructor
    · intro each
      cases each with
      | cons _ first each =>
        obtain ⟨rfl, first_nonempty⟩ := (recordOf_toValue_iff draft).mp first
        obtain ⟨rfl, nonempty⟩ := (recordsOf_toEntries_iff rest).mp each
        refine ⟨rfl, ?_⟩
        intro path mem
        rcases List.mem_append.mp mem with mem | mem
        · exact first_nonempty path mem
        · exact nonempty path mem
    · intro ⟨same, nonempty⟩
      cases slots with
      | nil => cases same
      | cons entry slots =>
        cases same
        refine .cons _ ((recordOf_toValue_iff _).mpr ⟨rfl, ?_⟩)
          ((recordsOf_toEntries_iff _).mpr ⟨rfl, ?_⟩)
        · exact fun path mem => nonempty path (List.mem_append_left _ mem)
        · exact fun path mem => nonempty path (List.mem_append_right _ mem)

end

/-- A draft is accepted exactly if it is the draft of the document, and has no empty path. -/
theorem checkAt_toValue_iff {place : Text} {draft : Draft} {d : Document} :
    checkAt place draft.toValue = .ok d ↔
      draft = d.toDraft ∧ ∀ path ∈ d.sourcePaths, path ≠ [] := by
  have stays : recordAt place draft.toValue = .ok draft.toValue := by
    cases draft <;> rfl
  rw [checkAt_eq, stays]
  exact ofFields_iff.trans (recordOf_toValue_iff draft)

end Document

/-! ### Paths only -/

/-- What is true of a draft whose paths are passed through functions. -/
structure Draft.PathsOnly (draft : Draft) : Prop where
  /-- Nothing changes if no path does. -/
  same : draft.mapPaths id = draft
  /-- Two functions one after the other are one function. -/
  twice : ∀ f g, (draft.mapPaths f).mapPaths g = draft.mapPaths (g ∘ f)
  /-- The paths, in their order, are those passed through the function, and all else is as it
      was. Nothing but what comes of the draft is like this. -/
  only : ∀ f other, other = draft.mapPaths f ↔
    Draft.Alike draft other ∧ other.sourcePaths = draft.sourcePaths.map f
  /-- If the draft is accepted as a document, what comes of it is accepted as what comes of
      the document, unless some path is empty then. -/
  accepted : ∀ place d, Document.checkAt place draft.toValue = .ok d → ∀ f,
    Document.checkAt place (draft.mapPaths f).toValue = .ok (d.mapPaths f) ↔
      ∀ path ∈ draft.sourcePaths, f path ≠ []

/-- What is true of a document whose paths are passed through functions. -/
structure Document.PathsOnly (d : Document) : Prop where
  /-- Nothing changes if no path does. -/
  same : d.mapPaths id = d
  /-- Two functions one after the other are one function. -/
  twice : ∀ f g, (d.mapPaths f).mapPaths g = d.mapPaths (g ∘ f)
  /-- The paths, in their order, are those passed through the function. -/
  paths : ∀ f, (d.mapPaths f).sourcePaths = d.sourcePaths.map f
  /-- It is done to the document as to its draft. -/
  draft : ∀ f, (d.mapPaths f).toDraft = d.toDraft.mapPaths f
  /-- Only the draft of the document is accepted as the document, and it has its paths. -/
  accepted : ∀ place (draft : Draft), Document.checkAt place draft.toValue = .ok d →
    draft = d.toDraft ∧ draft.sourcePaths = d.sourcePaths

/-- To pass paths through a function changes the paths of a draft, and of a document, and
    nothing else. -/
theorem mapPaths_paths_only : (∀ draft : Draft, draft.PathsOnly) ∧ ∀ d : Document, d.PathsOnly := by
  constructor
  · intro draft
    constructor
    case same => exact draft.mapPaths_id
    case twice => exact fun f g => draft.mapPaths_mapPaths f g
    case only => exact fun f other => Draft.eq_mapPaths_iff
    case accepted =>
      intro place d accepted f
      -- the draft is that of the document, and so is what comes of it
      obtain ⟨rfl, -⟩ := Document.checkAt_toValue_iff.mp accepted
      rw [Document.checkAt_toValue_iff, d.toDraft_mapPaths, d.sourcePaths_mapPaths,
        d.sourcePaths_toDraft]
      simp
  · intro d
    constructor
    case same => exact d.mapPaths_id
    case twice => exact fun f g => d.mapPaths_mapPaths f g
    case paths => exact fun f => d.sourcePaths_mapPaths f
    case draft => exact fun f => d.toDraft_mapPaths f
    case accepted =>
      intro place draft accepted
      obtain ⟨rfl, -⟩ := Document.checkAt_toValue_iff.mp accepted
      exact ⟨rfl, d.sourcePaths_toDraft⟩

end MarkdownOutlets
