import Mathlib.Data.List.Nodup
import MarkdownOutlets.Proofs.Composition.ActiveChain
import MarkdownOutlets.Proofs.Composition.EngineAccount

/-! # Live slots

  A composition reaches some places of the tree of documents: the outermost
  document, and from a document whose text is obtained the slot values of the
  outlets in this text. The slot values that are reached are live. Which they
  are is settled by the texts that are seen and by the limit of the chain.

  `Setting.Covers` is about lists of all places that are reached at or below
  some place. Its rules follow the tree: the places below a text are those of
  its outlets, each name once (`Setting.covers_outlets`).
-/

namespace MarkdownOutlets

/-! ### Sources of a tree -/

mutual

/-- The places of a slot value at which there is a source, each given by the keys
    that lead to it. -/
def Slot.sourcePlaces : Slot → List (List Scalar)
  | .literal _ | .callback _ => []
  | .source _ => [[]]
  | .document (.text _) slots => Slots.sourcePlaces slots
  | .document (.source _) slots => [] :: Slots.sourcePlaces slots

/-- The places of slot values at which there is a source. -/
def Slots.sourcePlaces : List (Scalar × Slot) → List (List Scalar)
  | [] => []
  | (key, value) :: rest => value.sourcePlaces.map (key :: ·) ++ Slots.sourcePlaces rest

end

/-- The places below the value of a key are among those of all slot values. -/
theorem Slots.mem_sourcePlaces_of_lookup {slots : List (Scalar × Slot)} {key : Scalar} {value : Slot}
    (found : slots.lookup key = some value) {keys : List Scalar} (mem : keys ∈ value.sourcePlaces) :
    key :: keys ∈ Slots.sourcePlaces slots := by
  induction slots with
  | nil => simp at found
  | cons entry rest ih =>
    obtain ⟨first_key, first⟩ := entry
    rw [Slots.sourcePlaces, List.mem_append]
    rw [List.lookup_cons] at found
    by_cases same : key == first_key
    · simp only [same, Option.some.injEq] at found
      rw [eq_of_beq same, found]
      exact .inl (List.mem_map_of_mem mem)
    · simp only [same] at found
      exact .inr (ih found)

theorem Slot.mem_sourcePlaces_document (body : Body) {slots : List (Scalar × Slot)}
    {keys : List Scalar} (mem : keys ∈ Slots.sourcePlaces slots) :
    keys ∈ (Slot.document body slots).sourcePlaces := by
  cases body with
  | text t => exact mem
  | source path => exact List.mem_cons_of_mem _ mem

namespace Place

variable {resolve : Resolver} {o : Options}

/-- The path of the source at a place, if any. -/
def source? (resolve : Resolver) (o : Options) (p : Place) : Option Text := (p.own resolve o).head?

/-- A place with a source has a slot value that is one, or a document of one. -/
theorem exists_value_of_source {p : Place} (present : (p.source? resolve o).isSome) :
    ∃ value, p.value = some value ∧ [] ∈ value.sourcePlaces := by
  unfold source? Place.own at present
  split at present
  · exact ⟨_, ‹_›, by simp [Slot.sourcePlaces]⟩
  · exact ⟨_, ‹_›, by simp [Slot.sourcePlaces]⟩
  · simp at present

/-- A place with a source is one of the tree's. -/
theorem mem_sourcePlaces {names : List Text} {p : Place}
    (present : ((names.foldl (Place.down resolve o) p).source? resolve o).isSome) :
    ∃ value, p.value = some value ∧ names.map .text ∈ value.sourcePlaces := by
  induction names generalizing p with
  | nil => exact exists_value_of_source present
  | cons name names ih =>
    obtain ⟨below, found, mem⟩ := ih present
    simp only [Place.down, Place.slots] at found
    split at found
    · exact ⟨_, ‹_›, Slot.mem_sourcePlaces_document _ (Slots.mem_sourcePlaces_of_lookup found mem)⟩
    · simp at found

end Place

/-! ### Places that are reached -/

/-- The function at a place, if any. -/
def Place.function? (p : Place) : Option Callback :=
  match p.value with
  | some (.callback c) => some c
  | _ => none

namespace Setting

variable (x : Setting) (d : Document)

/-- The place that is reached through outlets of the given names. -/
abbrev place (names : List Text) : Place := d.place x.host.resolve x.options names

/-- The text of the document at a place is obtained. -/
inductive Obtains (p : Place) : Text → Prop
  /-- It is given. -/
  | given {t : Text} {slots : List (Scalar × Slot)}
      (value : p.value = some (.document (.text t) slots)) : Obtains p t
  /-- It is that of a source which may join the chain, and is found in the cache
      or read. -/
  | seen {path source t : Text} {slots : List (Scalar × Slot)}
      (value : p.value = some (.document (.source path) slots))
      (own : p.own x.host.resolve x.options = [source]) (not_around : source ∉ p.around)
      (room : p.around.length < x.options.maxDepth)
      (view : x.view source = .ok (some (.text t))) : Obtains p t

/-- The place is the outermost document, or that of a slot value whose outlet
    occurs in the text of a place that is reached. -/
inductive Reached : List Text → Prop
  /-- The outermost document. -/
  | root : Reached []
  /-- A slot value. -/
  | slot {owner : List Text} {t name : Text} {value : Slot} (reached : Reached owner)
      (obtains : x.Obtains (x.place d owner) t) (outlet : name ∈ (Template.ofText t).names)
      (value : (x.place d (owner ++ [name])).value = some value) : Reached (owner ++ [name])

/-- A slot value is live if it is reached. -/
def Live (names : List Text) : Prop := names ≠ [] ∧ x.Reached d names

variable {x d}

/-- A place has one text at most. -/
theorem Obtains.unique {p : Place} {t u : Text} (first : x.Obtains p t) (second : x.Obtains p u) :
    t = u := by
  cases first with
  | given value =>
    cases second with
    | given value' => simp_all
    | seen value' => simp_all
  | seen value own _ _ view =>
    cases second with
    | given value' => simp_all
    | seen value' own' _ _ view' => simp_all

/-- The places on the way to one that is reached are reached. -/
theorem Reached.of_prefix {above names : List Text} (reached : x.Reached d names)
    (before : above <+: names) : x.Reached d above := by
  induction reached with
  | root => exact List.prefix_nil.mp before ▸ .root
  | slot reached obtains outlet value ih =>
    rcases List.prefix_concat_iff.mp before with rfl | before
    · exact .slot reached obtains outlet value
    · exact ih before

/-- There is a slot value at every place that is reached. -/
theorem Reached.value_isSome {names : List Text} (reached : x.Reached d names) :
    (x.place d names).value.isSome := by
  cases reached with
  | root => rfl
  | slot _ _ _ value => rw [value]; rfl

/-- The way to a place leads through an outlet of each text above. -/
theorem Reached.exists_outlet {above names : List Text} (reached : x.Reached d names)
    (before : above <+: names) (ne : names ≠ above) :
    ∃ t name, x.Obtains (x.place d above) t ∧ name ∈ (Template.ofText t).names ∧
      above ++ [name] <+: names := by
  induction reached with
  | root => exact absurd (List.prefix_nil.mp before).symm ne
  | @slot owner t name _ _ obtains outlet _ ih =>
    rcases List.prefix_concat_iff.mp before with eq | before
    · exact absurd eq.symm ne
    · by_cases same : owner = above
      · subst same
        exact ⟨t, name, obtains, outlet, List.prefix_refl _⟩
      · obtain ⟨u, first, obtains, outlet, further⟩ := ih before same
        exact ⟨u, first, obtains, outlet, further.trans (List.prefix_append _ _)⟩

/-! ### All places that are reached -/

variable (x d)

/-- The list holds each place once that is reached at or below the given one. -/
structure Covers (above : List Text) (places : List (List Text)) : Prop where
  /-- None is listed twice. -/
  nodup : places.Nodup
  /-- They are those that are reached. -/
  mem : ∀ names, names ∈ places ↔ above <+: names ∧ x.Reached d names

variable {x d}

/-- A place without a text is the only one. -/
theorem covers_leaf {above : List Text} (reached : x.Reached d above)
    (no_text : ∀ t, ¬ x.Obtains (x.place d above) t) : x.Covers d above [above] where
  nodup := by simp
  mem := by
    intro names
    rw [List.mem_singleton]
    constructor
    · rintro rfl
      exact ⟨List.prefix_refl _, reached⟩
    · rintro ⟨before, reached⟩
      by_contra ne
      obtain ⟨t, -, obtains, -⟩ := reached.exists_outlet before ne
      exact no_text t obtains

/-- There is nothing below an outlet without a slot value. -/
theorem covers_missing {above : List Text} (missing : (x.place d above).value = none) :
    x.Covers d above [] where
  nodup := List.nodup_nil
  mem := by
    intro names
    simp only [List.not_mem_nil, false_iff, not_and]
    intro before reached
    simpa [missing] using (reached.of_prefix before).value_isSome

/-- The places below a text are those of its outlets. -/
theorem covers_outlets {above : List Text} {t : Text} (reached : x.Reached d above)
    (obtains : x.Obtains (x.place d above) t) {below : Text → List (List Text)}
    (each : ∀ name ∈ (Template.ofText t).names, x.Covers d (above ++ [name]) (below name)) :
    x.Covers d above (above :: (Template.ofText t).names.flatMap below) where
  nodup := by
    rw [List.nodup_cons, List.nodup_flatMap]
    refine ⟨fun mem => ?_, fun name outlet => (each name outlet).nodup, ?_⟩
    · -- A place is not below itself.
      obtain ⟨name, outlet, mem⟩ := List.mem_flatMap.mp mem
      obtain ⟨before, -⟩ := ((each name outlet).mem above).mp mem
      have length := before.length_le
      rw [List.length_append, List.length_singleton] at length
      omega
    · refine (nodup_distinct _).imp_of_mem fun {first second} outlet outlet' ne => ?_
      intro names mem mem'
      obtain ⟨before, -⟩ := ((each first outlet).mem names).mp mem
      obtain ⟨before', -⟩ := ((each second outlet').mem names).mp mem'
      have same := List.prefix_of_prefix_length_le before before' (by simp)
      exact ne (by simpa using same.eq_of_length (by simp))
  mem := by
    intro names
    rw [List.mem_cons, List.mem_flatMap]
    constructor
    · rintro (rfl | ⟨name, outlet, mem⟩)
      · exact ⟨List.prefix_refl _, reached⟩
      · obtain ⟨before, reached⟩ := ((each name outlet).mem names).mp mem
        exact ⟨(List.prefix_append _ _).trans before, reached⟩
    · rintro ⟨before, reached⟩
      by_cases same : names = above
      · exact .inl same
      · obtain ⟨u, name, obtains', outlet, further⟩ := reached.exists_outlet before same
        obtain rfl := obtains.unique obtains'
        exact .inr ⟨name, outlet, ((each name outlet).mem names).mpr ⟨further, reached⟩⟩

end Setting

end MarkdownOutlets
