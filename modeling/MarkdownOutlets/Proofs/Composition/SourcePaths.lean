import MarkdownOutlets.Composition.Engine

/-! # Source paths

  The source paths of a document are those of its body and of all slot values
  in it, in the order in which they are written. To pass paths through a
  function changes them and nothing else.

  A composition knows a path only by the source that the resolver makes of it
  at its place. The main statement, `Engine.document_mapPaths`, says that two
  documents, of which one has the paths of the other passed through a function,
  have the same process when each path means the same source in both.
-/

namespace MarkdownOutlets

/-! ### The paths of a document -/

/-- The path of a body, if it has one. -/
def Body.sourcePaths : Body → List Text
  | .text _ => []
  | .source path => [path]

mutual

/-- The source paths in a slot value. -/
def Slot.sourcePaths : Slot → List Text
  | .literal _ | .callback _ => []
  | .source path => [path]
  | .document body slots => body.sourcePaths ++ Slots.sourcePaths slots

/-- The source paths in slot values. -/
def Slots.sourcePaths : List (Scalar × Slot) → List Text
  | [] => []
  | (_, slot) :: rest => slot.sourcePaths ++ Slots.sourcePaths rest

end

/-- The source paths in a document. -/
def Document.sourcePaths (d : Document) : List Text :=
  d.body.sourcePaths ++ Slots.sourcePaths d.slots

namespace Slots

theorem mem_sourcePaths {slots : Slots} {path : Text} :
    path ∈ sourcePaths slots ↔ ∃ entry ∈ slots, path ∈ entry.2.sourcePaths := by
  induction slots with
  | nil => simp [sourcePaths]
  | cons entry rest ih =>
    obtain ⟨name, slot⟩ := entry
    rw [sourcePaths, List.mem_append, ih]
    simp

/-- The paths in the value of a name are among those of all values. -/
theorem mem_sourcePaths_of_lookup {slots : Slots} {name : Scalar} {value : Slot}
    (found : slots.lookup name = some value) {path : Text} (mem : path ∈ value.sourcePaths) :
    path ∈ sourcePaths slots := by
  induction slots with
  | nil => cases found
  | cons entry rest ih =>
    obtain ⟨key, first⟩ := entry
    rw [sourcePaths, List.mem_append]
    rw [List.lookup_cons] at found
    by_cases same : name == key
    · simp only [same, Option.some.injEq] at found
      exact .inl (found ▸ mem)
    · simp only [same] at found
      exact .inr (ih found)

/-- A path after a value was given to a name was there before, or is one of the
    value. -/
theorem mem_sourcePaths_put {slots : Slots} {name : Scalar} {value : Slot} {path : Text}
    (mem : path ∈ sourcePaths (slots.put name value)) :
    path ∈ sourcePaths slots ∨ path ∈ value.sourcePaths := by
  induction slots with
  | nil =>
    rw [put, sourcePaths, List.mem_append] at mem
    exact mem.symm
  | cons entry rest ih =>
    obtain ⟨key, first⟩ := entry
    rw [put] at mem
    rw [sourcePaths, List.mem_append]
    split at mem
    · rw [sourcePaths, List.mem_append] at mem
      rcases mem with mem | mem
      · exact .inr mem
      · exact .inl (.inr mem)
    · rw [sourcePaths, List.mem_append] at mem
      rcases mem with mem | mem
      · exact .inl (.inl mem)
      · rcases ih mem with mem | mem
        · exact .inl (.inr mem)
        · exact .inr mem

/-- A path in slots that were put over others is one of them. -/
theorem mem_sourcePaths_overlay {slots top : Slots} {path : Text}
    (mem : path ∈ sourcePaths (slots.overlay top)) :
    path ∈ sourcePaths slots ∨ path ∈ sourcePaths top := by
  unfold overlay at mem
  induction top generalizing slots with
  | nil => exact .inl mem
  | cons entry rest ih =>
    obtain ⟨name, value⟩ := entry
    rw [sourcePaths, List.mem_append]
    rcases ih mem with mem | mem
    · rcases mem_sourcePaths_put mem with mem | mem
      · exact .inl mem
      · exact .inr (.inl mem)
    · exact .inr (.inr mem)

end Slots

/-! ### Paths passed through a function -/

section mapped

variable (f : Text → Text)

theorem Body.sourcePaths_mapPath (body : Body) :
    (body.mapPath f).sourcePaths = body.sourcePaths.map f := by
  cases body <;> rfl

mutual

theorem Slot.sourcePaths_mapPaths : (slot : Slot) →
    (slot.mapPaths f).sourcePaths = slot.sourcePaths.map f
  | .literal t => rfl
  | .callback c => rfl
  | .source path => rfl
  | .document body slots => by
    rw [Slot.mapPaths, Slot.sourcePaths, Slot.sourcePaths, List.map_append,
      Body.sourcePaths_mapPath, Slots.sourcePaths_mapPaths slots]

theorem Slots.sourcePaths_mapPaths : (slots : List (Scalar × Slot)) →
    Slots.sourcePaths (Slots.mapPaths f slots) = (Slots.sourcePaths slots).map f
  | [] => rfl
  | (_, slot) :: rest => by
    rw [Slots.mapPaths, Slots.sourcePaths, Slots.sourcePaths, List.map_append,
      Slot.sourcePaths_mapPaths slot, Slots.sourcePaths_mapPaths rest]

end

/-- The value of a name has its paths passed through the function. -/
theorem Slots.lookup_mapPaths (slots : Slots) (name : Scalar) :
    (Slots.mapPaths f slots).lookup name = (slots.lookup name).map (Slot.mapPaths f) := by
  induction slots with
  | nil => rfl
  | cons entry rest ih =>
    obtain ⟨key, value⟩ := entry
    by_cases same : name == key <;> simp [Slots.mapPaths, List.lookup_cons, same, ih]

end mapped

theorem Body.mapPath_id (body : Body) : body.mapPath id = body := by
  cases body <;> rfl

mutual

theorem Slot.mapPaths_id : (slot : Slot) → slot.mapPaths id = slot
  | .literal t => rfl
  | .callback c => rfl
  | .source path => rfl
  | .document body slots => by rw [Slot.mapPaths, Body.mapPath_id, Slots.mapPaths_id slots]

theorem Slots.mapPaths_id : (slots : List (Scalar × Slot)) → Slots.mapPaths id slots = slots
  | [] => rfl
  | (_, slot) :: rest => by rw [Slots.mapPaths, Slot.mapPaths_id slot, Slots.mapPaths_id rest]

end

theorem Document.mapPaths_id (d : Document) : d.mapPaths id = d := by
  rw [Document.mapPaths, Body.mapPath_id, Slots.mapPaths_id]

/-! ### Processes -/

namespace Engine

section relocated

variable {resolve resolve' : Resolver} {o o' : Options} {f : Text → Text}

/-- Each of the paths, passed through the function, means the same source as before,
    whatever the source around it is. -/
def SameSources (resolve resolve' : Resolver) (o o' : Options) (f : Text → Text)
    (paths : List Text) : Prop :=
  ∀ path ∈ paths, ∀ document : Option Text,
    sourcePath resolve' o' (f path) document = sourcePath resolve o path document

variable (rules : Rules.ofOptions o' = Rules.ofOptions o)
include rules

/-- A document is composed in the same way when its path and its slots mean the
    same. -/
theorem compose_mapPaths (body : Body) (slots : Slots)
    (same : SameSources resolve resolve' o o' f body.sourcePaths)
    (below : ∀ name value, slots.lookup name = some value →
      slot resolve' o' (value.mapPaths f) = slot resolve o value) :
    compose resolve' o' (body.mapPath f) (Engine.slots resolve' o' (Slots.mapPaths f slots)) =
      compose resolve o body (Engine.slots resolve o slots) := by
  have slots_eq (name : Scalar) :
      (Engine.slots resolve' o' (Slots.mapPaths f slots)).lookup name =
        (Engine.slots resolve o slots).lookup name := by
    rw [lookup_slots, lookup_slots, Slots.lookup_mapPaths]
    cases found : slots.lookup name with
    | none => rfl
    | some value => exact congrArg some (below name value found)
  funext here inSlot
  unfold compose
  simp only [slots_eq, rules]
  cases body with
  | text t => rfl
  | source path =>
    have source_eq := same path List.mem_cons_self here.document
    simp only [Body.mapPath, source_eq]

/-- A slot value is resolved in the same way when its paths mean the same. -/
theorem slot_mapPaths (value : Slot)
    (same : SameSources resolve resolve' o o' f value.sourcePaths) :
    slot resolve' o' (value.mapPaths f) = slot resolve o value := by
  induction value using Slot.induct with
  | literal t => rfl
  | callback c =>
    -- The equation of `slot` asks that a callback is of no other form.
    rw [Slot.mapPaths, slot, slot, rules]
    · intro path same_slot
      cases same_slot
    · intro body slots same_slot
      cases same_slot
  | source path =>
    rw [Slot.mapPaths, slot, slot, rules]
    funext here
    rw [same path List.mem_cons_self here.document]
  | document body slots ih =>
    rw [Slot.mapPaths, slot, slot]
    have composed := compose_mapPaths rules body slots
      (fun path mem => same path (List.mem_append_left _ mem)) fun name value found =>
        ih name value found fun path mem =>
          same path (List.mem_append_right _ (Slots.mem_sourcePaths_of_lookup found mem))
    rw [composed]

/-- A document with its paths passed through a function has the same process, when
    each path means the same source as before. -/
theorem document_mapPaths (d : Document)
    (same : SameSources resolve resolve' o o' f d.sourcePaths) :
    document resolve' o' (d.mapPaths f) = document resolve o d := by
  have limit : Limit.whole o'.maxDepth = .whole o.maxDepth := congrArg Rules.limit rules
  have composed := compose_mapPaths rules d.body d.slots
    (fun path mem => same path (List.mem_append_left _ mem)) fun name value found =>
      slot_mapPaths rules value fun path mem =>
        same path (List.mem_append_right _ (Slots.mem_sourcePaths_of_lookup found mem))
  unfold document
  rw [limit]
  exact congrFun (congrFun composed _) _

/-- In particular, a document has the same process when its own paths mean the same. -/
theorem document_congr (d : Document)
    (same : SameSources resolve resolve' o o' id d.sourcePaths) :
    document resolve' o' d = document resolve o d := by
  have mapped := document_mapPaths rules d same
  rwa [Document.mapPaths_id] at mapped

end relocated

end Engine

end MarkdownOutlets
