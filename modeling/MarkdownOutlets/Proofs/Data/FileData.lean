import MarkdownOutlets.Data.Readers
import MarkdownOutlets.Files.Reading

/-! # The data of files

  The data that a file may hold is made of scalars, lists and mappings, and no
  key of a mapping occurs twice. Mappings are kept as lists of entries, which
  could repeat a key; the readers of both formats put one entry after the other
  into a mapping, so that the last value of a key counts. What they give is
  therefore always data.

  That is all that is needed of the readers in what follows: it is a law
  (`LawfulDataReaders`), which those of the program obey.
-/

namespace MarkdownOutlets

/-! ### Steps that succeed -/

/-- The first of two steps that succeed did so. -/
theorem ok_of_bind {ε α β : Type} {x : Except ε α} {f : α → Except ε β} {b : β}
    (h : x >>= f = .ok b) : ∃ a, x = .ok a ∧ f a = .ok b := by
  cases x with
  | error e => exact absurd h (by simp [bind, Except.bind])
  | ok a => exact ⟨a, rfl, h⟩

theorem bind_eq_ok {ε α β : Type} {x : Except ε α} {f : α → Except ε β} {b : β} :
    x >>= f = .ok b ↔ ∃ a, x = .ok a ∧ f a = .ok b := by
  constructor
  · exact ok_of_bind
  · rintro ⟨a, rfl, h⟩
    exact h

/-- The first of two steps fails, or the second one does. -/
theorem error_of_bind {ε α β : Type} {x : Except ε α} {f : α → Except ε β} {e : ε}
    (h : x >>= f = .error e) : x = .error e ∨ ∃ a, x = .ok a ∧ f a = .error e := by
  cases x with
  | error e' =>
    have same : (Except.error e' : Except ε β) = .error e := h
    exact .inl (congrArg Except.error (Except.error.inj same))
  | ok a => exact .inr ⟨a, rfl, h⟩

theorem ok_of_map {ε α β : Type} {x : Except ε α} {f : α → β} {b : β} (h : x.map f = .ok b) :
    ∃ a, x = .ok a ∧ b = f a := by
  cases x with
  | error e => cases h
  | ok a => exact ⟨a, rfl, (Except.ok.inj h).symm⟩

theorem ok_of_mapError {ε ε' α : Type} {x : Except ε α} {f : ε → ε'} {a : α}
    (h : x.mapError f = .ok a) : x = .ok a := by
  cases x with
  | error e => cases h
  | ok b => exact congrArg Except.ok (Except.ok.inj h)

/-! ### Mappings -/

namespace Entries

/-- No key occurs twice. -/
def Distinct (entries : Entries) : Prop := entries.Pairwise fun a b => a.1.sameKey b.1 = false

variable {entries : Entries} {key : Scalar} {v : Value}

/-- An entry after a value was put under a key is the new one, one from before, or
    one from before with the new value. -/
theorem mem_put {entry : Scalar × Value} (mem : entry ∈ entries.put key v) :
    entry ∈ entries ∨ entry = (key, v) ∨ ∃ w, (entry.1, w) ∈ entries ∧ entry.2 = v := by
  induction entries with
  | nil => exact .inr (.inl (List.mem_singleton.mp mem))
  | cons first rest ih =>
    obtain ⟨k, w⟩ := first
    unfold put at mem
    split at mem
    · rcases List.mem_cons.mp mem with rfl | mem
      · exact .inr (.inr ⟨w, List.mem_cons_self, rfl⟩)
      · exact .inl (List.mem_cons_of_mem _ mem)
    · rcases List.mem_cons.mp mem with rfl | mem
      · exact .inl List.mem_cons_self
      · rcases ih mem with old | new | ⟨u, old, same⟩
        · exact .inl (List.mem_cons_of_mem _ old)
        · exact .inr (.inl new)
        · exact .inr (.inr ⟨u, List.mem_cons_of_mem _ old, same⟩)

theorem distinct_put (distinct : entries.Distinct) (key : Scalar) (v : Value) :
    (entries.put key v).Distinct := by
  induction entries with
  | nil => exact List.pairwise_singleton _ _
  | cons first rest ih =>
    obtain ⟨k, w⟩ := first
    obtain ⟨apart, distinct⟩ := List.pairwise_cons.mp distinct
    unfold put
    split
    · exact List.pairwise_cons.mpr ⟨apart, distinct⟩
    · rename_i other
      refine List.pairwise_cons.mpr ⟨fun entry mem => ?_, ih distinct⟩
      rcases mem_put mem with old | rfl | ⟨u, old, -⟩
      · exact apart entry old
      · exact Bool.eq_false_iff.mpr other
      · exact apart (entry.1, u) old

/-- A text key has the value of any entry with it. -/
theorem field?_of_mem {name : String} (distinct : entries.Distinct)
    (mem : (.text name.toList, v) ∈ entries) : entries.field? name = some v := by
  unfold field?
  induction entries with
  | nil => cases mem
  | cons first rest ih =>
    obtain ⟨k, w⟩ := first
    obtain ⟨apart, distinct⟩ := List.pairwise_cons.mp distinct
    rw [get?, Scalar.sameKey_text]
    rcases List.mem_cons.mp mem with same | mem_rest
    · obtain ⟨rfl, rfl⟩ := Prod.mk.inj same
      rw [if_pos (decide_eq_true rfl)]
    · -- An earlier entry with the key would be the same key.
      have other : k ≠ .text name.toList := by
        rintro rfl
        simpa using apart (_, v) mem_rest
      rw [if_neg (by simpa using other)]
      exact ih distinct mem_rest

/-- The value of a text key is that of some entry with it. -/
theorem mem_of_field? {name : String} (found : entries.field? name = some v) :
    (.text name.toList, v) ∈ entries := by
  unfold field? at found
  induction entries with
  | nil => cases found
  | cons first rest ih =>
    obtain ⟨k, w⟩ := first
    rw [get?, Scalar.sameKey_text] at found
    by_cases same : k = .text name.toList
    · rw [if_pos (decide_eq_true same)] at found
      rw [same, Option.some.inj found]
      exact List.mem_cons_self
    · rw [if_neg (by simpa using same)] at found
      exact List.mem_cons_of_mem _ (ih found)

end Entries

/-! ### Data -/

/-- The value is data: it is made of scalars, lists and mappings, and no key of a
    mapping occurs twice. -/
inductive Value.IsData : Value → Prop
  /-- A scalar. -/
  | scalar (s : Scalar) : IsData (.scalar s)
  /-- A list of data. -/
  | list {items : List Value} (each : ∀ item ∈ items, IsData item) : IsData (.list items)
  /-- A mapping to data. -/
  | dict {entries : Entries} (distinct : entries.Distinct)
      (each : ∀ entry ∈ entries, IsData entry.2) : IsData (.dict entries)

/-- To put data under keys one after the other gives a mapping to data. -/
theorem Value.isData_ofList {items : List (Scalar × Value)}
    (each : ∀ item ∈ items, item.2.IsData) : (Value.dict (Entries.ofList items)).IsData := by
  -- The mapping so far has distinct keys and data only, and each step keeps that.
  have kept (sofar : Entries) (distinct : sofar.Distinct)
      (data : ∀ entry ∈ sofar, entry.2.IsData) :
      (Value.dict (items.foldl (fun entries item => Entries.put entries item.1 item.2) sofar)).IsData := by
    induction items generalizing sofar with
    | nil => exact .dict distinct data
    | cons item rest ih =>
      have item_data := each item List.mem_cons_self
      refine ih (fun other mem => each other (List.mem_cons_of_mem item mem)) _
        (Entries.distinct_put distinct item.1 item.2) fun entry mem => ?_
      rcases Entries.mem_put mem with old | rfl | ⟨w, -, same⟩
      · exact data entry old
      · exact item_data
      · exact same ▸ item_data
  exact kept [] List.Pairwise.nil fun _ mem => absurd mem List.not_mem_nil

/-! ### JSON -/

namespace Json

/-- What a reader with some fuel gives is data: as a value, in a list of items and in
    the members of an object. -/
structure ReadsData (fuel : Nat) : Prop where
  /-- A value is data. -/
  value {t : Text} {r : Value × Text} : readValue fuel t = .ok r → r.1.IsData
  /-- So is each item of a list. -/
  items {t : Text} {r : List Value × Text} :
    readItems fuel t = .ok r → ∀ item ∈ r.1, item.IsData
  /-- And each value in an object. -/
  members {t : Text} {r : List (Scalar × Value) × Text} :
    readMembers fuel t = .ok r → ∀ member ∈ r.1, member.2.IsData

theorem readsData (fuel : Nat) : ReadsData fuel := by
  -- The readers call each other with one unit of fuel less.
  induction fuel with
  | zero =>
    constructor
    case value =>
      intro t r h
      cases h
    case items =>
      intro t r h
      cases h
    case members =>
      intro t r h
      cases h
  | succ fuel ih =>
    constructor
    case value =>
      intro t r h
      unfold readValue at h
      split at h
      · obtain ⟨found, -, rfl⟩ := ok_of_map h
        exact .scalar _
      · split at h
        · cases h
          exact .list fun _ mem => absurd mem List.not_mem_nil
        · obtain ⟨found, read, rfl⟩ := ok_of_map h
          exact .list (ih.items read)
      · split at h
        · cases h
          exact .dict List.Pairwise.nil fun _ mem => absurd mem List.not_mem_nil
        · obtain ⟨found, read, rfl⟩ := ok_of_map h
          exact Value.isData_ofList (ih.members read)
      · obtain ⟨found, -, rfl⟩ := ok_of_map h
        exact .scalar _
    case items =>
      intro t r h
      unfold readItems at h
      obtain ⟨⟨first, after⟩, read, h⟩ := ok_of_bind h
      have first_data := ih.value read
      dsimp only at h
      split at h
      · cases h
        intro item mem
        exact List.mem_singleton.mp mem ▸ first_data
      · obtain ⟨⟨rest, behind⟩, read_rest, h⟩ := ok_of_bind h
        cases h
        intro item mem
        rcases List.mem_cons.mp mem with rfl | mem
        · exact first_data
        · exact ih.items read_rest item mem
      · cases h
    case members =>
      intro t r h
      unfold readMembers at h
      split at h
      · obtain ⟨⟨name, behind⟩, -, h⟩ := ok_of_bind h
        dsimp only at h
        split at h
        · obtain ⟨⟨first, after⟩, read, h⟩ := ok_of_bind h
          have first_data := ih.value read
          dsimp only at h
          split at h
          · cases h
            intro member mem
            exact List.mem_singleton.mp mem ▸ first_data
          · obtain ⟨⟨rest, end_of_rest⟩, read_rest, h⟩ := ok_of_bind h
            cases h
            intro member mem
            rcases List.mem_cons.mp mem with rfl | mem
            · exact first_data
            · exact ih.members read_rest member mem
          · cases h
        · cases h
      · cases h

theorem isData_parse {t : Text} {v : Value} (h : parse t = .ok v) : v.IsData := by
  unfold parse at h
  obtain ⟨⟨found, after⟩, read, h⟩ := ok_of_bind h
  dsimp only at h
  split at h
  · cases h
    exact (readsData _).value read
  · cases h

end Json

/-! ### YAML -/

namespace Yaml.Node

mutual

/-- The value of a node is data. -/
theorem isData_value : (node : Node) → (value node).1.IsData
  | .plain t => by
    unfold value
    split
    · exact .scalar _
    · exact .scalar _
  | .quoted t => .scalar _
  | .list items => .list (isData_valuesOf items)
  | .mapping entries => Value.isData_ofList (isData_entriesOf entries)
  | .unmergeable => .scalar _

/-- So is that of each item. -/
theorem isData_valuesOf : (nodes : List Node) → ∀ v ∈ (valuesOf nodes).1, v.IsData
  | [] => fun _ mem => absurd mem List.not_mem_nil
  | node :: rest => by
    intro v mem
    rcases List.mem_cons.mp mem with rfl | mem
    · exact isData_value node
    · exact isData_valuesOf rest v mem

/-- And that of each entry. -/
theorem isData_entriesOf : (nodes : List (Node × Node)) → ∀ entry ∈ (entriesOf nodes).1, entry.2.IsData
  | [] => fun _ mem => absurd mem List.not_mem_nil
  | (_, node) :: rest => by
    intro entry mem
    rcases List.mem_cons.mp mem with rfl | mem
    · exact isData_value node
    · exact isData_entriesOf rest entry mem

end

theorem isData_toValue {node : Node} {v : Value} (h : node.toValue = .ok v) : v.IsData := by
  unfold toValue at h
  dsimp only at h
  split at h
  · cases h
  · cases h
    exact isData_value node.merged

end Yaml.Node

/-! ### Files -/

/-- Readers for which what a text denotes is data. -/
class LawfulDataReaders [DataReaders] : Prop where
  /-- What a text denotes is data. -/
  isData_parse : ∀ {format : DataFormat} {t : Text} {v : Value},
    DataReaders.parse format t = .ok v → v.IsData

instance : LawfulDataReaders where
  isData_parse := by
    intro format t v h
    cases format with
    | json => exact Json.isData_parse (ok_of_mapError h)
    | yaml =>
      have parsed := ok_of_mapError h
      unfold Yaml.parse at parsed
      split at parsed
      · cases parsed
      · exact Yaml.Node.isData_toValue parsed

/-- What a file holds is data. -/
theorem isData_ofBytes [DataReaders] [LawfulDataReaders] {format : DataFormat} {bytes : Bytes}
    {v : Value} (h : format.ofBytes bytes = .ok v) : v.IsData := by
  unfold DataFormat.ofBytes at h
  split at h
  · exact LawfulDataReaders.isData_parse (ok_of_mapError h)
  · cases h

/-- The standard value for an empty file is data as well. -/
theorem isData_orStandard (format : DataFormat) {v : Value} (data : v.IsData) :
    (FileProgram.orStandard format (.dict []) v).IsData := by
  unfold FileProgram.orStandard
  split
  · exact .dict List.Pairwise.nil fun _ mem => absurd mem List.not_mem_nil
  · exact data

end MarkdownOutlets
