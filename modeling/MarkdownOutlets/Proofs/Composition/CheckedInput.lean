import MarkdownOutlets.Composition.Unchecked
import MarkdownOutlets.Proofs.Data.FileData
import MarkdownOutlets.Source.Files
import MarkdownOutlets.Source.Memory

/-! # Checked input needs no checks

  A checked document is composed from its own data type, in which a slot value
  cannot be of the wrong kind. A caller may also compose without checks, from
  records whose fields are whatever they are. The two agree: for the records of
  input that the check accepts, the unchecked process is the checked one
  (`Unchecked.accepted_eq`). None of the steps is ever reached at which an
  unchecked composition meets a value of the wrong kind.
-/

namespace MarkdownOutlets

/-! ### Records -/

/-- The options record that a value stands for, before its fields are
    checked. -/
def Options.recordOf (v : Value) : Except Invalid Entries :=
  if v.isNull then .ok []
  else
    match v.entries?, v with
    | some entries, _ => Options.canonical entries
    | none, .options given => .ok given
    | none, other => .error (.notOptions other.kindName)

/-- The document record that a value stands for, before its fields are
    checked. -/
def Document.recordAt (place : Text) (v : Value) : Except Invalid Value :=
  if v.isNull then .error .documentRequired
  else
    match v.entries? with
    | some entries => Document.ofMapping entries place
    | none => .ok v

/-- To check options is to check the fields of their record. -/
theorem Options.check_eq (v : Value) :
    Options.check v = (do Options.ofRecord (← Options.recordOf v)) := by
  unfold Options.check Options.recordOf
  by_cases null : v.isNull = true
  · rw [if_pos null, if_pos null]
    rfl
  · rw [if_neg null, if_neg null]
    cases v <;> rfl

/-- The document whose fields a record has, if they can be those of one. -/
def Document.ofFields (place : Text) : Value → Except Invalid Document
  | .document text source slots => do
    let body ← Document.checkBody text source place
    return { body, slots := ← Document.checkSlotField slots place }
  | other => .error (.notDocument place other.kindName)

/-- To check a document is to check the fields of its record. -/
theorem Document.checkAt_eq (place : Text) (v : Value) :
    Document.checkAt place v = (do Document.ofFields place (← Document.recordAt place v)) := by
  unfold Document.checkAt Document.recordAt
  by_cases null : v.isNull = true
  · rw [if_pos null, if_pos null]
    rfl
  · rw [if_neg null, if_neg null]
    cases v.entries? with
    | none => rfl
    | some entries => rfl

namespace Unchecked

/-! ### Options -/

/-- The settings that checked options give. -/
def Settings.ofOptions (o : Options) : Settings where
  rules := .ofOptions o
  resolveFrom := o.resolveFrom
  base := (o.basePath.map Value.text).getD .null
  unordered := none
  cache := o.cache

/-- What is made of a field that was accepted, if the same is made of the
    standard value as of a missing field. -/
theorem view_field {α β : Type} (view : Value → β) (expected : α → β) (value : Value)
    {given : Entries} {name : String} {standard a : α} {reason : Invalid} {read : Value → Option α}
    (h : Options.field given name standard reason read = .ok a)
    (missing : view value = expected standard)
    (present : ∀ v a, read v = some a → view v = expected a) :
    view ((given.field? name).getD value) = expected a := by
  unfold Options.field at h
  cases found : given.field? name with
  | none =>
    rw [found] at h
    obtain rfl := Except.ok.inj h
    exact missing
  | some v =>
    rw [found] at h
    cases accepted : read v with
    | none =>
      simp only [Options.orElse, accepted] at h
      cases h
    | some b =>
      simp only [Options.orElse, accepted] at h
      obtain rfl := Except.ok.inj h
      exact present v b accepted

/-- A choice is made by its own word. -/
theorem text?_of_choice? {α : Type} {words : List (Text × α)} {word : α → Text}
    (own : ∀ entry ∈ words, entry.1 = word entry.2) {v : Value} {c : α}
    (chosen : Options.choice? words v = some c) : v.text? = some (word c) := by
  unfold Options.choice? at chosen
  obtain ⟨w, text_eq, found⟩ := Option.bind_eq_some_iff.mp chosen
  obtain ⟨front, back, eq, -⟩ := List.lookup_eq_some_iff.mp found
  have mem : (w, c) ∈ words := eq ▸ List.mem_append_right _ (List.mem_cons_self ..)
  exact text_eq.trans (congrArg some (own _ mem))

theorem limit_of_natural? {v : Value} {n : Nat} (h : Options.natural? v = some n) :
    Limit.ofValue? v = some (.whole n) := by
  unfold Options.natural? at h
  split at h
  · rw [← Option.some.inj h]
    rfl
  · cases h

theorem truthy_of_bool? {v : Value} {b : Bool} (h : Options.bool? v = some b) : v.truthy = b := by
  unfold Options.bool? at h
  split at h
  · exact Option.some.inj h
  · cases h

theorem cacheUse_of_cache? {v : Value} {choice : Option CacheChoice}
    (h : Options.cache? v = some choice) :
    cacheUse v = if choice.isSome then .mapping else .none := by
  unfold Options.cache? at h
  split at h
  · rw [← Option.some.inj h]
    rfl
  · rw [← Option.some.inj h]
    rfl
  · rw [← Option.some.inj h]
    rfl
  · cases h

theorem eq_of_basePath? {v : Value} {path : Option Text} (h : Options.basePath? v = some path) :
    v = (path.map Value.text).getD .null := by
  unfold Options.basePath? at h
  split at h
  · rw [← Option.some.inj h]
    rfl
  · rw [← Option.some.inj h]
    rfl
  · cases h

/-- The settings of an options record that was accepted. -/
theorem ofRecord_eq {given : Entries} {o : Options} (h : Options.ofRecord given = .ok o) :
    Settings.ofRecord given = .ofOptions o := by
  obtain ⟨maxDepth, maxDepth_ok, h⟩ := ok_of_bind h
  obtain ⟨onMissingSlot, onMissingSlot_ok, h⟩ := ok_of_bind h
  obtain ⟨onFileError, onFileError_ok, h⟩ := ok_of_bind h
  obtain ⟨resolveFrom, resolveFrom_ok, h⟩ := ok_of_bind h
  obtain ⟨parallel, parallel_ok, h⟩ := ok_of_bind h
  obtain ⟨cache, cache_ok, h⟩ := ok_of_bind h
  obtain ⟨basePath, basePath_ok, h⟩ := ok_of_bind h
  obtain rfl := Except.ok.inj h
  -- Every field is either missing or was read, and looks the same to the settings.
  have limit := view_field Limit.ofValue? (fun n : Nat => some (.whole n))
    (.int ({} : Options).maxDepth) maxDepth_ok rfl fun _ _ => limit_of_natural?
  have missing := view_field Value.text? (fun c => some (OnMissingSlot.word c))
    (.text ({} : Options).onMissingSlot.word) onMissingSlot_ok rfl fun _ _ =>
      text?_of_choice? (by decide)
  have fault := view_field Value.text? (fun c => some (OnFileError.word c))
    (.text ({} : Options).onFileError.word) onFileError_ok rfl fun _ _ =>
      text?_of_choice? (by decide)
  have relative := view_field (fun v => decide (v.text? = some ResolveFrom.file.word))
    (fun c => decide (ResolveFrom.word c = ResolveFrom.file.word)) .null resolveFrom_ok (by decide)
      fun v c accepted => by
        have word : v.text? = some c.word := text?_of_choice? (by decide) accepted
        simp only [word, Option.some.injEq]
  have truth := view_field Value.truthy id (.bool ({} : Options).parallel) parallel_ok rfl
    fun _ _ => truthy_of_bool?
  have use := view_field cacheUse (fun choice => if choice.isSome then .mapping else .none) .null
    cache_ok rfl fun _ _ => cacheUse_of_cache?
  have choice := view_field (fun v => (Options.cache? v).join) id .null cache_ok rfl
    fun v c accepted => congrArg Option.join accepted
  have base := view_field id (fun path => (path.map Value.text).getD .null) .null basePath_ok rfl
    fun _ _ => eq_of_basePath?
  have missing_iff (c : OnMissingSlot) : onMissingSlot.word = c.word ↔ onMissingSlot = c := by
    cases onMissingSlot <;> cases c <;> decide
  have fault_iff (c : OnFileError) : onFileError.word = c.word ↔ onFileError = c := by
    cases onFileError <;> cases c <;> decide
  have relative_iff (c : ResolveFrom) : resolveFrom.word = c.word ↔ resolveFrom = c := by
    cases resolveFrom <;> cases c <;> decide
  unfold Settings.ofRecord Settings.ofOptions Rules.ofOptions
  simp only [isWord, limit, missing, fault, relative, truth, use, choice, Option.some.injEq,
    missing_iff, fault_iff, relative_iff]
  rw [show (given.field? "base_path").getD .null = _ from base]
  cases onMissingSlot <;> cases onFileError <;> cases resolveFrom <;> rfl

/-! ### Documents -/

/-- A resolver for values means the same by texts as one for texts. -/
def Extends (r : Unchecked.Resolver) (resolve : MarkdownOutlets.Resolver) : Prop :=
  ∀ (path : Text) (base : Option Text) (mode : ResolveFrom),
    r (.text path) ((base.map Value.text).getD .null) mode = .ok (resolve path base mode)

/-- Sources in memory resolve values like texts. -/
theorem extends_memory (cwd : Text) :
    Extends (MemorySource.resolveValue cwd) (MemorySource.resolve cwd) := by
  intro path base mode
  unfold MemorySource.resolveValue
  rw [show (Value.text path).text? = some path from rfl]
  split
  · contradiction
  · -- An absolute path has no use for a base.
    rename_i names path_eq
    obtain rfl := Option.some.inj path_eq
    rfl
  · rename_i path_eq base_eq
    obtain rfl := Option.some.inj path_eq
    cases base with
    | none => rfl
    | some base => cases base_eq
  · rename_i path_eq base_eq
    obtain rfl := Option.some.inj path_eq
    cases base with
    | none => cases base_eq
    | some base =>
      obtain rfl := Option.some.inj base_eq
      rfl

/-- So do sources in files. -/
theorem extends_files (s : FileSource) : Extends s.resolveValue s.resolve := by
  intro path base mode
  show (if (s.places.expand (.ofText path)).isAbsolute || !((base.map Value.text).getD .null).truthy
    then Except.ok (s.resolve path none mode) else _) = _
  by_cases absolute : (s.places.expand (.ofText path)).isAbsolute = true
  · rw [if_pos (by simp [absolute])]
    simp only [FileSource.resolve, absolute, if_true]
  · match base with
    | none =>
      rw [if_pos (by simp [Value.truthy, Value.null, Scalar.truthy])]
    | some [] =>
      rw [if_pos (by simp [Value.truthy, Value.text, Scalar.truthy])]
      unfold FileSource.resolve FileSource.anchor
      cases mode with
      | cwd => rfl
      | file => rfl
    | some (c :: rest) =>
      rw [if_neg (by simp [Value.truthy, Value.text, Scalar.truthy, absolute])]
      rfl

/-- The body of a record is its text, or its source. -/
theorem checkBody_eq_ok {text source : Value} {place : Text} {body : Body}
    (h : Document.checkBody text source place = .ok body) :
    (∃ t, body = .text t ∧ text = .text t ∧ source.isNull = true) ∨
      ∃ path, body = .source path ∧ source = .text path := by
  unfold Document.checkBody at h
  split at h
  · cases h
  · rename_i not_both
    split at h
    · cases h
    · split at h
      · rename_i given
        split at h
        · rename_i t is_text
          have no_source : source.isNull = true := by simpa [given] using not_both
          exact .inl ⟨t, (Except.ok.inj h).symm, Value.eq_text_of_text? is_text, no_source⟩
        · cases h
      · split at h
        · rename_i c path is_text
          exact .inr ⟨c :: path, (Except.ok.inj h).symm, Value.eq_text_of_text? is_text⟩
        · cases h

variable {r : Unchecked.Resolver} {resolve : MarkdownOutlets.Resolver} {o : Options}

theorem sourcePath_eq (same : Extends r resolve) (path : Text) (document : Option Text) :
    sourcePath r (.ofOptions o) (.text path) document =
      .ok (Engine.sourcePath resolve o path document) := by
  have from_base := same path o.basePath .cwd
  unfold sourcePath Engine.sourcePath Settings.ofOptions
  cases o.resolveFrom with
  | cwd =>
    simp only [from_base]
    rfl
  | file =>
    match document with
    | none =>
      simp only [from_base]
      rfl
    | some [] =>
      simp only [from_base]
      rfl
    | some (c :: rest) =>
      have from_document := same path (some (c :: rest)) .file
      simp only [Option.map_some, Option.getD_some] at from_document
      simp only [from_document]
      rfl

theorem withSource_eq (same : Extends r resolve) (path : Text) (here : Position) (inSlot : Bool)
    (use : Content → Position → Process) :
    withSource r (.ofOptions o) (.text path) here inSlot use =
      Engine.withSource (.ofOptions o) (Engine.sourcePath resolve o path here.document) here inSlot
        use := by
  unfold withSource
  rw [sourcePath_eq same]
  rfl

/-- A document whose slot values have the same processes has the same process. -/
theorem compose_eq (same : Extends r resolve) {text source : Value} {place : Text} {body : Body}
    (accepted : Document.checkBody text source place = .ok body)
    {slotOf : Text → Option Engine.SlotProcess} {values : List (Scalar × Slot)}
    (slots_eq : slotOf = fun name => (values.lookup (.text name)).map (Engine.slot resolve o))
    (here : Position) (inSlot : Bool) :
    compose r (.ofOptions o) text source slotOf here inSlot =
      Engine.compose resolve o body (Engine.slots resolve o values) here inSlot := by
  subst slots_eq
  unfold compose
  simp only [Engine.compose, Engine.lookup_slots]
  rcases checkBody_eq_ok accepted with ⟨t, rfl, rfl, no_source⟩ | ⟨path, rfl, rfl⟩
  · rw [no_source]
    cases t with
    | nil => rfl
    | cons c rest => rfl
  · exact withSource_eq same path here inSlot _

mutual

/-- A slot value that was accepted has the process of the slot that it is. -/
theorem slot_eq (same : Extends r resolve) : (v : Value) → {place : Text} → {value : Slot} →
    Document.checkSlot v place = .ok value →
    slot r (.ofOptions o) v = some (Engine.slot resolve o value)
  | .literal text, place, value, h => by
    unfold Document.checkSlot at h
    split at h
    · rename_i t is_text
      obtain rfl := Except.ok.inj h
      rw [Value.eq_text_of_text? is_text]
      unfold slot Engine.slot
      rfl
    · cases h
  | .source path, place, value, h => by
    unfold Document.checkSlot at h
    split at h
    · rename_i c rest is_text
      obtain rfl := Except.ok.inj h
      rw [Value.eq_text_of_text? is_text]
      unfold slot Engine.slot
      exact congrArg some (funext fun here => withSource_eq same (c :: rest) here true _)
    · cases h
  | .callback func, place, value, h => by
    unfold Document.checkSlot at h
    split at h
    · obtain rfl := Except.ok.inj h
      unfold slot Engine.slot
      rfl
    · cases h
  | .document text source slots, place, value, h => by
    obtain ⟨body, body_ok, h⟩ := ok_of_bind h
    obtain ⟨values, values_ok, h⟩ := ok_of_bind h
    obtain rfl := Except.ok.inj h
    unfold slot Engine.slot
    refine congrArg some (funext fun here => ?_)
    exact compose_eq same body_ok (slotsOf_eq same slots values_ok) here true
  | .scalar _, _, _, h | .list _, _, _, h | .dict _, _, _, h | .frozen, _, _, h
  | .sharedCache _, _, _, h | .callable _, _, _, h | .options _, _, _, h => by
    unfold Document.checkSlot at h
    cases h

/-- The slots that were accepted have their processes. -/
theorem slotsOf_eq (same : Extends r resolve) : (v : Value) → {place : Text} → {values : Slots} →
    Document.checkSlotField v place = .ok values →
    slotsOf r (.ofOptions o) v = fun name =>
      (values.lookup (.text name)).map (Engine.slot resolve o)
  | .dict entries, place, values, h | .sharedCache entries, place, values, h => by
    unfold Document.checkSlotField at h
    unfold slotsOf
    exact funext fun name => slotEntries_eq same entries h (.text name)
  | .frozen, place, values, h => by
    unfold Document.checkSlotField at h
    obtain rfl := Except.ok.inj h
    unfold slotsOf
    rfl
  | .scalar _, _, _, h | .list _, _, _, h | .callable _, _, _, h | .literal _, _, _, h
  | .source _, _, _, h | .callback _, _, _, h | .document .., _, _, h | .options _, _, _, h => by
    unfold Document.checkSlotField at h
    cases h

/-- So do the entries of a mapping of slots. -/
theorem slotEntries_eq (same : Extends r resolve) : (entries : List (Scalar × Value)) →
    {place : Text} → {values : Slots} → Document.checkSlots entries place = .ok values →
    ∀ name, ((slotEntries r (.ofOptions o) entries).lookup name).join =
      (values.lookup name).map (Engine.slot resolve o)
  | [], place, values, h => by
    unfold Document.checkSlots at h
    obtain rfl := Except.ok.inj h
    unfold slotEntries
    exact fun _ => rfl
  | (key, v) :: rest, place, values, h => by
    unfold Document.checkSlots at h
    obtain ⟨value, value_ok, h⟩ := ok_of_bind h
    obtain ⟨others, others_ok, h⟩ := ok_of_bind h
    obtain rfl := Except.ok.inj h
    intro name
    unfold slotEntries
    rw [List.lookup_cons, List.lookup_cons, slot_eq same v value_ok]
    cases name == key with
    | true => rfl
    | false => exact slotEntries_eq same rest others_ok name

end

/-- The record of a document that was accepted has the process of the
    document. -/
theorem document_eq (same : Extends r resolve) {text source slots : Value} {place : Text}
    {d : Document} (body_ok : Document.checkBody text source place = .ok d.body)
    (slots_ok : Document.checkSlotField slots place = .ok d.slots) :
    document r (.ofOptions o) (.document text source slots) = Engine.document resolve o d := by
  unfold document Engine.document
  exact compose_eq same body_ok (slotsOf_eq same slots slots_ok) _ false

/-- The records of input that was accepted have its settings and its process. -/
theorem accepted_eq {node options : Value} {d : Document}
    (accepted : Host.checkInput node options = .ok (d, o)) :
    ∃ record given, Document.recordAt Document.rootPlace node = .ok record ∧
      Options.recordOf options = .ok given ∧ Settings.ofRecord given = .ofOptions o ∧
      ∀ r resolve, Extends r resolve →
        document r (.ofOptions o) record = Engine.document resolve o d := by
  obtain ⟨d', node_ok, rest⟩ := ok_of_bind accepted
  obtain ⟨o', options_ok, rest⟩ := ok_of_bind rest
  obtain ⟨rfl, rfl⟩ := Prod.mk.inj (Except.ok.inj rest)
  rw [Document.check, Document.checkAt_eq] at node_ok
  obtain ⟨record, record_eq, fields_ok⟩ := ok_of_bind node_ok
  rw [Options.check_eq] at options_ok
  obtain ⟨given, given_eq, given_ok⟩ := ok_of_bind options_ok
  refine ⟨record, given, record_eq, given_eq, ofRecord_eq given_ok, fun r resolve same => ?_⟩
  -- Only the record of a document has the fields of one.
  unfold Document.ofFields at fields_ok
  split at fields_ok
  · obtain ⟨body, body_ok, fields_ok⟩ := ok_of_bind fields_ok
    obtain ⟨slots, slots_ok, fields_ok⟩ := ok_of_bind fields_ok
    obtain rfl := Except.ok.inj fields_ok
    exact document_eq same body_ok slots_ok
  · cases fields_ok

/-- Records with the settings and the process of a checked document are composed
    as it is. -/
theorem composeUnchecked_eq {m : Type → Type} [Monad m] {h : Host m} {r : Unchecked.Resolver}
    {record : Value} {given : Entries} {d : Document}
    (settings_eq : Settings.ofRecord given = .ofOptions o)
    (same_process : document r (.ofOptions o) record = Engine.document h.resolve o d)
    (shared : Cache) :
    h.composeUnchecked r record (.options given) shared = h.composeDocument d o shared := by
  have accepted : Settings.ofValue (.options given) = .ok (.ofOptions o) :=
    congrArg Except.ok settings_eq
  unfold Host.composeUnchecked Host.composeDocument
  rw [accepted]
  exact congrArg (h.composeWith · o.cache shared) same_process

/-- Without any checks, the records that input stands for have the process and the composition
    of the document and the options that the input was accepted as. -/
def NeedsNoChecks {m : Type → Type} [Monad m] (h : Host m) (r : Unchecked.Resolver)
    (node options : Value) (d : Document) (o : Options) : Prop :=
  ∃ record given, Document.recordAt Document.rootPlace node = .ok record ∧
    Options.recordOf options = .ok given ∧
    document r (.ofRecord given) record = Engine.document h.resolve o d ∧
    ∀ shared, h.composeUnchecked r record (.options given) shared = h.composeDocument d o shared

/-- Where values are resolved like texts, input that was accepted needs no checks. -/
theorem needsNoChecks {m : Type → Type} [Monad m] {h : Host m} (same : Extends r h.resolve)
    {node options : Value} {d : Document} (accepted : Host.checkInput node options = .ok (d, o)) :
    NeedsNoChecks h r node options d o := by
  obtain ⟨record, given, record_eq, given_eq, settings_eq, process_eq⟩ := accepted_eq accepted
  have same_process := process_eq r h.resolve same
  refine ⟨record, given, record_eq, given_eq, ?_, composeUnchecked_eq settings_eq same_process⟩
  rw [settings_eq]
  exact same_process

/-- So it is with sources in memory. -/
theorem needsNoChecks_memory {m : Type → Type} [Monad m] (source : MemorySource)
    (call : Callback → m (Except Text Content)) {node options : Value} {d : Document}
    (accepted : Host.checkInput node options = .ok (d, o)) :
    NeedsNoChecks (source.host call) (MemorySource.resolveValue source.cwd) node options d o :=
  needsNoChecks (extends_memory source.cwd) accepted

/-- And with sources in files. -/
theorem needsNoChecks_files (source : FileSource)
    (call : Callback → FileProgram (Except Text Content)) {node options : Value} {d : Document}
    (accepted : Host.checkInput node options = .ok (d, o)) :
    NeedsNoChecks (source.host call) source.resolveValue node options d o :=
  needsNoChecks (extends_files source) accepted

end Unchecked

end MarkdownOutlets
