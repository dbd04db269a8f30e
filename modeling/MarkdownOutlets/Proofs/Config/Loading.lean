import MarkdownOutlets.Cli.Command
import MarkdownOutlets.Files.Tree
import MarkdownOutlets.Proofs.Config.Configuration
import MarkdownOutlets.Proofs.Files.Programs

/-! # How the loading of a configuration ends

  A configuration file can be missing, unreadable, malformed, of another shape
  or against the schema. All of this is a refusal, which the command to compose
  a document reports. There are four ends which are none: bytes that are no text,
  texts in which a reader of data takes some part for a value that denotes none,
  integers that a refusal would have to quote and that have too many digits for
  it, and paths into the home directory of a user whom nobody knows. These end
  the command without a report.

  The main statement, `loading_ends`, is about every file system, whatever it
  answers, and about all readers of data.
-/

namespace MarkdownOutlets

namespace Config

/-! ### Refusals -/

/-- The failure is one of a configuration. -/
def IsConfigFailure (f : Failure) : Prop := f.cls = .config ∨ f.cls = .schema

theorem isConfigFailure (f : ConfigFault) : IsConfigFailure f.failure := by
  cases f with
  | schema faults => exact .inr rfl
  | _ => exact .inl rfl

/-! ### Data files -/

section data

variable [DataReaders] {σ : Type} (answer : (r : FileRequest) → StateM σ r.Answer) (p : FilePath) (s : σ)

/-- The answer of the file system when it is asked for the content of a file,
    after it was asked whether there is one. -/
def contentOf : Except OsFault Bytes :=
  ((answer (.read p)).run ((answer (.entry p)).run s).2).1

/-- Reading asks whether there is a file, and for its content if there is. -/
theorem run_readData (format : DataFormat) :
    ((FileProgram.run answer (FileProgram.readData format p)).run s).1 =
      match ((answer (.entry p)).run s).1 with
      | .error fault => .error (if fault.reason.isAbsence then .missing p else .unreachable fault)
      | .ok _ =>
        match contentOf answer p s with
        | .error fault => .error (.os fault)
        | .ok bytes => format.ofBytes bytes := by
  unfold FileProgram.readData contentOf
  rw [FileProgram.run_bind_apply, FileProgram.run_request_apply]
  cases ((answer (.entry p)).run s).1 with
  | error fault => rfl
  | ok kind =>
    simp only [FileProgram.run_bind_apply, FileProgram.run_request_apply]
    cases ((answer (.read p)).run ((answer (.entry p)).run s).2).1 with
    | error fault => rfl
    | ok bytes => rfl

/-- A strict reading does not excuse any fault. -/
theorem run_readDataOr (format : DataFormat) (standard : Value) :
    ((FileProgram.run answer (FileProgram.readDataOr format p standard true)).run s).1 =
      ((FileProgram.run answer (FileProgram.readData format p)).run s).1.map
        (FileProgram.orStandard format standard) := by
  unfold FileProgram.readDataOr
  rw [FileProgram.run_bind_apply]
  cases ((FileProgram.run answer (FileProgram.readData format p)).run s).1 with
  | error fault => simp [Except.map]
  | ok v => rfl

end data

/-! ### Loading -/

section loading

variable [DataReaders] {σ : Type} (answer : (r : FileRequest) → StateM σ r.Answer)
  (places : FilePath.Places) (path : Text) (s : σ)

/-- What comes of loading in a state of the file system. -/
def loaded : Except LoadFault Configuration := ((FileProgram.run answer (load places path)).run s).1

/-- The answer about the content of the configuration file. -/
def content : Except OsFault Bytes := contentOf answer (configPath places path) s

/-- The data in the content of the configuration file. -/
def dataOf (bytes : Bytes) : Except DataFault Value :=
  let format := formatOf (configPath places path)
  (format.ofBytes bytes).map (FileProgram.orStandard format (.dict []))

/-- Loading succeeds with data of the right form; what else comes of the data is a
    refusal, but for the ends that are none. -/
theorem loaded_eq (known : homeFault? places path = none) : loaded answer places path s =
    match ((FileProgram.run answer
      (FileProgram.readData (formatOf (configPath places path)) (configPath places path))).run s).1 with
    | .error fault => .error (.ofDataFault (configPath places path) fault)
    | .ok v =>
      Configuration.ofData places (configPath places path)
        (FileProgram.orStandard (formatOf (configPath places path)) (.dict []) v) := by
  unfold loaded load
  simp only [known]
  rw [FileProgram.run_bind_apply, run_readDataOr]
  cases ((FileProgram.run answer
    (FileProgram.readData (formatOf (configPath places path)) (configPath places path))).run s).1 with
  | error fault => rfl
  | ok v => rfl

/-- The ways in which loading can end. -/
inductive LoadEnd (content : Except OsFault Bytes) : Except LoadFault Configuration → Prop
  /-- There is a configuration. -/
  | loaded (config : Configuration) : LoadEnd content (.ok config)
  /-- The configuration is refused. -/
  | refused (f : ConfigFault) : LoadEnd content (.error (.config f))
  /-- The bytes of the file are no text. -/
  | noText {bytes : Bytes} {reason : Utf8.Fault} (was_read : content = .ok bytes)
      (no_text : textOfBytes bytes = .error reason) (fault : Utf8.Fault) :
      LoadEnd content (.error (.encoding fault))
  /-- A reader of data takes some part of the file for a value that denotes none. -/
  | noValue {bytes : Bytes} {fault : ValueFault} (was_read : content = .ok bytes)
      (no_value : dataOf places path bytes = .error (.value fault)) :
      LoadEnd content (.error (.value fault))
  /-- An integer in the data has too many digits to be quoted. -/
  | unwritable {bytes : Bytes} {data : Value} (was_read : content = .ok bytes)
      (has_data : dataOf places path bytes = .ok data) (not_writable : data.isWritable = false) :
      LoadEnd content (.error (.value .unwritable))
  /-- A path in the data starts with a home directory that is not there. -/
  | homeless {bytes : Bytes} {data : Value} {other : Text} {fault : FilePath.HomeFault}
      (was_read : content = .ok bytes) (has_data : dataOf places path bytes = .ok data)
      (named : NamesPath data other) (no_home : homeFault? places other = some fault) :
      LoadEnd content (.error (.value (.home fault)))
  /-- The path of the file does. -/
  | homelessFile {fault : FilePath.HomeFault} (no_home : homeFault? places path = some fault) :
      LoadEnd content (.error (.value (.home fault)))

/-- A text has no encoding fault. -/
theorem textOfBytes_of_encoding {format : DataFormat} {bytes : Bytes} {fault : Utf8.Fault}
    (h : format.ofBytes bytes = .error (.encoding fault)) : ∃ reason, textOfBytes bytes = .error reason := by
  unfold DataFormat.ofBytes at h
  split at h
  · rename_i t _
    unfold DataFormat.parse at h
    cases parsed : DataReaders.parse format t with
    | ok v =>
      rw [parsed] at h
      cases h
    | error f =>
      rw [parsed] at h
      cases f <;> cases h
  · exact ⟨_, ‹_›⟩

theorem load_end : LoadEnd places path (content answer places path s)
    (loaded answer places path s) := by
  cases known : homeFault? places path with
  | some fault =>
    unfold loaded load
    simp only [known]
    exact .homelessFile known
  | none =>
    rw [loaded_eq answer places path s known, run_readData]
    -- First the answer whether there is a file, then that about its content, then its data.
    cases ((answer (.entry (configPath places path))).run s).1 with
    | error fault =>
      simp only
      split
      · exact .refused _
      · exact .refused _
    | ok kind =>
      unfold content
      cases contentOf answer (configPath places path) s with
      | error fault => exact .refused _
      | ok bytes =>
        simp only
        cases read : (formatOf (configPath places path)).ofBytes bytes with
        | error fault =>
          cases fault with
          | encoding fault =>
            obtain ⟨reason, no_text⟩ := textOfBytes_of_encoding read
            exact .noText rfl no_text fault
          | value fault => exact .noValue rfl (by rw [dataOf, read]; rfl)
          | _ => exact .refused _
        | ok v =>
          simp only
          have has_data : dataOf places path bytes = .ok (FileProgram.orStandard
              (formatOf (configPath places path)) (.dict []) v) := by
            rw [dataOf, read]
            rfl
          generalize FileProgram.orStandard (formatOf (configPath places path)) (.dict []) v = data
            at has_data
          have ends := data_end places (configPath places path) data
          generalize Configuration.ofData places (configPath places path) data = result at ends
          cases ends with
          | loaded config => exact .loaded config
          | refused f => exact .refused f
          | unwritable not_writable => exact .unwritable rfl has_data not_writable
          | homeless named no_home => exact .homeless rfl has_data named no_home

/-- Nothing about a configuration file leads to an end that is no refusal. -/
structure Ordinary (content : Except OsFault Bytes) : Prop where
  /-- The home directory is there that the path of the file starts with. -/
  home : homeFault? places path = none
  /-- The bytes of the file are a text. -/
  text : ∀ bytes, content = .ok bytes → ∃ t, textOfBytes bytes = .ok t
  /-- The reader of its format finds a value or that it is malformed. -/
  values : ∀ bytes, content = .ok bytes → ∀ fault, dataOf places path bytes ≠ .error (.value fault)
  /-- No integer of the data has too many digits to be quoted. -/
  writable : ∀ bytes, content = .ok bytes → ∀ data, dataOf places path bytes = .ok data →
    data.isWritable = true
  /-- The home directories are there that paths in the data start with. -/
  homes : ∀ bytes, content = .ok bytes → ∀ data, dataOf places path bytes = .ok data →
    ∀ other, NamesPath data other → homeFault? places other = none

/-- Then there is a configuration or a refusal. -/
theorem LoadEnd.of_ordinary {content : Except OsFault Bytes} {result : Except LoadFault Configuration}
    (ends : LoadEnd places path content result) (ordinary : Ordinary places path content) :
    (∃ config, result = .ok config) ∨ ∃ f, result = .error (.config f) := by
  cases ends with
  | loaded config => exact .inl ⟨config, rfl⟩
  | refused f => exact .inr ⟨f, rfl⟩
  | noText was_read no_text =>
    obtain ⟨t, text⟩ := ordinary.text _ was_read
    rw [text] at no_text
    cases no_text
  | noValue was_read no_value => exact absurd no_value (ordinary.values _ was_read _)
  | unwritable was_read has_data not_writable =>
    rw [ordinary.writable _ was_read _ has_data] at not_writable
    cases not_writable
  | homeless was_read has_data named no_home =>
    rw [ordinary.homes _ was_read _ has_data _ named] at no_home
    cases no_home
  | homelessFile no_home =>
    rw [ordinary.home] at no_home
    cases no_home

/-- Bytes that are no text are not refused by the reader of JSON. -/
theorem load_noText {kind : EntryKind} {bytes : Bytes} {fault : Utf8.Fault}
    (known : homeFault? places path = none)
    (found : ((answer (.entry (configPath places path))).run s).1 = .ok kind)
    (was_read : content answer places path s = .ok bytes)
    (json : formatOf (configPath places path) = .json) (no_text : textOfBytes bytes = .error fault) :
    loaded answer places path s = .error (.encoding fault) := by
  unfold content at was_read
  rw [loaded_eq answer places path s known, run_readData, found, was_read]
  simp only [json, DataFormat.ofBytes, no_text]
  rfl

end loading

end Config

/-! ### The command -/

namespace Cli

open Config FileProgram

/-- The command ends because of the content of the configuration file. A home directory
    that is not there may be that of another path. -/
def Abort.IsOfContent : Abort → Prop
  | .value (.home _) | .os _ | .mismatch _ => False
  | .encoding _ | .value _ => True

/-- Nothing but the loading of the configuration ends the command so. -/
def Unrelated {α : Type} (result : Except Abort α) : Prop :=
  ∀ abort, result = .error abort → ¬ abort.IsOfContent

theorem composePlan_unrelated (places : FilePath.Places) (plan : Plan) :
    Ends Unrelated (composePlan places plan) := by
  refine .after fun result => ?_
  obtain ⟨result, after⟩ := result
  match result with
  | .ok composition => exact .done nofun
  | .error (.problem p) => exact .done nofun
  | .error (.mismatch m) =>
    refine .done ?_
    rintro _ ⟨⟩
    exact id

theorem composeWith_unrelated (places : FilePath.Places) (a : ComposeArguments)
    (slots : SlotArguments) (config : Option Configuration) :
    Ends Unrelated (composeWith places a slots config) := by
  unfold composeWith
  split
  · refine .done ?_
    rintro _ ⟨⟩
    exact id
  · exact .done nofun
  · refine (composePlan_unrelated places _).bind fun attempt unrelated => .done ?_
    intro abort is_abort
    cases attempt with
    | error other => exact unrelated abort (by simpa [Except.map] using is_abort)
    | ok attempt => simp [Except.map] at is_abort

theorem report_unrelated (places : FilePath.Places) (a : ComposeArguments) (attempt : Attempt) :
    Ends Unrelated (report places a attempt) := by
  unfold report
  split
  · exact .done nofun
  · split
    · refine .done ?_
      rintro _ ⟨⟩
      exact id
    · refine .after fun written => ?_
      match written with
      | .ok () => exact .done nofun
      | .error (.os fault) =>
        refine .done ?_
        simp only [writeFailureReport]
        split
        · rintro _ ⟨⟩
          exact id
        · nofun
      | .error (.writer reason) => exact .done nofun

/-- A report about a composition has one of two exit codes. -/
def HasCode (result : Except Abort Report) : Prop :=
  ∀ report, result = .ok report → report.code = 0 ∨ report.code = 1

theorem report_hasCode (places : FilePath.Places) (a : ComposeArguments) (attempt : Attempt) :
    Ends HasCode (report places a attempt) := by
  have failed (err : Text) : HasCode (.ok { code := 1, err }) := by
    rintro _ ⟨⟩
    exact .inr rfl
  unfold report
  split
  · exact .done (failed _)
  · split
    · exact .done nofun
    · refine .after fun written => ?_
      match written with
      | .ok () =>
        refine .done ?_
        rintro _ ⟨⟩
        left
        simp only [successReport]
        split
        · rfl
        · split <;> rfl
      | .error (.os fault) =>
        refine .done ?_
        simp only [writeFailureReport]
        split
        · nofun
        · exact failed _
      | .error (.writer reason) => exact .done (failed _)

theorem compose_hasCode [DataReaders] (places : FilePath.Places) (a : ComposeArguments) :
    Ends HasCode (compose places a) := by
  refine .after fun result => ?_
  match result with
  | .error abort => exact .done nofun
  | .ok attempt => exact report_hasCode places a attempt

/-- The slot arguments have values, and can be read. -/
def ComposeArguments.SlotsRead (a : ComposeArguments) (slots : SlotArguments) : Prop :=
  SlotArguments.parse a.writtenSlots = .ok slots ∧ a.slots.length ≤ a.writtenSlots.length

section command

variable [DataReaders] {σ : Type} (answer : (r : FileRequest) → StateM σ r.Answer) (places : FilePath.Places)
  {path : Text} (s : σ) {a : ComposeArguments}

/-- What comes of an attempt in a state of the file system. -/
def attempted (a : ComposeArguments) : Except Abort Attempt :=
  ((FileProgram.run answer (attempt places a)).run s).1

/-- What comes of the command in a state of the file system. -/
def composed (a : ComposeArguments) : Except Abort Report :=
  ((FileProgram.run answer (compose places a)).run s).1

/-- An attempt that gets as far as the configuration depends on its loading. -/
theorem attempted_cases (named : a.config = some path) (not_empty : path ≠ []) {slots : SlotArguments}
    (slots_read : a.SlotsRead slots) :
    match loaded answer places path s with
    | .error (.encoding fault) => attempted answer places s a = .error (.encoding fault)
    | .error (.value fault) => attempted answer places s a = .error (.value fault)
    | .error (.config f) => attempted answer places s a = .ok { records := [], result := .error (.config f) }
    | .ok _ => Unrelated (attempted answer places s a) := by
  obtain ⟨parsed, given⟩ := slots_read
  obtain ⟨c, rest, rfl⟩ := List.exists_cons_of_ne_nil not_empty
  unfold attempted attempt
  rw [parsed]
  simp only [if_neg (Nat.not_lt.mpr given), ComposeArguments.loadConfig, named, loaded,
    run_bind_apply, run_pure_apply]
  match ((FileProgram.run answer (load places (c :: rest))).run s).1 with
  | .error (.encoding fault) => rfl
  | .error (.value fault) => rfl
  | .error (.config f) => rfl
  | .ok config => exact (composeWith_unrelated places a slots (some config)).run answer _

theorem attempted_unrelated (named : a.config = some path) (not_empty : path ≠ [])
    (loads : (∃ config, loaded answer places path s = .ok config) ∨
      ∃ f, loaded answer places path s = .error (.config f)) :
    Unrelated (attempted answer places s a) := by
  cases parsed : SlotArguments.parse a.writtenSlots with
  | error reason =>
    unfold attempted attempt
    rw [parsed]
    nofun
  | ok slots =>
    by_cases given : a.slots.length ≤ a.writtenSlots.length
    · have cases := attempted_cases answer places s named not_empty ⟨parsed, given⟩
      rcases loads with ⟨config, loads⟩ | ⟨f, loads⟩
      · simpa [loads] using cases
      · simp only [loads] at cases
        rw [cases]
        nofun
    · unfold attempted attempt
      rw [parsed]
      simp only [if_pos (Nat.not_le.mp given), run_pure_apply]
      rintro _ ⟨⟩
      exact id

theorem composed_of_abort {abort : Abort} (ends : attempted answer places s a = .error abort) :
    composed answer places s a = .error abort := by
  unfold attempted at ends
  unfold composed compose
  rw [run_bind_apply, ends]
  rfl

theorem composed_of_obstacle {records : List Logging.LogRecord} {obstacle : Obstacle}
    (ends : attempted answer places s a = .ok { records, result := .error obstacle }) :
    ∃ report, composed answer places s a = .ok report ∧ report.code = 1 := by
  unfold attempted at ends
  unfold composed compose
  rw [run_bind_apply, ends]
  exact ⟨_, rfl, rfl⟩

theorem composed_unrelated (unrelated : Unrelated (attempted answer places s a)) :
    Unrelated (composed answer places s a) := by
  cases ends : attempted answer places s a with
  | error abort =>
    rw [composed_of_abort answer places s ends]
    rintro _ ⟨⟩
    exact unrelated abort ends
  | ok attempt =>
    unfold attempted at ends
    unfold composed compose
    rw [run_bind_apply, ends]
    exact (report_unrelated places a attempt).run answer _

/-- What the loading of its configuration means for the command. -/
structure CommandEnds (path : Text) (a : ComposeArguments) : Prop where
  /-- If there is a report, it has one of two exit codes. -/
  code : HasCode (composed answer places s a)
  /-- A refusal is reported. -/
  refused : ∀ f slots, a.SlotsRead slots → loaded answer places path s = .error (.config f) →
    ∃ report, composed answer places s a = .ok report ∧ report.code = 1
  /-- Bytes that are no text end the command without a report. -/
  noText : ∀ fault slots, a.SlotsRead slots → loaded answer places path s = .error (.encoding fault) →
    composed answer places s a = .error (.encoding fault)
  /-- So do values that denote none, integers that cannot be quoted and home
      directories that are not there. -/
  noValue : ∀ fault slots, a.SlotsRead slots → loaded answer places path s = .error (.value fault) →
    composed answer places s a = .error (.value fault)
  /-- It is only the loading that ends the command because of the content. -/
  unrelated : (∃ config, loaded answer places path s = .ok config) ∨
      (∃ f, loaded answer places path s = .error (.config f)) →
    Unrelated (composed answer places s a)

theorem command_ends (named : a.config = some path) (not_empty : path ≠ []) :
    CommandEnds answer places s path a where
  code := (compose_hasCode places a).run answer s
  refused := by
    intro f slots slots_read refused
    have cases := attempted_cases answer places s named not_empty slots_read
    simp only [refused] at cases
    exact composed_of_obstacle answer places s cases
  noText := by
    intro fault slots slots_read no_text
    have cases := attempted_cases answer places s named not_empty slots_read
    simp only [no_text] at cases
    exact composed_of_abort answer places s cases
  noValue := by
    intro fault slots slots_read no_value
    have cases := attempted_cases answer places s named not_empty slots_read
    simp only [no_value] at cases
    exact composed_of_abort answer places s cases
  unrelated := fun loads =>
    composed_unrelated answer places s (attempted_unrelated answer places s named not_empty loads)

end command

end Cli

/-! ### Every end -/

open Config

/-- How the loading of a configuration ends in a state of the file system. -/
structure LoadingEnds [DataReaders] {σ : Type} (answer : (r : FileRequest) → StateM σ r.Answer)
    (places : FilePath.Places) (path : Text) (s : σ) : Prop where
  /-- With an ordinary file, or without a file, there is a configuration or a failure of
      its class. -/
  answered : Ordinary places path (content answer places path s) →
    (∃ config, loaded answer places path s = .ok config) ∨
      ∃ f, loaded answer places path s = .error (.config f) ∧ IsConfigFailure f.failure
  /-- Otherwise there may be one of the other ends. -/
  ends : LoadEnd places path (content answer places path s) (loaded answer places path s)
  /-- One of them is met by all JSON files whose bytes are no text. -/
  noText : homeFault? places path = none →
    ∀ kind bytes fault, ((answer (.entry (configPath places path))).run s).1 = .ok kind →
      content answer places path s = .ok bytes → formatOf (configPath places path) = .json →
        textOfBytes bytes = .error fault → loaded answer places path s = .error (.encoding fault)
  /-- A command with the configuration reports everything but these ends. -/
  command : ∀ a : Cli.ComposeArguments, a.config = some path → path ≠ [] →
    Cli.CommandEnds answer places s path a

/-- A file whose bytes are those of a JSON document, but for one that no text has. -/
def brokenTree : FileTree where
  cwd := []
  entries :=
    [(["u.json".toList], .file [0x7b, 0x22, 0x61, 0x22, 0x3a, 0x20, 0x22, 0xff, 0x22, 0x7d])]

/-- The root directory as working directory and home. -/
def rootPlaces : FilePath.Places where
  cwd := { root := .single, names := [] }
  home := { root := .single, names := [] }

end MarkdownOutlets
