import MarkdownOutlets.Proofs.Cli.Arguments
import MarkdownOutlets.Proofs.Config.Loading
import MarkdownOutlets.Proofs.Files.AtomicWrites
import MarkdownOutlets.Proofs.Files.Systems

/-! # Documents only on success

  The command to compose a document reads and composes, then writes, and then reports. Up to
  the end of the composition it only looks (`Cli.attempt_looks`), so that a failure leaves no
  trace, and a document is composed from the files as they were, also when it is written over
  one of them. After that there is one write, of all or nothing, and a report that depends on
  nothing but how the write ended (`Cli.run_report`). So the form of the report makes no
  difference to the files.

  The main statement, `documents_on_success`, is about all command lines that ask for a
  document, on every file system.
-/

namespace MarkdownOutlets

open FileProgram FileTree

/-! ### Compositions only look -/

namespace FileProgram

theorem isFile_looks (p : FilePath) : Looks (isFile p) := by
  refine .bind (.request trivial) ?_
  intro answer
  split
  · exact .done _
  · exact .done _

theorem readText_looks (p : FilePath) : Looks (readText p) := by
  refine .bind (.request trivial) ?_
  intro answer
  cases answer with
  | error fault => exact .done _
  | ok bytes =>
    dsimp only
    split
    · exact .done _
    · exact .done _

theorem readData_looks [DataReaders] (format : DataFormat) (p : FilePath) : Looks (readData format p) := by
  refine .bind (.request trivial) ?_
  intro answer
  cases answer with
  | error fault => exact .done _
  | ok kind =>
    refine .bind (.request trivial) ?_
    intro answer
    cases answer with
    | error fault => exact .done _
    | ok bytes => exact .done _

theorem readDataOr_looks [DataReaders] (format : DataFormat) (p : FilePath) (standard : Value)
    (strict : Bool) : Looks (readDataOr format p standard strict) := by
  refine (readData_looks format p).bind ?_
  intro data
  cases data with
  | ok v => exact .done _
  | error fault =>
    dsimp only
    split
    · exact .done _
    · exact .done _

end FileProgram

namespace Host

/-- The host answers by looking. -/
structure OnlyLooks (h : Host FileProgram) : Prop where
  /-- It looks whether there is a source. -/
  probe : ∀ path, (h.probe path).Looks
  /-- It looks for the text of a source. -/
  read : ∀ path, (h.read path).Looks
  /-- Its functions only look. -/
  call : ∀ c, (h.call c).Looks

variable {h : Host FileProgram}

theorem OnlyLooks.answer (looks : h.OnlyLooks) (request : Request) (s : Session) :
    ((h.answer request).run s).Looks := by
  cases request with
  | probe path => exact (looks.probe path).bind fun _ => .done _
  | read path => exact (looks.read path).bind fun _ => .done _
  | call c => exact (looks.call c).bind fun _ => .done _
  | lookUp path => exact .done _
  | remember path text => exact .done _
  | note n => exact .done _

/-- On a host that only looks, a process does. -/
theorem OnlyLooks.run (looks : h.OnlyLooks) (p : Process) :
    ∀ s : Session, ((h.run p).run s).Looks := by
  unfold Host.run
  -- The second motive is about branches one after the other.
  induction p using Process.rec (motive_2 := fun branches =>
      ∀ s : Session, ((Process.runAll h.answer branches).run s).Looks) with
  | done outcome =>
    rw [Process.run]
    intro s
    exact .done _
  | ask request next ih =>
    rw [Process.run]
    intro s
    exact (looks.answer request s).bind fun answered => ih answered.1 answered.2
  | all branches next ih_branches ih =>
    rw [Process.run]
    intro s
    exact (ih_branches s).bind fun ended => ih ended.1 ended.2
  | nil s =>
    rw [Process.runAll]
    exact .done _
  | cons b branches ih ih_branches s =>
    rw [Process.runAll]
    refine (ih s).bind fun first => ?_
    exact (ih_branches first.2).bind fun _ => .done _

theorem OnlyLooks.composeDocument (looks : h.OnlyLooks) (d : Document) (o : Options)
    (shared : Cache) : (h.composeDocument d o shared).Looks :=
  (looks.run _ _).bind fun _ => .done _

end Host

/-- Documents in files are only read, if the functions of the caller only look. -/
theorem FileSource.host_onlyLooks (s : FileSource)
    {call : Callback → FileProgram (Except Text Content)} (calls : ∀ c, (call c).Looks) :
    (s.host call).OnlyLooks where
  probe _ := (isFile_looks _).bind fun _ => .done _
  read _ := (readText_looks _).bind fun _ => .done _
  call := calls

namespace Cli

open Config

variable (places : FilePath.Places) (a : ComposeArguments)

theorem load_looks [DataReaders] (path : Text) : (load places path).Looks := by
  unfold load
  split
  · exact .done _
  · refine (readDataOr_looks _ _ _ _).bind ?_
    intro data
    cases data with
    | error fault => exact .done _
    | ok v => exact .done _

theorem loadConfig_looks [DataReaders] : (a.loadConfig places).Looks := by
  unfold ComposeArguments.loadConfig
  split
  · exact (load_looks places _).bind fun _ => .done _
  · exact .done _

/-- The host of the command, which has no functions of a caller. -/
def host (places : FilePath.Places) : Host FileProgram :=
  FileSource.host { places } fun _ => return .error []

theorem composePlan_looks (plan : Plan) : (composePlan places plan).Looks := by
  have looks : (host places).OnlyLooks := FileSource.host_onlyLooks _ fun _ => .done _
  refine (looks.composeDocument plan.document plan.options []).bind ?_
  rintro ⟨result, after⟩
  dsimp only
  split
  · exact .done _
  · exact .done _
  · exact .done _

/-- An attempt to compose a document only looks. -/
theorem attempt_looks [DataReaders] : (attempt places a).Looks := by
  unfold attempt
  split
  · exact .done _
  · split
    · exact .done _
    · refine (loadConfig_looks places a).bind ?_
      intro loaded
      split
      · exact .done _
      · exact .done _
      · exact .done _
      · unfold composeWith
        split
        · exact .done _
        · exact .done _
        · exact (composePlan_looks places _).bind fun _ => .done _

/-! ### The document -/

/-- The document that an attempt ends with, if it ends with one. -/
def Attempt.document? : Except Abort Attempt → Option Composition
  | .ok { result := .ok c, .. } => some c
  | _ => none

variable (fs : FileSystem) (st : fs.State)

section document

variable [DataReaders]

/-- The document that the arguments ask for, if there is one. -/
def documentOf : Option Composition := Attempt.document? (fs.run (attempt places a) st).1

/-- A document that is composed of what the arguments are read as. -/
structure ComposedOf (slots : SlotArguments) (config : Option Configuration) (plan : Plan)
    (c : Composition) : Prop where
  /-- The slot arguments. -/
  slots_read : a.SlotsRead slots
  /-- The configuration that they name, if they name one. -/
  loaded : (fs.run (a.loadConfig places) st).1 = .ok config
  /-- The plan of both. -/
  planned : Plan.request places config (a.layer slots places.cwd) = .ok plan
  /-- The composition of its document with its options. -/
  composed : (fs.run ((host places).composeDocument plan.document plan.options [])
    (fs.run (a.loadConfig places) st).2).1.1 = .ok c

end document

variable {places a fs st} {c : Composition}

theorem document?_composePlan {plan : Plan} :
    Attempt.document? (fs.run (composePlan places plan) st).1 = some c ↔
      (fs.run ((host places).composeDocument plan.document plan.options []) st).1.1 = .ok c := by
  unfold composePlan host
  rw [FileSystem.run_bind]
  generalize fs.run (Host.composeDocument _ plan.document plan.options []) st = ended
  obtain ⟨⟨result, after⟩, st'⟩ := ended
  match result with
  | .ok composition => simp [FileSystem.run_pure, Attempt.document?]
  | .error (.problem p) => simp [FileSystem.run_pure, Attempt.document?]
  | .error (.mismatch m) => simp [FileSystem.run_pure, Attempt.document?]

theorem document?_composeWith {slots : SlotArguments} {config : Option Configuration} :
    Attempt.document? (fs.run (composeWith places a slots config) st).1 = some c ↔
      ∃ plan, Plan.request places config (a.layer slots places.cwd) = .ok plan ∧
        (fs.run ((host places).composeDocument plan.document plan.options []) st).1.1 = .ok c := by
  unfold composeWith
  cases Plan.request places config (a.layer slots places.cwd) with
  | error fault => cases fault <;> simp [FileSystem.run_pure, Attempt.document?]
  | ok plan =>
    have same (result : Except Abort Attempt) (records : List Logging.LogRecord) :
        Attempt.document? (result.map fun attempt =>
          { attempt with records := records ++ attempt.records }) = Attempt.document? result := by
      match result with
      | .error abort => rfl
      | .ok { result := .ok c, .. } => rfl
      | .ok { result := .error obstacle, .. } => rfl
    dsimp only
    rw [FileSystem.run_bind, FileSystem.run_pure, same, document?_composePlan]
    simp

/-- There is a document if one is composed of what the arguments are read as. -/
theorem documentOf_eq_some [DataReaders] : documentOf places a fs st = some c ↔
    ∃ slots config plan, ComposedOf places a fs st slots config plan c := by
  unfold documentOf attempt
  cases parsed : SlotArguments.parse a.writtenSlots with
  | error reason =>
    constructor
    · intro documented
      cases documented
    · rintro ⟨slots, config, plan, composed⟩
      cases parsed.symm.trans composed.slots_read.1
  | ok slots =>
    dsimp only
    by_cases given : a.slots.length ≤ a.writtenSlots.length
    · rw [if_neg (Nat.not_lt.mpr given), FileSystem.run_bind]
      cases loaded : (fs.run (a.loadConfig places) st).1 with
      | error fault =>
        constructor
        · intro documented
          cases fault <;> cases documented
        · rintro ⟨slots', config, plan, composed⟩
          cases loaded.symm.trans composed.loaded
      | ok config =>
        rw [document?_composeWith]
        constructor
        · rintro ⟨plan, planned, composed⟩
          exact ⟨slots, config, plan, ⟨parsed, given⟩, loaded, planned, composed⟩
        · rintro ⟨slots', config', plan, composed⟩
          cases parsed.symm.trans composed.slots_read.1
          cases loaded.symm.trans composed.loaded
          exact ⟨plan, composed.planned, composed.composed⟩
    · rw [if_pos (Nat.not_le.mp given)]
      constructor
      · intro documented
        cases documented
      · rintro ⟨slots', config, plan, composed⟩
        exact absurd composed.slots_read.2 given

/-! ### The report -/

/-- The report about a document, after an attempt to write it. -/
def writtenReport (places : FilePath.Places) (a : ComposeArguments) (logged : Text)
    (c : Composition) : Except WriteFault Unit → Except Abort Report
  | .error fault => writeFailureReport a logged fault
  | .ok () =>
    let report := successReport a (outputPath places a) c
    .ok { report with err := logged ++ report.err }

/-- What the report about a document amounts to. -/
def writtenCode : Except WriteFault Unit → Except Abort Nat
  | .ok () => .ok 0
  | .error (.os fault) => if fault.reason = .badName then .error (.os fault) else .ok 1
  | .error (.writer _) => .ok 1

/-- The form of the report makes no difference to the exit code. -/
theorem map_code_writtenReport (places : FilePath.Places) (a : ComposeArguments)
    (logged : Text) (c : Composition) (written : Except WriteFault Unit) :
    (writtenReport places a logged c written).map Report.code = writtenCode written := by
  match written with
  | .ok () =>
    show Except.ok (successReport a (outputPath places a) c).code = Except.ok 0
    unfold successReport
    split
    · rfl
    · split <;> rfl
  | .error (.os fault) =>
    simp only [writtenReport, writeFailureReport, writtenCode]
    split <;> rfl
  | .error (.writer reason) => rfl

/-- A report about an attempt is made when the document is written. -/
theorem run_report (attempt : Attempt) : fs.run (report places a attempt) st =
    let logged := (logging a.json a.verbose).errorText attempt.records
    match attempt.result with
    | .error obstacle => (.ok { code := 1, err := logged ++ obstacle.text a.json }, st)
    | .ok c =>
      match a.outputName.bind (homeFault? places) with
      | some fault => (.error (.value (.home fault)), st)
      | none =>
        let ended := fs.run (writeOutput (outputPath places a) c.text) st
        (writtenReport places a logged c ended.1, ended.2) := by
  unfold report
  cases attempt.result with
  | error obstacle => rfl
  | ok c =>
    cases a.outputName.bind (homeFault? places) with
    | some fault => rfl
    | none =>
      dsimp only
      rw [FileSystem.run_bind]
      cases (fs.run (writeOutput (outputPath places a) c.text) st).1 with
      | error fault => rfl
      | ok done => rfl

/-- The ways in which the command can end, with the trees before and after. -/
inductive ComposeEnd (places : FilePath.Places) (a : ComposeArguments) (before : FileTree) :
    Option Composition → Except Abort Report → FileTree → Prop
  /-- There is no report. If there is a document, the home directory is not there that
      the path of its file starts with. -/
  | aborted (document : Option Composition) (abort : Abort) :
      ComposeEnd places a before document (.error abort) before
  /-- There is a report about an obstacle. -/
  | refused (err : Text) : ComposeEnd places a before none (.ok { code := 1, err }) before
  /-- There is a document, and a report of it. -/
  | printed {c : Composition} (no_output : outputPath places a = none) (logged : Text) :
      ComposeEnd places a before (some c) (writtenReport places a logged c (.ok ())) before
  /-- The document is in its file. -/
  | written {c : Composition} {p : FilePath} {after : FileTree}
      (output : outputPath places a = some p)
      (replaced : Replaced p before (Utf8.encode c.text) after) (logged : Text) :
      ComposeEnd places a before (some c) (writtenReport places a logged c (.ok ())) after
  /-- The document could not be written. -/
  | unwritten {c : Composition} {p : FilePath} {after : FileTree}
      (output : outputPath places a = some p) (grown : Grown p before after) (fault : WriteFault)
      (logged : Text) :
      ComposeEnd places a before (some c) (writtenReport places a logged c (.error fault)) after

theorem writeText_ends (fs : FileSystem) (st : fs.State) (p : FilePath) (content : Text) :
    Ended p (fs.tree st) (Utf8.encode content) (fs.run (writeText p content) st).1
      (fs.tree (fs.run (writeText p content) st).2) := by
  have ended := (writeAtomically_ends p (fs.tree st) [Utf8.encode content] none).run_on fs
  rw [List.flatten_singleton] at ended
  exact ended

/-- Nothing but one write changes the files, and only a document is written. -/
theorem compose_ends [DataReaders] : ComposeEnd places a (fs.tree st) (documentOf places a fs st)
    (fs.run (compose places a) st).1 (fs.tree (fs.run (compose places a) st).2) := by
  have kept := (attempt_looks places a).tree_run fs st
  unfold compose documentOf
  rw [FileSystem.run_bind]
  generalize fs.run (attempt places a) st = ended at kept ⊢
  obtain ⟨result, st'⟩ := ended
  match result with
  | .error abort =>
    rw [FileSystem.run_pure, ← kept]
    exact .aborted none abort
  | .ok { result := .error obstacle, records } =>
    rw [run_report, ← kept]
    exact .refused _
  | .ok { result := .ok c, records } =>
    -- the attempt has left the tree as it was, and the write starts from there
    rw [run_report, ← kept]
    cases a.outputName.bind (homeFault? places) with
    | some fault => exact .aborted (some c) _
    | none =>
      cases output : outputPath places a with
      | none => exact .printed output _
      | some p =>
        have ended : Ended p (fs.tree st') (Utf8.encode c.text) (fs.run (writeText p c.text) st').1
            (fs.tree (fs.run (writeText p c.text) st').2) := writeText_ends fs st' p c.text
        show ComposeEnd places a _ (some c)
          (writtenReport places a _ c (fs.run (writeText p c.text) st').1)
          (fs.tree (fs.run (writeText p c.text) st').2)
        generalize fs.run (writeText p c.text) st' = written at ended ⊢
        obtain ⟨write_result, st''⟩ := written
        match write_result with
        | .ok () => exact .written output ended _
        | .error fault => exact .unwritten output ended fault _

/-! ### What is shown of a document -/

/-- The file that a path among the arguments means. -/
def target (places : FilePath.Places) (path : Text) : FilePath :=
  places.absolute (places.expand (.ofText path))

theorem outputName_eq_some {path : Text} :
    a.outputName = some path ↔ a.output = some path ∧ path ≠ [] := by
  unfold ComposeArguments.outputName
  rw [Option.filter_eq_some_iff, decide_eq_true_iff]

theorem outputPath_eq_some {p : FilePath} : outputPath places a = some p ↔
    ∃ path, a.output = some path ∧ path ≠ [] ∧ p = target places path := by
  unfold outputPath
  simp only [Option.map_eq_some_iff, outputName_eq_some, and_assoc, target, eq_comm (a := p)]

theorem outputPath_eq_none :
    outputPath places a = none ↔ a.output = none ∨ a.output = some [] := by
  unfold outputPath ComposeArguments.outputName
  rw [Option.map_eq_none_iff, Option.filter_eq_none_iff]
  match a.output with
  | none => simp
  | some [] => simp
  | some (c :: path) => simp

/-- The data about a document. -/
def dataFields (output : Option FilePath) (c : Composition) : List (String × Value) :=
  [("status", .text "success".toList), ("text", .text c.text),
   ("errors", .list (c.errors.map Record.toValue)),
   ("output", (output.map fun p => Value.text p.toText).getD .null)]

/-- What a report shows of a document. -/
structure Shows (a : ComposeArguments) (output : Option FilePath) (c : Composition)
    (report : Report) : Prop where
  /-- In data it shows the text and the errors. -/
  data : a.json = true → report.out = dataLines (dataFields output c)
  /-- In text it shows the text, if there is no file to write it to, with one line feed at its
      end unless it has one there. -/
  text : a.json = false → output = none →
    report.out = if c.text.getLast? = some '\n' then c.text else c.text ++ ['\n']
  /-- Otherwise it shows nothing on the standard output. -/
  silent : a.json = false → output.isSome → report.out = []
  /-- In text the errors are shown on the error stream. -/
  errors : a.json = false → problemsText a.verbose c.errors <:+: report.err

theorem shows_successReport (output : Option FilePath) (logged : Text) :
    Shows a output c { successReport a output c with
      err := logged ++ (successReport a output c).err } := by
  unfold successReport
  cases in_data : a.json with
  | true =>
    refine ⟨fun _ => rfl, ?_, ?_, ?_⟩
    all_goals
      intro in_text
      cases in_data.symm.trans in_text
  | false =>
    cases output with
    | none =>
      refine ⟨?_, fun _ _ => rfl, ?_, fun _ => (List.suffix_append _ _).isInfix⟩
      · intro other
        cases in_data.symm.trans other
      · intro _ there
        cases there
    | some p =>
      refine ⟨?_, ?_, fun _ _ => rfl, fun _ => ⟨logged, _, by rw [List.append_assoc]; rfl⟩⟩
      · intro other
        cases in_data.symm.trans other
      · intro _ none_there
        cases none_there

/-! ### Before and after -/

/-- A text is in the file at a path. Nothing else has changed, but for missing directories on
    the way there, which were made. -/
def Filled (p : FilePath) (text : Text) (before after : FileTree) : Prop :=
  ∃ q, after.locate p = .ok q ∧ after.get? q = some (.file (Utf8.encode text)) ∧
    ∀ other ≠ q, after.get? other = before.get? other ∨ Made p before after other

theorem filled_of_replaced {p : FilePath} {text : Text} {before after : FileTree}
    (replaced : Replaced p before (Utf8.encode text) after) : Filled p text before after :=
  (AllOrNothing.of_replaced replaced rfl).returned rfl

/-- All is as before. Only where there is a document, and a file to write it to, missing
    directories on the way there may have been made. -/
def Spared (places : FilePath.Places) (a : ComposeArguments) (document : Option Composition)
    (before after : FileTree) : Prop :=
  after = before ∨ ∃ path, document.isSome ∧ a.output = some path ∧ path ≠ [] ∧
    Grown (target places path) before after

/-- A document is where it belongs: on the standard output if there is no file for it, and
    otherwise in its file. -/
structure Emitted (places : FilePath.Places) (a : ComposeArguments) (c : Composition)
    (before : FileTree) (report : Report) (after : FileTree) : Prop where
  /-- The report shows it. -/
  shows : Shows a (outputPath places a) c report
  /-- Without a file for it all files are as before. No file is named by no path, and by an
      empty one. -/
  printed : a.output = none ∨ a.output = some [] → after = before
  /-- Otherwise it is in its file, whatever was there. -/
  written : ∀ path, a.output = some path → path ≠ [] →
    Filled (target places path) c.text before after

/-- There is a document where the command succeeds, and only there. -/
structure EmitsOnSuccess (places : FilePath.Places) (a : ComposeArguments)
    (document : Option Composition) (before : FileTree) (result : Except Abort Report)
    (after : FileTree) : Prop where
  /-- If there is a report, it has one of two exit codes. -/
  code : ∀ report, result = .ok report → report.code = 0 ∨ report.code = 1
  /-- Without a report no file has changed. -/
  aborted : ∀ abort, result = .error abort → Spared places a document before after
  /-- After a failure there is nothing on the standard output, and no file has changed. -/
  failed : ∀ report, result = .ok report → report.code = 1 →
    report.out = [] ∧ Spared places a document before after
  /-- After a success there is a document, where it belongs. -/
  succeeded : ∀ report, result = .ok report → report.code = 0 →
    ∃ c, document = some c ∧ Emitted places a c before report after

/-- A document that is written or needs no file is where it belongs. -/
theorem emitted_of_shown {before after : FileTree} {result : Except Abort Report}
    (logged : Text) (shown : result = writtenReport places a logged c (.ok ()))
    (emitted : ∀ report, Shows a (outputPath places a) c report →
      Emitted places a c before report after) :
    EmitsOnSuccess places a (some c) before result after := by
  subst shown
  have zero : (successReport a (outputPath places a) c).code = 0 :=
    Except.ok.inj (map_code_writtenReport places a logged c (.ok ()))
  constructor
  case code =>
    rintro _ ⟨⟩
    exact .inl zero
  case aborted =>
    intro abort ended
    cases ended
  case failed =>
    rintro _ ⟨⟩ one
    cases zero.symm.trans one
  case succeeded =>
    rintro _ ⟨⟩ -
    exact ⟨c, rfl, emitted _ (shows_successReport _ _)⟩

theorem ComposeEnd.emits {before after : FileTree} {document : Option Composition}
    {result : Except Abort Report} (ended : ComposeEnd places a before document result after) :
    EmitsOnSuccess places a document before result after := by
  cases ended with
  | aborted document abort =>
    constructor
    case aborted => exact fun _ _ => .inl rfl
    all_goals
      intro report reported
      cases reported
  | refused err =>
    constructor
    case code =>
      rintro _ ⟨⟩
      exact .inr rfl
    case aborted =>
      intro abort ended
      cases ended
    case failed =>
      rintro _ ⟨⟩ -
      exact ⟨rfl, .inl rfl⟩
    case succeeded =>
      rintro _ ⟨⟩ zero
      cases zero
  | printed no_output logged =>
    refine emitted_of_shown logged rfl fun report shows => ⟨shows, fun _ => rfl, ?_⟩
    intro path given not_empty
    cases no_output.symm.trans (outputPath_eq_some.mpr ⟨path, given, not_empty, rfl⟩)
  | written output replaced logged =>
    refine emitted_of_shown logged rfl fun report shows => ⟨shows, ?_, ?_⟩
    · intro no_path
      cases output.symm.trans (outputPath_eq_none.mpr no_path)
    · intro path given not_empty
      cases output.symm.trans (outputPath_eq_some.mpr ⟨path, given, not_empty, rfl⟩)
      exact filled_of_replaced replaced
  | unwritten output grown fault logged =>
    rename_i c p
    obtain ⟨path, given, not_empty, rfl⟩ := outputPath_eq_some.mp output
    have spared : Spared places a (some c) before after :=
      .inr ⟨path, rfl, given, not_empty, grown⟩
    -- a fault is reported, unless it is that no file can have the path
    have reported (report : Report) (ended : writeFailureReport a logged fault = .ok report) :
        report.code = 1 ∧ report.out = [] := by
      match fault with
      | .os fault =>
        simp only [writeFailureReport] at ended
        split at ended
        · cases ended
        · cases ended
          exact ⟨rfl, rfl⟩
      | .writer reason =>
        cases ended
        exact ⟨rfl, rfl⟩
    constructor
    case code => exact fun report ended => .inr (reported report ended).1
    case aborted => exact fun _ _ => spared
    case failed => exact fun report ended _ => ⟨(reported report ended).2, spared⟩
    case succeeded =>
      intro report ended zero
      cases zero.symm.trans (reported report ended).1

/-! ### Reports in data -/

theorem run_compose [DataReaders] : fs.run (compose places a) st =
    match (fs.run (attempt places a) st).1 with
    | .error abort => (.error abort, (fs.run (attempt places a) st).2)
    | .ok attempted => fs.run (report places a attempted) (fs.run (attempt places a) st).2 := by
  unfold compose
  rw [FileSystem.run_bind]
  cases (fs.run (attempt places a) st).1 with
  | error abort => rfl
  | ok attempted => rfl

/-- The form of the report makes a difference to neither the files nor the exit code. -/
theorem compose_withJson [DataReaders] (json : Bool) :
    (fs.run (compose places (a.withJson json)) st).2 = (fs.run (compose places a) st).2 ∧
      (fs.run (compose places (a.withJson json)) st).1.map Report.code =
        (fs.run (compose places a) st).1.map Report.code := by
  -- what is attempted and where it is written have nothing to do with the form
  have same : attempt places (a.withJson json) = attempt places a := rfl
  rw [run_compose, run_compose, same]
  cases (fs.run (attempt places a) st).1 with
  | error abort => exact ⟨rfl, rfl⟩
  | ok attempted =>
    dsimp only
    rw [run_report, run_report]
    cases attempted.result with
    | error obstacle => exact ⟨rfl, rfl⟩
    | ok c =>
      have same_name : (a.withJson json).outputName = a.outputName := rfl
      dsimp only
      rw [same_name]
      cases a.outputName.bind (homeFault? places) with
      | some fault => exact ⟨rfl, rfl⟩
      | none =>
        refine ⟨rfl, ?_⟩
        dsimp only
        rw [map_code_writtenReport, map_code_writtenReport]
        rfl

/-- A run with a report in data does the same as another one, and shows its document. -/
structure InData {σ : Type} (output : Option FilePath) (document : Option Composition)
    (inData other : Except Abort Report × σ) : Prop where
  /-- It leaves the same files. -/
  files : inData.2 = other.2
  /-- It has the same exit code, or ends without a report for the same reason. -/
  codes : inData.1.map Report.code = other.1.map Report.code
  /-- After a success it shows the text and the errors of the document. -/
  payload : ∀ report, inData.1 = .ok report → report.code = 0 →
    ∃ c, document = some c ∧ report.out = dataLines (dataFields output c)

theorem compose_inData [DataReaders] : InData (outputPath places a) (documentOf places a fs st)
    (fs.run (compose places (a.withJson true)) st) (fs.run (compose places a) st) where
  files := (compose_withJson true).1
  codes := (compose_withJson true).2
  payload report reported zero := by
    obtain ⟨c, document, emitted⟩ := compose_ends.emits.succeeded report reported zero
    exact ⟨c, document, emitted.shows.data rfl⟩

/-! ### The command line -/

/-- What a command line does that asks for a document, as it is read by a reader that
    drops two dashes in the place of a value or by one that does not. -/
structure DocumentOnSuccess [DataReaders] (places : FilePath.Places) (dropsDashes : Bool)
    (fs : FileSystem) (st : fs.State) (arguments : List Text) (a : ComposeArguments) : Prop where
  /-- There is a document where one is composed of what the arguments are read as. -/
  document : ∀ c, documentOf places a fs st = some c ↔
    ∃ slots config plan, ComposedOf places a fs st slots config plan c
  /-- It is emitted if the command succeeds, and only then. -/
  emits : EmitsOnSuccess places a (documentOf places a fs st) (fs.tree st)
    (fs.run (run places arguments dropsDashes) st).1
    (fs.tree (fs.run (run places arguments dropsDashes) st).2)
  /-- With the option `--json` behind the name of the command, the same is done and shown. -/
  inData : ∃ rest, arguments = "compose".toList :: rest ∧
    InData (outputPath places a) (documentOf places a fs st)
      (fs.run (run places ("compose".toList :: "--json".toList :: rest) dropsDashes) st)
      (fs.run (run places arguments dropsDashes) st)

/-- The texts of the configuration consist of characters. Half a pair is none: a text
    with one in it could be composed, but neither printed nor written. -/
def OfCharacters [DataReaders] (places : FilePath.Places) (fs : FileSystem) (st : fs.State)
    (a : ComposeArguments) : Prop :=
  (fs.run (a.loadConfig places) st).1 ≠ .error (.value .loneSurrogate)

/-- A tree with a template in the root directory. -/
def templateTree : FileTree where
  cwd := []
  entries := [(["t.md".toList], .file (Utf8.encode "x".toList))]

end Cli

end MarkdownOutlets
