import MarkdownOutlets.Cli.Command
import MarkdownOutlets.Proofs.Composition.SourcePaths
import MarkdownOutlets.Proofs.Config.Grammar
import MarkdownOutlets.Proofs.Config.OptionLayers
import MarkdownOutlets.Proofs.Path.NormalForm

/-! # Requests that do not depend on where they are made

  The paths of a plan come from four sides: the template among the arguments is
  relative to the working directory, the files of slot arguments to that or to
  the directory of the configuration, the paths of the configuration to its
  directory, and any of them may be in the home directory or absolute. All of
  them are made absolute and normal when the plan is made. A source in files
  then takes each of them as it is, whatever the base is.

  The main statement, `location_closed`, draws the consequence. The two options
  that say what paths are relative to have no say in a plan, nor in what the
  command to compose a document does.
-/

namespace MarkdownOutlets

open FilePath

/-! ### Paths that are settled -/

/-- A source in files takes a settled path as it is. -/
theorem FileSource.resolve_of_isSettled {path : Text} (settled : IsSettled path) (s : FileSource)
    (base : Option Text) (mode : ResolveFrom) : s.resolve path base mode = path := by
  obtain ⟨absolute, written⟩ := settled
  unfold FileSource.resolve
  simp only [expand_of_isAbsolute absolute, absolute, if_true]
  exact written

variable {places : Places}

/-- A path that was made absolute below a directory is settled. -/
theorem isSettled_within (homes : places.HasProperHomes) {base : FilePath}
    (absolute : base.isAbsolute = true) (proper : base.IsProper) (t : Text) :
    IsSettled (places.within base t) := by
  unfold Places.within
  refine isSettled_toText ?_ ?_
  · rw [isAbsolute_normal]
    exact isAbsolute_join absolute _
  · exact (proper.join ((isProper_ofText t).expand homes)).normal

namespace Config

/-! ### The paths of a plan -/

/-- All paths of a configuration are settled, and its file has an absolute path. -/
structure Configuration.IsSettled (config : Configuration) : Prop where
  /-- The template. -/
  template : ∀ t, config.template = some t → FilePath.IsSettled t
  /-- The files of slots. -/
  slots : ∀ path ∈ Slots.sourcePaths config.slots, FilePath.IsSettled path
  /-- The file is absolute. -/
  absolute : config.path.isAbsolute = true
  /-- Its path consists of names. -/
  proper : config.path.IsProper

/-- The paths of the configuration in a file are settled. -/
theorem settled_of_file (sound : places.IsSound) {path : Text} {config : Configuration}
    (of_file : OfFile places path config) : config.IsSettled := by
  obtain ⟨data, is_data, is_config⟩ := of_file
  obtain ⟨slots, -, rfl⟩ := ofData_eq_ok.mp is_config
  have absolute : (configPath places path).isAbsolute = true := isAbsolute_absolute sound.absolute _
  have proper : (configPath places path).IsProper :=
    ((isProper_ofText path).expand sound.homes).absolute sound.cwd
  have settled (t : Text) : FilePath.IsSettled (places.within (configPath places path).parent t) :=
    isSettled_within sound.homes ((isAbsolute_parent _).trans absolute) proper.parent t
  refine ⟨fun t is_template => ?_, fun file mem => ?_, absolute, proper⟩
  · obtain ⟨raw, -, rfl⟩ := Option.map_eq_some_iff.mp is_template
    exact settled raw
  · rw [Slots.sourcePaths_mapPaths] at mem
    obtain ⟨raw, -, rfl⟩ := List.mem_map.mp mem
    exact settled raw

/-- The path of a slot argument is settled. -/
theorem settled_slotOf (homes : places.HasProperHomes) {base : FilePath}
    (absolute : base.isAbsolute = true) (proper : base.IsProper) (value : Text) :
    ∀ path ∈ (SlotArguments.slotOf places base value).sourcePaths, FilePath.IsSettled path := by
  intro path mem
  unfold SlotArguments.slotOf at mem
  split at mem
  · rw [List.mem_singleton.mp mem]
    exact isSettled_within homes absolute proper _
  · cases mem

section plans

variable {config : Option Configuration} {a : Arguments} {plan : Plan}
  (homes : places.HasProperHomes) (absolute : a.cwd.isAbsolute = true) (proper : a.cwd.IsProper)
  (settled : ∀ c, config = some c → c.IsSettled)
include homes absolute proper settled

theorem settled_template {template : Text} (found : Plan.templateOf places config a = .ok template) :
    FilePath.IsSettled template := by
  unfold Plan.templateOf at found
  split at found
  · rw [← Except.ok.inj found]
    exact isSettled_within homes absolute proper _
  · rename_i from_config _
    obtain ⟨c, is_config, is_template⟩ := Option.bind_eq_some_iff.mp from_config
    rw [← Except.ok.inj found]
    exact (settled c is_config).template _ is_template
  · cases found

theorem settled_slots : ∀ path ∈ Slots.sourcePaths (Plan.slotsOf places config a),
    FilePath.IsSettled path := by
  have base : (Plan.slotBase config a).isAbsolute = true ∧ (Plan.slotBase config a).IsProper := by
    cases config with
    | none => exact ⟨absolute, proper⟩
    | some c =>
      have of_file := settled c rfl
      exact ⟨(isAbsolute_parent _).trans of_file.absolute, of_file.proper.parent⟩
  intro path mem
  rcases Slots.mem_sourcePaths_overlay mem with mem | mem
  · cases config with
    | none => cases mem
    | some c => exact (settled c rfl).slots path mem
  · obtain ⟨entry, entry_mem, mem⟩ := Slots.mem_sourcePaths.mp mem
    obtain ⟨⟨name, value⟩, -, rfl⟩ := List.mem_map.mp entry_mem
    exact settled_slotOf homes base.1 base.2 value path mem

/-- Every path in the document of a plan is settled. -/
theorem settled_plan (made : Plan.make places config a = .ok plan) :
    ∀ path ∈ plan.document.sourcePaths, FilePath.IsSettled path := by
  obtain ⟨template, found, made⟩ := ok_of_bind made
  obtain ⟨options, -, made⟩ := ok_of_bind made
  obtain rfl := Except.ok.inj made
  intro path mem
  rcases List.mem_append.mp mem with mem | mem
  · rw [List.mem_singleton.mp mem]
    exact settled_template homes absolute proper settled found
  · exact settled_slots homes absolute proper settled path mem

end plans

/-! ### The process of settled paths -/

/-- With settled paths only, neither the options about paths nor the directory of the
    source matter to the process. -/
theorem document_settled {d : Document} (settled : ∀ path ∈ d.sourcePaths, FilePath.IsSettled path)
    (s s' : FileSource) (o : Options) (basePath : Option Text) (resolveFrom : ResolveFrom) :
    Engine.document s'.resolve { o with basePath, resolveFrom } d = Engine.document s.resolve o d := by
  have itself (s : FileSource) (o : Options) (path : Text) (mem : path ∈ d.sourcePaths)
      (document : Option Text) : Engine.sourcePath s.resolve o path document = path := by
    unfold Engine.sourcePath
    split
    · exact FileSource.resolve_of_isSettled (settled path mem) s _ _
    · exact FileSource.resolve_of_isSettled (settled path mem) s _ _
  have same : Engine.SameSources s.resolve s'.resolve o { o with basePath, resolveFrom } id
      d.sourcePaths := by
    intro path mem document
    rw [id_eq, itself s' _ path mem, itself s o path mem]
  have rules : Rules.ofOptions { o with basePath, resolveFrom } = Rules.ofOptions o := rfl
  exact Engine.document_congr rules d same

/-- So a document is composed by the same requests, to the same result. -/
theorem compose_settled {d : Document} (settled : ∀ path ∈ d.sourcePaths, FilePath.IsSettled path)
    (s : FileSource) (call : Callback → FileProgram (Except Text Content)) (o : Options)
    (basePath : Option Text) (resolveFrom : ResolveFrom) (shared : Cache) :
    (s.host call).composeDocument d { o with basePath, resolveFrom } shared =
      (s.host call).composeDocument d o shared := by
  have same_process := document_settled settled s s o basePath resolveFrom
  unfold Host.composeDocument
  change (s.host call).composeWith (Engine.document s.resolve _ d) o.cache shared = _
  rw [same_process]
  rfl

/-! ### Options that differ in what paths are relative to -/

/-- Options that follow the schema, each of them given once. -/
structure OwnOptions (own : Entries) : Prop extends Acceptable own where
  /-- No key occurs twice. -/
  distinct : own.keys.Nodup

theorem ownOptions_nil : OwnOptions [] where
  keys := fun _ mem => absurd mem List.not_mem_nil
  basePath := fun _ found => by cases found
  resolveFrom := fun _ found => by cases found
  maxDepth := fun _ found => by cases found
  onMissingSlot := fun _ found => by cases found
  onFileError := fun _ found => by cases found
  parallel := fun _ found => by cases found
  distinct := List.nodup_nil

/-- Text keys that are not the same key are different. -/
theorem nodup_keys_of_distinct {entries : Entries} (distinct : entries.Distinct)
    (texts : ∀ key ∈ entries.keys, ∃ t, key = .text t) : entries.keys.Nodup := by
  unfold Entries.keys at texts ⊢
  refine List.pairwise_map.mpr (List.Pairwise.imp_of_mem (fun {a b} mem _ apart same => ?_) distinct)
  obtain ⟨t, is_text⟩ := texts a.1 (List.mem_map_of_mem mem)
  rw [← same, is_text] at apart
  simp at apart

/-- The options of the configuration in a file. -/
theorem ownOptions_of_file {path : Text} {config : Configuration}
    (of_file : OfFile places path config) : OwnOptions config.options := by
  obtain ⟨data, is_data, is_config⟩ := of_file
  obtain ⟨-, ⟨-, accepted, -, -⟩, -⟩ := ofData_eq_ok.mp is_config
  have acceptable := acceptable accepted
  rw [options_ofData is_config]
  refine ⟨acceptable, nodup_keys_of_distinct ?_ fun key mem => ?_⟩
  · obtain ⟨entries, rfl⟩ := dict_of_schemaFaults is_data accepted
    unfold optionsIn
    cases is_data with
    | dict _ each =>
      rw [Rule.members?, Option.getD_some]
      cases found : entries.field? "options" with
      | none => exact List.Pairwise.nil
      | some v =>
        have v_data := each _ (Entries.mem_of_field? found)
        cases v_data with
        | scalar s => exact List.Pairwise.nil
        | list _ => exact List.Pairwise.nil
        | dict distinct _ => exact distinct
  · exact texts_of_spelled acceptable.keys key mem

/-- Records that differ in what paths are relative to give the same options but for
    that. -/
theorem ofRecord_resolveFrom {given given' : Entries} {mode mode' : ResolveFrom}
    (same : ∀ name : String, name ≠ "resolve_from" → given'.field? name = given.field? name)
    (chosen : given.field? "resolve_from" = some (.text mode.word))
    (chosen' : given'.field? "resolve_from" = some (.text mode'.word)) :
    Options.ofRecord given' =
      (Options.ofRecord given).map fun o => { o with resolveFrom := mode' } := by
  have reads (c : ResolveFrom) : Options.choice? ResolveFrom.words (.text c.word) = some c := by
    cases c <;> rfl
  have field_eq (name : String) (other : name ≠ "resolve_from") {α : Type} (standard : α)
      (reason : Invalid) (read : Value → Option α) :
      Options.field given' name standard reason read = Options.field given name standard reason read := by
    unfold Options.field
    rw [same name other]
  have mode_eq (standard : ResolveFrom) (reason : Invalid) : Options.field given "resolve_from"
      standard reason (Options.choice? ResolveFrom.words) = .ok mode := by
    unfold Options.field
    rw [chosen]
    exact congrArg (Options.orElse reason) (reads mode)
  have mode_eq' (standard : ResolveFrom) (reason : Invalid) : Options.field given' "resolve_from"
      standard reason (Options.choice? ResolveFrom.words) = .ok mode' := by
    unfold Options.field
    rw [chosen']
    exact congrArg (Options.orElse reason) (reads mode')
  unfold Options.ofRecord
  dsimp only
  rw [field_eq "max_depth" (by decide), field_eq "on_missing_slot" (by decide),
    field_eq "on_file_error" (by decide), field_eq "parallel" (by decide),
    field_eq "cache" (by decide), field_eq "base_path" (by decide), mode_eq, mode_eq']
  -- The other fields are read in turn, and the first fault is that of both.
  rcases Options.field given "max_depth" _ _ _ with fault | maxDepth
  · rfl
  rcases Options.field given "on_missing_slot" _ _ _ with fault | onMissingSlot
  · rfl
  rcases Options.field given "on_file_error" _ _ _ with fault | onFileError
  · rfl
  rcases Options.field given "parallel" _ _ _ with fault | parallel
  · rfl
  rcases Options.field given "cache" _ _ _ with fault | cache
  · rfl
  rcases Options.field given "base_path" _ _ _ with fault | basePath
  · rfl
  · rfl

/-- Mappings of options that differ in what paths are relative to give the same options
    but for that. -/
theorem check_resolveFrom {entries entries' : Entries} {mode mode' : ResolveFrom}
    (names : ∀ key ∈ entries.keys, ∃ n ∈ spelled, key = .text n.2.toList)
    (names' : ∀ key ∈ entries'.keys, ∃ n ∈ spelled, key = .text n.2.toList)
    (distinct : entries.keys.Nodup) (distinct' : entries'.keys.Nodup)
    (same : ∀ n ∈ spelled, n.2 ≠ "resolveFrom" → entries'.field? n.2 = entries.field? n.2)
    (chosen : entries.field? "resolveFrom" = some (.text mode.word))
    (chosen' : entries'.field? "resolveFrom" = some (.text mode'.word)) :
    Options.check (.dict entries') =
      (Options.check (.dict entries)).map fun o => { o with resolveFrom := mode' } := by
  obtain ⟨given, read, fields, others⟩ := canonical_go names distinct []
  obtain ⟨given', read', fields', others'⟩ := canonical_go names' distinct' []
  have mem : ("resolve_from", "resolveFrom") ∈ spelled := by decide
  have given_eq (name : String) (other : name ≠ "resolve_from") :
      given'.field? name = given.field? name := by
    -- The record has a field for each spelling, with its value, and no other fields.
    by_cases is_spelled : ∃ n ∈ spelled, name = n.1
    · obtain ⟨n, n_mem, rfl⟩ := is_spelled
      have spelling : n.2 ≠ "resolveFrom" := by
        intro is_mode
        have name_eq := (spelled_injective n n_mem _ mem).mpr (congrArg String.toList is_mode)
        exact other (String.toList_inj.mp name_eq)
      rw [fields n n_mem, fields' n n_mem, same n n_mem spelling]
    · have unknown : ∀ n ∈ spelled, name.toList ≠ n.1.toList :=
        fun n n_mem name_eq => is_spelled ⟨n, n_mem, String.toList_inj.mp name_eq⟩
      rw [others name unknown, others' name unknown]
  have given_mode := fields _ mem
  have given_mode' := fields' _ mem
  rw [chosen] at given_mode
  rw [chosen'] at given_mode'
  rw [check_canonical read, check_canonical read']
  exact ofRecord_resolveFrom given_eq given_mode given_mode'

end Config

/-! ### The command -/

namespace Cli

open Config

/-! #### The options among the arguments -/

section options

variable (a : ComposeArguments)

/-- The arguments with a choice of what paths are relative to. -/
def ComposeArguments.withMode (a : ComposeArguments) (g : Given ResolveFrom) : ComposeArguments :=
  { a with resolveFrom := g }

/-- The options that the arguments give. -/
def givenOptions (a : ComposeArguments) : Entries := a.options.filter fun entry => !entry.2.isNull

theorem keys_givenOptions : (givenOptions a).keys.Sublist a.options.keys :=
  List.Sublist.map _ List.filter_sublist

theorem spelled_givenOptions : ∀ key ∈ (givenOptions a).keys, ∃ n ∈ spelled, key = .text n.2.toList := by
  intro key mem
  have keys_eq : a.options.keys = ["onMissingSlot", "onFileError", "resolveFrom", "maxDepth",
      "parallel"].map fun name => Scalar.text name.toList := rfl
  have mem := (keys_givenOptions a).subset mem
  rw [keys_eq] at mem
  have all_spelled : ∀ key ∈ ["onMissingSlot", "onFileError", "resolveFrom", "maxDepth",
      "parallel"].map (fun name : String => Scalar.text name.toList),
      ∃ n ∈ spelled, key = .text n.2.toList := by decide
  exact all_spelled key mem

theorem nodup_options : a.options.keys.Nodup := by
  have distinct : (["onMissingSlot", "onFileError", "resolveFrom", "maxDepth",
      "parallel"].map fun name : String => Scalar.text name.toList).Nodup := by decide
  exact distinct

theorem nodup_givenOptions : (givenOptions a).keys.Nodup := by
  exact List.Nodup.sublist (keys_givenOptions a) (nodup_options a)

/-- What paths are relative to is one of the options, and no other one. -/
theorem field?_options_resolveFrom (g : Given ResolveFrom) {name : String}
    (other : name ≠ "resolveFrom") :
    (a.withMode g).options.field? name = a.options.field? name := by
  have apart : (Scalar.text "resolveFrom".toList).sameKey (.text name.toList) = false := by
    rw [Scalar.sameKey_text, decide_eq_false_iff_not]
    exact fun same => other (String.toList_inj.mp (Scalar.text.inj same)).symm
  unfold ComposeArguments.withMode ComposeArguments.options Entries.field?
  simp only [List.map_cons, List.map_nil, Entries.get?, apart, Bool.false_eq_true, if_false]

/-- An option that is null is not given. -/
theorem field?_givenOptions (name : String) :
    (givenOptions a).field? name = (a.options.field? name).filter fun v => !v.isNull := by
  exact Entries.get?_filter (nodup_options a) (fun v => !v.isNull) name.toList

/-- The options of all layers. -/
def layered (own : Entries) (a : ComposeArguments) : Entries :=
  Plan.overlay (Plan.overlay defaults own) (givenOptions a)

variable {own : Entries} (follows : OwnOptions own)
include follows

theorem spelled_layered : ∀ key ∈ (layered own a).keys, ∃ n ∈ spelled, key = .text n.2.toList := by
  have spelled_defaults : ∀ key ∈ defaults.keys, ∃ n ∈ spelled, key = .text n.2.toList := by decide
  intro key mem
  rcases Plan.mem_keys_overlay (texts_of_spelled (spelled_givenOptions a)) mem with mem | mem
  · rcases Plan.mem_keys_overlay (texts_of_spelled follows.keys) mem with mem | mem
    · exact spelled_defaults key mem
    · exact follows.keys key mem
  · exact spelled_givenOptions a key mem

theorem nodup_layered : (layered own a).keys.Nodup :=
  Plan.nodup_keys_overlay (texts_of_spelled (spelled_givenOptions a))
    (Plan.nodup_keys_overlay (texts_of_spelled follows.keys) (by decide))

/-- An argument counts before the configuration, and that before the standard. -/
theorem field?_layered (name : String) : (layered own a).field? name =
    ((a.options.field? name).filter fun v => !v.isNull).or
      ((own.field? name).or (defaults.field? name)) := by
  have given := field?_givenOptions a name
  unfold layered
  unfold Entries.field? at given ⊢
  rw [Plan.get?_overlay (texts_of_spelled (spelled_givenOptions a)) (nodup_givenOptions a),
    Plan.get?_overlay (texts_of_spelled follows.keys) follows.distinct, given]

/-- Unless its value is left out, what paths are relative to is a valid choice. -/
theorem mode_layered (given : a.resolveFrom ≠ .vacant) :
    ∃ mode : ResolveFrom, (layered own a).field? "resolveFrom" = some (.text mode.word) := by
  have argument : a.options.field? "resolveFrom" =
      some (ComposeArguments.optionValue (fun c => .text c.word) a.resolveFrom) := by
    simp [ComposeArguments.options, Entries.field?, Entries.get?]
  rw [field?_layered a follows, argument]
  cases mode : a.resolveFrom with
  | vacant => exact absurd mode given
  | value c => exact ⟨c, rfl⟩
  | nothing =>
    cases from_config : own.field? "resolveFrom" with
    | none => exact ⟨.file, rfl⟩
    | some v =>
      obtain ⟨c, rfl⟩ := follows.resolveFrom v from_config
      exact ⟨c, rfl⟩

/-- What paths are relative to has no influence on the other options. -/
theorem check_layered (given : a.resolveFrom ≠ .vacant) {g : Given ResolveFrom} (given' : g ≠ .vacant) :
    ∃ mode, Options.check (.dict (layered own (a.withMode g))) =
      (Options.check (.dict (layered own a))).map fun o => { o with resolveFrom := mode } := by
  obtain ⟨mode, chosen⟩ := mode_layered a follows given
  obtain ⟨mode', chosen'⟩ := mode_layered (a.withMode g) follows given'
  refine ⟨mode', check_resolveFrom (spelled_layered a follows) (spelled_layered _ follows)
    (nodup_layered a follows) (nodup_layered _ follows) (fun n mem other => ?_) chosen chosen'⟩
  rw [field?_layered _ follows, field?_layered a follows, field?_options_resolveFrom a g other]

end options

/-! #### Plans and reports -/

section commands

variable {places : FilePath.Places} (a : ComposeArguments) {g : Given ResolveFrom}

/-- The plan with a choice of what paths are relative to. -/
def withPlanMode (mode : ResolveFrom) (plan : Plan) : Plan :=
  { plan with options := { plan.options with resolveFrom := mode } }

/-- What paths are relative to has no influence on the rest of a plan, nor on whether
    there is one. -/
theorem make_withMode (places : FilePath.Places) {config : Option Configuration}
    (follows : OwnOptions ((config.map (·.options)).getD [])) (given : a.resolveFrom ≠ .vacant)
    (given' : g ≠ .vacant) (slots : SlotArguments) (cwd : FilePath) :
    ∃ mode, Plan.make places config ((a.withMode g).layer slots cwd) =
      (Plan.make places config (a.layer slots cwd)).map (withPlanMode mode) := by
  obtain ⟨mode, checked⟩ := check_layered a follows given given'
  refine ⟨mode, ?_⟩
  change (Plan.templateOf places config (a.layer slots cwd) >>= fun template =>
      Options.check (.dict (layered _ (a.withMode g))) >>= fun options => pure _) =
    (Plan.templateOf places config (a.layer slots cwd) >>= fun template =>
      Options.check (.dict (layered _ a)) >>= fun options => pure _).map _
  rw [checked]
  cases Plan.templateOf places config (a.layer slots cwd) with
  | error reason => rfl
  | ok template =>
    cases Options.check (.dict (layered ((config.map (·.options)).getD []) a)) with
    | error reason => rfl
    | ok options => rfl

theorem request_withMode (places : FilePath.Places) {config : Option Configuration}
    (follows : OwnOptions ((config.map (·.options)).getD [])) (given : a.resolveFrom ≠ .vacant)
    (given' : g ≠ .vacant) (slots : SlotArguments) (cwd : FilePath) :
    ∃ mode, Plan.request places config ((a.withMode g).layer slots cwd) =
      (Plan.request places config (a.layer slots cwd)).map (withPlanMode mode) := by
  obtain ⟨mode, made_eq⟩ := make_withMode a places follows given given' slots cwd
  have same_homes : Plan.homeFault? places config ((a.withMode g).layer slots cwd) =
      Plan.homeFault? places config (a.layer slots cwd) := rfl
  refine ⟨mode, ?_⟩
  unfold Plan.request
  rw [same_homes, made_eq]
  cases Plan.homeFault? places config (a.layer slots cwd) with
  | some fault => rfl
  | none => cases Plan.make places config (a.layer slots cwd) <;> rfl

/-- A plan with settled paths is composed alike. -/
theorem composePlan_withPlanMode {plan : Plan}
    (settled : ∀ path ∈ plan.document.sourcePaths, FilePath.IsSettled path) (mode : ResolveFrom) :
    composePlan places (withPlanMode mode plan) = composePlan places plan := by
  have composed := compose_settled settled { places } (fun _ => return .error []) plan.options
    plan.options.basePath mode []
  have same_document : (withPlanMode mode plan).document = plan.document := rfl
  unfold composePlan
  rw [same_document]
  exact congrArg (· >>= _) composed

/-- So is the document that the arguments ask for, with a configuration whose paths are
    settled. -/
theorem composeWith_withMode (sound : places.IsSound) {config : Option Configuration}
    (settled : ∀ c, config = some c → c.IsSettled)
    (follows : OwnOptions ((config.map (·.options)).getD [])) (given : a.resolveFrom ≠ .vacant)
    (given' : g ≠ .vacant) (slots : SlotArguments) :
    composeWith places (a.withMode g) slots config = composeWith places a slots config := by
  obtain ⟨mode, made_eq⟩ := request_withMode a places follows given given' slots places.cwd
  unfold composeWith
  rw [made_eq]
  cases made : Plan.request places config (a.layer slots places.cwd) with
  | error fault => cases fault <;> rfl
  | ok plan =>
    have plan_settled := settled_plan sound.homes sound.absolute sound.cwd settled
      (Plan.request_eq_ok.mp made).2
    simp only [Except.map]
    rw [composePlan_withPlanMode plan_settled mode]

/-- The configuration that the arguments name is that of a file. -/
theorem loadConfig_ends [DataReaders] [LawfulDataReaders] : FileProgram.Ends (fun result => ∀ c, result = .ok (some c) →
    ∃ path, OfFile places path c) (a.loadConfig places) := by
  unfold ComposeArguments.loadConfig
  split
  · refine .bind (load_ends places _) fun result holds => .done fun c is_config => ?_
    obtain ⟨config, is_loaded, same⟩ := ok_of_map is_config
    obtain rfl := Option.some.inj same
    exact ⟨_, holds _ is_loaded⟩
  · exact .done fun c is_config => by cases is_config

theorem attempt_withMode [DataReaders] [LawfulDataReaders] (sound : places.IsSound) (given : a.resolveFrom ≠ .vacant)
    (given' : g ≠ .vacant) : attempt places (a.withMode g) = attempt places a := by
  unfold attempt
  have same_slots : (a.withMode g).writtenSlots = a.writtenSlots := rfl
  rw [same_slots]
  cases SlotArguments.parse a.writtenSlots with
  | error reason => rfl
  | ok slots =>
    change (if a.writtenSlots.length < a.slots.length then _ else _) =
      if a.writtenSlots.length < a.slots.length then _ else _
    by_cases left_out : a.writtenSlots.length < a.slots.length
    · rw [if_pos left_out, if_pos left_out]
    · rw [if_neg left_out, if_neg left_out]
      refine FileProgram.Ends.bind_congr (loadConfig_ends a) fun result holds => ?_
      cases result with
      | error fault =>
        cases fault with
        | encoding fault => rfl
        | value fault => rfl
        | config fault => rfl
      | ok config =>
        -- The configuration, if there is one, is that of a file.
        have of_file (c : Configuration) (is_config : config = some c) : ∃ path, OfFile places path c :=
          holds c (congrArg Except.ok is_config)
        have settled (c : Configuration) (is_config : config = some c) : c.IsSettled := by
          obtain ⟨path, of_file⟩ := of_file c is_config
          exact settled_of_file sound of_file
        have follows : OwnOptions ((config.map (·.options)).getD []) := by
          cases config with
          | none => exact ownOptions_nil
          | some c =>
            obtain ⟨path, of_file⟩ := of_file c rfl
            exact ownOptions_of_file of_file
        exact composeWith_withMode a sound settled follows given given' slots

/-- What paths are relative to has no influence on the command. -/
theorem compose_withMode [DataReaders] [LawfulDataReaders] (sound : places.IsSound)
    (given : a.resolveFrom ≠ .vacant) (given' : g ≠ .vacant) : compose places (a.withMode g) = compose places a := by
  unfold compose
  rw [attempt_withMode a sound given given']
  rfl

end commands

end Cli

/-! ### The main statement -/

open Config

/-- A plan does not depend on where it is carried out. -/
structure Config.Plan.IsClosed (plan : Plan) : Prop where
  /-- Every path in the document is absolute. -/
  absolute : ∀ path ∈ plan.document.sourcePaths, (ofText path).isAbsolute = true
  /-- A source in files takes it as it is, whatever the base is. -/
  fixed : ∀ path ∈ plan.document.sourcePaths, ∀ (s : FileSource) (base : Option Text)
    (mode : ResolveFrom), s.resolve path base mode = path
  /-- The document is composed by the same requests to the same result, whatever the two
      options say that are about paths. -/
  outcome : ∀ (s : FileSource) (call : Callback → FileProgram (Except Text Content))
    (basePath : Option Text) (resolveFrom : ResolveFrom) (shared : Cache),
    (s.host call).composeDocument plan.document { plan.options with basePath, resolveFrom } shared =
      (s.host call).composeDocument plan.document plan.options shared

/-- Requests do not depend on what paths are said to be relative to. -/
structure LocationClosed [DataReaders] (places : Places) : Prop where
  /-- The plan for a configuration that was loaded, if any, and for arguments from an
      absolute directory is closed. -/
  plan : ∀ {config : Option Configuration} {a : Arguments} {plan : Plan},
    (∀ c, config = some c → ∃ (σ : Type) (answer : (r : FileRequest) → StateM σ r.Answer)
      (path : Text) (s : σ), loaded answer places path s = .ok c) →
    a.cwd.isAbsolute = true → a.cwd.IsProper → Plan.request places config a = .ok plan → plan.IsClosed
  /-- The command to compose a document does the same for every choice of what paths are
      relative to, and also without one. -/
  command : ∀ (a : Cli.ComposeArguments) (g : Cli.Given ResolveFrom), a.resolveFrom ≠ .vacant →
    g ≠ .vacant → Cli.compose places { a with resolveFrom := g } = Cli.compose places a

/-- All paths of a request are made absolute and normal, so that what they are relative
    to has no influence. -/
theorem location_closed [DataReaders] [LawfulDataReaders] (sound : places.IsSound) :
    LocationClosed places := by
  constructor
  case plan =>
    intro config a plan is_loaded absolute proper made
    have config_settled (c : Configuration) (is_config : config = some c) : c.IsSettled := by
      obtain ⟨σ, answer, path, s, loaded⟩ := is_loaded c is_config
      exact settled_of_file sound ((load_ends places path).run answer s c loaded)
    have settled := settled_plan sound.homes absolute proper config_settled
      (Plan.request_eq_ok.mp made).2
    refine ⟨fun path mem => (settled path mem).1, fun path mem s base mode => ?_,
      fun s call basePath resolveFrom shared => ?_⟩
    · exact FileSource.resolve_of_isSettled (settled path mem) s base mode
    · exact compose_settled settled s call plan.options basePath resolveFrom shared
  case command =>
    intro a g given given'
    exact Cli.compose_withMode a sound given given'

/-- An empty configuration file in a directory. -/
def emptyConfigTree : FileTree where
  cwd := []
  entries := [(["c".toList], .directory), (["c".toList, "c.yaml".toList], .file [])]

/-- A working directory and a home directory. -/
def workPlaces : Places where
  cwd := .ofText "/w".toList
  home := .ofText "/h".toList

theorem workPlaces_isSound : workPlaces.IsSound where
  absolute := rfl
  cwd := isProper_ofText _
  homes := Places.hasProperHomes_of_alone rfl (isProper_ofText _)

/-- A template with a detour, and a file above the root. -/
def detours : Arguments where
  template := some "x/../t.md".toList
  slots := [("s".toList, "@../../b.md".toList)]
  cwd := .ofText "/w".toList

theorem location_closed_detours : workPlaces.IsSound ∧ ∃ config plan,
    loaded (FileTree.answer []) workPlaces "/c/c.yaml".toList emptyConfigTree = .ok config ∧
    Plan.request workPlaces (some config) detours = .ok plan ∧
    plan.document.sourcePaths = ["/w/t.md".toList, "/b.md".toList] ∧ plan.IsClosed := by
  have empty_data : (Value.dict []).IsData :=
    .dict List.Pairwise.nil fun _ mem => absurd mem List.not_mem_nil
  have follows : ConfigData (.dict []) :=
    .mapping (fun _ mem => absurd mem List.not_mem_nil) (fun v found => by cases found)
      (fun v found => by cases found) fun v found => by cases found
  have homes (path : Text) (mem : PathIn (.dict []) path) : homeFault? workPlaces path = none := by
    rcases mem with no_template | ⟨slots, means, mem⟩
    · cases no_template
    · cases (show SlotsMean id (.dict []) slots from means)
      cases mem
  obtain ⟨⟨template, slots, options, path⟩, is_config, means⟩ :=
    ofData_of_configData empty_data follows (configPath workPlaces "/c/c.yaml".toList) homes
  obtain rfl : template = none := means.template
  obtain rfl : options = [] := means.options
  obtain rfl : path = configPath workPlaces "/c/c.yaml".toList := means.path
  have no_slots : SlotsMean _ (.dict []) slots := means.slots
  obtain rfl : slots = [] := by
    cases no_slots
    rfl
  have read : ((FileProgram.run (FileTree.answer []) (FileProgram.readData
      (formatOf (configPath workPlaces "/c/c.yaml".toList))
      (configPath workPlaces "/c/c.yaml".toList))).run emptyConfigTree).1 = .ok .null := rfl
  have is_loaded : loaded (FileTree.answer []) workPlaces "/c/c.yaml".toList emptyConfigTree =
      .ok ⟨none, [], [], configPath workPlaces "/c/c.yaml".toList⟩ := by
    rw [loaded_eq _ _ _ _ rfl, read]
    exact is_config
  have of_config : ∀ c, some (⟨none, [], [], configPath workPlaces "/c/c.yaml".toList⟩ : Configuration) =
      some c → ∃ (σ : Type) (answer : (r : FileRequest) → StateM σ r.Answer) (path : Text) (s : σ),
        loaded answer workPlaces path s = .ok c := by
    intro c is_c
    obtain rfl := Option.some.inj is_c
    exact ⟨_, _, _, _, is_loaded⟩
  have made : Plan.request workPlaces
      (some ⟨none, [], [], configPath workPlaces "/c/c.yaml".toList⟩) detours =
      .ok ⟨"/w/t.md".toList, [(.text "s".toList, .source "/b.md".toList)],
        { resolveFrom := .file, parallel := true }⟩ := by rfl
  refine ⟨workPlaces_isSound, _, _, is_loaded, made, rfl, ?_⟩
  exact (location_closed workPlaces_isSound).plan of_config rfl (isProper_ofText _) made

end MarkdownOutlets
