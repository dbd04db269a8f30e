import MarkdownOutlets.Config.Configuration
import MarkdownOutlets.Config.SlotArgument
import MarkdownOutlets.Document.OptionsReading

/-! # Plans

  A plan is a document to compose and the options for it. It is put together
  from layers: what an argument says counts before what the configuration
  says, and that before the standard options.
-/

namespace MarkdownOutlets

namespace Config

/-- What the caller says beside the configuration. -/
structure Arguments where
  /-- The path of the template. -/
  template : Option Text := none
  /-- The slots. -/
  slots : SlotArguments := []
  /-- The options; those that are null are not given. -/
  options : Entries := []
  /-- The directory that the paths are relative to. -/
  cwd : FilePath
  deriving Repr

/-- Why there is no plan. -/
inductive PlanFault
  /-- A path starts with a home directory that is not there. -/
  | home (fault : FilePath.HomeFault)
  /-- The arguments, or the options of the configuration, are malformed. -/
  | invalid (reason : Invalid)
  deriving DecidableEq, Repr

/-- A document and the options to compose it with. -/
structure Plan where
  /-- The path of the template. -/
  template : Text
  /-- Its slots. -/
  slots : Slots
  /-- The options. -/
  options : Options
  deriving Repr

namespace Plan

/-- The document of a plan. -/
def document (p : Plan) : Document := { body := .source p.template, slots := p.slots }

/-- The template: the argument unless it is empty, else that of the
    configuration. -/
def templateOf (places : FilePath.Places) (config : Option Configuration) (a : Arguments) :
    Except Invalid Text :=
  match a.template, config.bind (·.template) with
  | some (c :: path), _ => .ok (places.within a.cwd (c :: path))
  | _, some template => .ok template
  | _, none => .error .templateRequired

/-- The directory of files among the slot arguments. -/
def slotBase (config : Option Configuration) (a : Arguments) : FilePath :=
  match config with
  | some c => c.path.parent
  | none => a.cwd

/-- The slots: those of the configuration under those of the arguments. -/
def slotsOf (places : FilePath.Places) (config : Option Configuration) (a : Arguments) : Slots :=
  let under : Slots := (config.map (·.slots)).getD []
  under.overlay (a.slots.toSlots places (slotBase config a))

/-- The entries of one mapping on top of those of another one. -/
def overlay (entries top : Entries) : Entries :=
  top.foldl (fun sofar entry => sofar.put entry.1 entry.2) entries

/-- The options of all layers. -/
def optionEntries (config : Option Configuration) (a : Arguments) : Entries :=
  overlay (overlay defaults ((config.map (·.options)).getD []))
    (a.options.filter fun entry => !entry.2.isNull)

/-- The plan for a configuration, if there is one, and arguments whose paths
    start with no home directory that is not there. -/
def make (places : FilePath.Places) (config : Option Configuration) (a : Arguments) :
    Except Invalid Plan := do
  let template ← templateOf places config a
  let options ← Options.check (.dict (optionEntries config a))
  return { template, slots := slotsOf places config a, options }

/-- What is wrong with the home directories that paths among the arguments
    start with: that of the template first, and then, when a template is
    known, those of the files of slots. -/
def homeFault? (places : FilePath.Places) (config : Option Configuration) (a : Arguments) :
    Option FilePath.HomeFault :=
  let inTemplate := a.template.bind (Config.homeFault? places)
  let inSlots := a.slots.findSome? fun (_, value) =>
    match value with
    | '@' :: path => Config.homeFault? places path
    | _ => none
  match templateOf places config a with
  | .ok _ => inTemplate.or inSlots
  | .error _ => none

/-- Asks for the plan for a configuration, if there is one, and arguments. -/
def request (places : FilePath.Places) (config : Option Configuration) (a : Arguments) :
    Except PlanFault Plan :=
  match homeFault? places config a with
  | some fault => .error (.home fault)
  | none => (make places config a).mapError .invalid

theorem request_eq_ok {places : FilePath.Places} {config : Option Configuration} {a : Arguments}
    {plan : Plan} :
    request places config a = .ok plan ↔
      homeFault? places config a = none ∧ make places config a = .ok plan := by
  unfold request
  cases homeFault? places config a with
  | some fault => simp
  | none =>
    cases make places config a with
    | error reason => exact iff_of_false nofun nofun
    | ok made =>
      constructor
      · rintro ⟨⟩
        exact ⟨rfl, rfl⟩
      · rintro ⟨-, ⟨⟩⟩
        rfl

theorem request_eq_home {places : FilePath.Places} {config : Option Configuration} {a : Arguments}
    {fault : FilePath.HomeFault} :
    request places config a = .error (.home fault) ↔ homeFault? places config a = some fault := by
  unfold request
  cases homeFault? places config a with
  | some other => simp
  | none => cases make places config a <;> exact iff_of_false nofun nofun

theorem request_eq_invalid {places : FilePath.Places} {config : Option Configuration}
    {a : Arguments} {reason : Invalid} :
    request places config a = .error (.invalid reason) ↔
      homeFault? places config a = none ∧ make places config a = .error reason := by
  unfold request
  cases homeFault? places config a with
  | some fault => simp
  | none =>
    cases make places config a with
    | error other =>
      constructor
      · rintro ⟨⟩
        exact ⟨rfl, rfl⟩
      · rintro ⟨-, ⟨⟩⟩
        rfl
    | ok made => exact iff_of_false nofun nofun

end Plan

end Config

end MarkdownOutlets
