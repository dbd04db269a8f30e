import MarkdownOutlets.Cli.Invocation
import MarkdownOutlets.Proofs.Data.FileData

/-! # Arguments of the command to compose a document

  A command line that asks for a document starts with the name of the command
  (`Invocation.starts_of_compose`). With the option `--json` right behind the name it asks
  for the same, but for the form in which it is reported (`Invocation.json_in_front`): the
  option is a part of its own, and all other parts are taken as before.
-/

namespace MarkdownOutlets

namespace Cli

/-- The same arguments, with the report in the other form or in this one. -/
def ComposeArguments.withJson (a : ComposeArguments) (json : Bool) : ComposeArguments :=
  { a with json }

variable {dropsDashes : Bool}

/-! ### Readings -/

namespace Grammar

variable {κ : Type} {g : Grammar κ}

/-- The tokens of a command line are its arguments. -/
theorem map_fst_tokens {arguments : List Text} {tokens : List (Token κ)}
    (read : g.tokens arguments = some tokens) : tokens.map Prod.fst = arguments := by
  induction arguments generalizing tokens with
  | nil =>
    cases read
    rfl
  | cons t rest ih =>
    rw [Grammar.tokens] at read
    split at read
    · cases read
      simp [Function.comp_def]
    · obtain ⟨role, -, read⟩ := Option.bind_eq_some_iff.mp read
      obtain ⟨others, others_read, read⟩ := Option.bind_eq_some_iff.mp read
      cases read
      rw [List.map_cons, ih others_read]

/-- The tokens of a command line whose first argument is not the one of two dashes. -/
theorem tokens_cons {t : Text} (other : t ≠ dashes) {role : Role κ}
    (looks : g.classify t = some role) (rest : List Text) :
    g.tokens (t :: rest) = (g.tokens rest).map ((t, role) :: ·) := by
  rw [Grammar.tokens, if_neg other, looks]
  cases g.tokens rest <;> rfl

end Grammar

/-! ### The option in front -/

/-- An option without value in front of a command line is a part of its own. -/
theorem read_flag {g : Grammar Key} {t : Text} (rule : OptionRule Key) (other : t ≠ dashes)
    (looks : g.classify t = some (.option rule .nothing)) (no_value : rule.takesValue = false)
    {rest : List Text} {tokens : List (Token Key)} (read : g.tokens rest = some tokens) :
    g.read (t :: rest) = (g.read rest).withParts [.flag rule.key] := by
  have alone : g.expand rule .nothing = some ([.flag rule.key], .complete) := by
    rw [Grammar.expand, Grammar.alone, no_value]
    rfl
  rw [Grammar.read, Grammar.read, Grammar.tokens_cons other looks, read]
  show g.readTokens (some g.operands) ((t, .option rule .nothing) :: tokens) = _
  rw [Grammar.readTokens, alone]

/-- Every part is taken in the same way when the report is to be in data. -/
theorem takeCompose_withJson (a : ComposeArguments) (part : Part Key) :
    takeCompose (a.withJson true) part = (takeCompose a part).map (·.withJson true) := by
  have of_word {α : Type} (read : Option α) (set : ComposeArguments → α → ComposeArguments)
      (apart : ∀ a x, set (a.withJson true) x = (set a x).withJson true) :
      (do return set (a.withJson true) (← orMisuse read) : Except Invocation ComposeArguments) =
        (do return set a (← orMisuse read) : Except Invocation ComposeArguments).map
          (·.withJson true) := by
    cases read with
    | none => rfl
    | some x => exact congrArg Except.ok (apart a x)
  cases part with
  | flag key => cases key <;> rfl
  | vacant key => cases key <;> rfl
  | operand path => rfl
  | command name arguments => rfl
  | setting key value =>
    cases key with
    | onMissingSlot =>
      exact of_word _ (fun a x => { a with onMissingSlot := .value x }) fun _ _ => rfl
    | onFileError => exact of_word _ (fun a x => { a with onFileError := .value x }) fun _ _ => rfl
    | resolveFrom => exact of_word _ (fun a x => { a with resolveFrom := .value x }) fun _ _ => rfl
    | maxDepth => exact of_word _ (fun a x => { a with maxDepth := .value x }) fun _ _ => rfl
    | _ => rfl

theorem foldlM_takeCompose_withJson (parts : List (Part Key)) (a : ComposeArguments) :
    parts.foldlM takeCompose (a.withJson true) =
      (parts.foldlM takeCompose a).map (·.withJson true) := by
  induction parts generalizing a with
  | nil => rfl
  | cons part rest ih =>
    rw [List.foldlM_cons, List.foldlM_cons, takeCompose_withJson]
    cases takeCompose a part with
    | error settled => rfl
    | ok b => exact ih b

theorem takeParts_eq_ok {α : Type} {take : α → Part Key → Except Invocation α} {start a : α}
    {r : Reading Key} : takeParts take start r = .ok a ↔
      r.parts.foldlM take start = .ok a ∧ r.complete = true := by
  unfold takeParts
  rw [bind_eq_ok]
  constructor
  · intro ⟨b, taken, ends⟩
    split at ends
    · rename_i complete
      cases ends
      exact ⟨taken, complete⟩
    · cases ends
  · intro ⟨taken, complete⟩
    exact ⟨a, taken, by rw [if_pos complete]; rfl⟩

/-- With the option in front, the command takes the same arguments, for a report in data. -/
theorem takeCommand_json {rest : List Text} {a : ComposeArguments} {extras : List Text}
    (taken : takeCommand dropsDashes "compose".toList rest = .ok (.compose a, extras)) :
    takeCommand dropsDashes "compose".toList ("--json".toList :: rest) =
      .ok (.compose (a.withJson true), extras) := by
  unfold takeCommand at taken ⊢
  rw [if_pos rfl] at taken ⊢
  obtain ⟨b, parts, ends⟩ := ok_of_bind taken
  cases ends
  obtain ⟨taken, complete⟩ := takeParts_eq_ok.mp parts
  cases tokens_eq : (composeGrammar dropsDashes).tokens rest with
  | none =>
    -- then the arguments could not be read at all
    rw [Grammar.read, tokens_eq] at complete
    cases complete
  | some tokens =>
    have reading : (composeGrammar dropsDashes).read ("--json".toList :: rest) =
        ((composeGrammar dropsDashes).read rest).withParts [.flag .json] :=
      read_flag (flag .json ["--json"]) (by decide) rfl rfl tokens_eq
    have first : takeCompose {} (.flag .json) = .ok (ComposeArguments.withJson {} true) := rfl
    have all : takeParts takeCompose {} ((composeGrammar dropsDashes).read ("--json".toList :: rest)) =
        .ok (a.withJson true) := by
      rw [reading, takeParts_eq_ok]
      refine ⟨?_, complete⟩
      show ([Part.flag Key.json] ++ ((composeGrammar dropsDashes).read rest).parts).foldlM takeCompose {} = _
      rw [List.singleton_append, List.foldlM_cons, first]
      show ((composeGrammar dropsDashes).read rest).parts.foldlM takeCompose (ComposeArguments.withJson {} true) = _
      rw [foldlM_takeCompose_withJson, taken]
      rfl
    dsimp only
    rw [all, reading]
    rfl

/-! ### Command lines that ask for a document -/

section errors

variable {ε α β : Type} {asked : Invocation}

/-- An error of two steps is one of them. -/
theorem bind_ne_error {e : ε} {x : Except ε α} {f : α → Except ε β} (first : x ≠ .error e)
    (second : ∀ a, f a ≠ .error e) : x >>= f ≠ .error e := by
  cases x with
  | error other =>
    intro failed
    have same : (Except.error other : Except ε β) = .error e := failed
    exact first (congrArg Except.error (Except.error.inj same))
  | ok a => exact second a

variable (misuse : Invocation.misuse ≠ asked)

include misuse

theorem takeParts_ne_error {take : α → Part Key → Except Invocation α}
    (each : ∀ a part, take a part ≠ .error asked) (start : α) (r : Reading Key) :
    takeParts take start r ≠ .error asked := by
  have all (parts : List (Part Key)) (a : α) : parts.foldlM take a ≠ .error asked := by
    induction parts generalizing a with
    | nil => exact fun failed => by cases failed
    | cons part rest ih =>
      rw [List.foldlM_cons]
      exact bind_ne_error (each a part) ih
  refine bind_ne_error (all r.parts start) ?_
  intro a
  split
  · exact fun failed => by cases failed
  · exact fun failed => misuse (Except.error.inj failed)

theorem orMisuse_ne_error (read : Option α) : orMisuse read ≠ .error asked := by
  cases read with
  | none => exact fun failed => misuse (Except.error.inj failed)
  | some a => exact fun failed => by cases failed

end errors

variable {a : ComposeArguments}

theorem misuse_ne_compose : Invocation.misuse ≠ .compose a := nofun

/-- Only a command line that is taken as a whole asks for a document. -/
theorem takeCompose_ne_error (b : ComposeArguments) (part : Part Key) :
    takeCompose b part ≠ .error (.compose a) := by
  have of_word {α : Type} (read : Option α) (set : α → ComposeArguments) :
      (do return set (← orMisuse read) : Except Invocation ComposeArguments) ≠
        .error (.compose a) :=
    bind_ne_error (orMisuse_ne_error misuse_ne_compose read) fun _ => nofun
  cases part with
  | flag key => cases key <;> nofun
  | vacant key => cases key <;> nofun
  | operand path => nofun
  | command name arguments => nofun
  | setting key value =>
    cases key with
    | onMissingSlot | onFileError | resolveFrom | maxDepth => exact of_word _ _
    | _ => nofun

theorem takeOutlets_ne_error (b : OutletsArguments) (part : Part Key) :
    takeOutlets b part ≠ .error (.compose a) := by
  cases part with
  | flag key => cases key <;> nofun
  | _ => nofun

theorem takeCommand_ne_error (name : Text) (arguments : List Text) :
    takeCommand dropsDashes name arguments ≠ .error (.compose a) := by
  unfold takeCommand
  split
  · exact bind_ne_error (takeParts_ne_error misuse_ne_compose takeCompose_ne_error {} _)
      fun _ failed => by cases failed
  · split
    · exact bind_ne_error (takeParts_ne_error misuse_ne_compose takeOutlets_ne_error {} _)
        fun _ failed => by cases failed
    · intro failed
      cases failed

theorem takeProgram_ne_error (b : Invocation × List Text) (part : Part Key) :
    takeProgram dropsDashes b part ≠ .error (.compose a) := by
  cases part with
  | flag key => cases key <;> nofun
  | command name arguments => exact takeCommand_ne_error name arguments
  | _ => nofun

/-- The part is an option, with whatever value. -/
def Part.IsOption {κ : Type} : Part κ → Prop
  | .flag _ | .setting .. | .vacant _ => True
  | .operand _ | .command .. => False

namespace Grammar

variable {κ : Type} {g : Grammar κ} {rule : OptionRule κ} {parts : List (Part κ)}
  {ending : Ending κ}

/-- An argument stands for nothing but options, and for at least one that is complete unless a
    value is still expected. -/
structure Expansion (parts : List (Part κ)) (ending : Ending κ) : Prop where
  /-- All parts are options. -/
  options : ∀ part ∈ parts, part.IsOption
  /-- Only the option that still expects its value is not among them. -/
  some_if_complete : ending = .complete → parts ≠ []

theorem alone_expansion (means : alone rule = (parts, ending)) : Expansion parts ending := by
  unfold alone at means
  split at means
  · cases means
    exact ⟨by simp, nofun⟩
  · cases means
    exact ⟨by simp [Part.IsOption], fun _ => List.cons_ne_nil _ _⟩

theorem withValue_expansion {value : Text} (means : g.withValue rule value = some (parts, ending)) :
    Expansion parts ending := by
  unfold Grammar.withValue at means
  split at means
  · cases means
    refine ⟨?_, fun _ => List.cons_ne_nil _ _⟩
    intro part mem
    rw [List.mem_singleton.mp mem]
    unfold settingPart
    split <;> trivial
  · cases means

theorem withLetters_expansion {more : Text} (means : g.withLetters rule more = some (parts, ending)) :
    Expansion parts ending := by
  induction more generalizing rule parts ending with
  | nil => exact alone_expansion (Option.some.inj means)
  | cons c more ih =>
    rw [Grammar.withLetters] at means
    split at means
    · exact withValue_expansion means
    · obtain ⟨next, -, means⟩ := Option.bind_eq_some_iff.mp means
      obtain ⟨⟨others, last⟩, others_said, means⟩ := Option.bind_eq_some_iff.mp means
      cases means
      refine ⟨?_, fun _ => List.cons_ne_nil _ _⟩
      intro part mem
      rcases List.mem_cons.mp mem with rfl | mem
      · trivial
      · exact (ih others_said).options part mem

theorem expand_expansion {tail : Tail} (means : g.expand rule tail = some (parts, ending)) :
    Expansion parts ending := by
  cases tail with
  | nothing => exact alone_expansion (Option.some.inj means)
  | assigned value => exact withValue_expansion means
  | letters more => exact withLetters_expansion means

/-- An option that is read to its end is the first part of what is read. -/
theorem readTokens_option {pending : Option Operands} {t : Text} {tail : Tail}
    {rest : List (Token κ)} (complete : (g.readTokens pending ((t, .option rule tail) :: rest)).complete) :
    ∃ first more, first.IsOption ∧
      (g.readTokens pending ((t, .option rule tail) :: rest)).parts = first :: more := by
  have head {l : List (Part κ)} (options : ∀ part ∈ l, part.IsOption) (some_part : l ≠ [])
      (others : List (Part κ)) : ∃ first more, first.IsOption ∧ l ++ others = first :: more := by
    obtain ⟨first, more, rfl⟩ := List.exists_cons_of_ne_nil some_part
    exact ⟨first, more ++ others, options first (List.mem_cons_self ..), rfl⟩
  rw [Grammar.readTokens] at complete ⊢
  split at complete
  · cases complete
  · rename_i parts means
    have said := expand_expansion means
    exact head said.options (said.some_if_complete rfl) _
  · rename_i parts key means
    split at complete
    · rename_i value rest
      refine head ?_ (by simp) _
      intro part mem
      rcases List.mem_append.mp mem with mem | mem
      · exact (expand_expansion means).options part mem
      · rw [List.mem_singleton.mp mem]
        trivial
    · cases complete

end Grammar

/-- In front of a command there is no option with which one comes to the command. -/
theorem takeProgram_eq_error {part : Part Key} (option : part.IsOption)
    (b : Invocation × List Text) : ∃ settled, takeProgram dropsDashes b part = .error settled := by
  cases part with
  | flag key => cases key <;> exact ⟨_, rfl⟩
  | setting key value => exact ⟨_, rfl⟩
  | vacant key => exact ⟨_, rfl⟩
  | operand path => exact option.elim
  | command name arguments => exact option.elim

/-- Only the command to compose a document asks for one. -/
theorem eq_compose_of_takeCommand {name : Text} {arguments extras : List Text}
    (taken : takeCommand dropsDashes name arguments = .ok (.compose a, extras)) : name = "compose".toList := by
  by_cases same : name = "compose".toList
  · exact same
  exfalso
  unfold takeCommand at taken
  rw [if_neg same] at taken
  split at taken
  · obtain ⟨b, -, ends⟩ := ok_of_bind taken
    cases ends
  · cases taken

/-- A command is given all arguments behind its name. -/
theorem read_command {name : Text} (other : name ≠ dashes)
    (looks : (programGrammar dropsDashes).classify name = some .word) (rest : List Text) :
    (programGrammar dropsDashes).read (name :: rest) =
      if ((programGrammar dropsDashes).tokens rest).isSome then Reading.finish.withParts [.command name rest]
      else .stop := by
  rw [Grammar.read, Grammar.tokens_cons other looks]
  cases tokens_eq : (programGrammar dropsDashes).tokens rest with
  | none => rfl
  | some tokens =>
    show Reading.finish.withParts [.command name (tokens.map Prod.fst)] = _
    rw [Grammar.map_fst_tokens tokens_eq]
    rfl

namespace Invocation

theorem ofArguments_eq_compose {arguments : List Text} : ofArguments dropsDashes arguments = .compose a ↔
    takeParts (takeProgram dropsDashes) (.help, []) ((programGrammar dropsDashes).read arguments) = .ok (.compose a, []) ∧
      ((programGrammar dropsDashes).read arguments).extras = [] := by
  unfold ofArguments
  dsimp only
  cases taken : takeParts (takeProgram dropsDashes) (.help, []) ((programGrammar dropsDashes).read arguments) with
  | error settled =>
    constructor
    · intro asks
      dsimp only at asks
      subst asks
      exact absurd taken (takeParts_ne_error misuse_ne_compose takeProgram_ne_error _ _)
    · rintro ⟨failed, -⟩
      cases failed
  | ok both =>
    obtain ⟨asked, extras⟩ := both
    constructor
    · intro asks
      dsimp only at asks
      split at asks
      · rename_i none_left
        obtain ⟨before, behind⟩ : ((programGrammar dropsDashes).read arguments).extras = [] ∧ extras = [] := by
          simpa using none_left
        exact ⟨by rw [asks, behind], before⟩
      · cases asks
    · rintro ⟨same, none_left⟩
      cases same
      dsimp only
      rw [none_left]
      rfl

theorem ofArguments_compose_eq {rest : List Text} :
    ofArguments dropsDashes ("compose".toList :: rest) = .compose a ↔
      ((programGrammar dropsDashes).tokens rest).isSome ∧
        takeCommand dropsDashes "compose".toList rest = .ok (.compose a, []) := by
  rw [ofArguments_eq_compose, read_command (by decide) rfl, takeParts_eq_ok]
  by_cases legible : ((programGrammar dropsDashes).tokens rest).isSome
  · rw [if_pos legible]
    show (takeCommand dropsDashes "compose".toList rest >>= pure = _ ∧ true = true) ∧ [] = [] ↔ _
    rw [bind_pure]
    simp [legible]
  · rw [if_neg legible]
    constructor
    · rintro ⟨⟨-, complete⟩, -⟩
      cases complete
    · exact fun both => absurd both.1 legible

/-- A command line that asks for a document starts with the name of the command. -/
theorem starts_of_compose {arguments : List Text} (asks : ofArguments dropsDashes arguments = .compose a) :
    ∃ rest, arguments = "compose".toList :: rest := by
  obtain ⟨taken, none_left⟩ := ofArguments_eq_compose.mp asks
  obtain ⟨taken, complete⟩ := takeParts_eq_ok.mp taken
  match arguments with
  | [] => cases taken
  | t :: rest =>
    by_cases ends : t = dashes
    · subst ends
      cases complete
    rw [Grammar.read] at taken none_left complete
    split at complete
    · cases complete
    rename_i tokens tokens_eq
    rw [tokens_eq] at taken none_left
    dsimp only at taken none_left
    rw [Grammar.tokens, if_neg ends] at tokens_eq
    obtain ⟨role, looks, tokens_eq⟩ := Option.bind_eq_some_iff.mp tokens_eq
    obtain ⟨others, others_read, tokens_eq⟩ := Option.bind_eq_some_iff.mp tokens_eq
    cases tokens_eq
    -- only a word in front comes to a command
    cases role with
    | dashes => cases complete
    | unknown => cases none_left
    | word =>
      have command : takeCommand dropsDashes t (others.map Prod.fst) >>= pure = .ok (.compose a, []) := taken
      rw [bind_pure] at command
      exact ⟨rest, by rw [eq_compose_of_takeCommand command]⟩
    | option rule tail =>
      obtain ⟨first, more, option, parts⟩ := Grammar.readTokens_option complete
      rw [parts, List.foldlM_cons] at taken
      obtain ⟨settled, refused⟩ := takeProgram_eq_error option (.help, [])
      rw [refused] at taken
      cases taken

/-- With the option `--json` behind the name of the command, a command line asks for the same,
    reported in data. -/
theorem json_in_front {rest : List Text}
    (asks : ofArguments dropsDashes ("compose".toList :: rest) = .compose a) :
    ofArguments dropsDashes ("compose".toList :: "--json".toList :: rest) = .compose (a.withJson true) := by
  obtain ⟨legible, taken⟩ := ofArguments_compose_eq.mp asks
  refine ofArguments_compose_eq.mpr ⟨?_, takeCommand_json taken⟩
  have unknown : (programGrammar dropsDashes).classify "--json".toList = some .unknown := rfl
  rw [Grammar.tokens_cons (by decide) unknown]
  simpa using legible

end Invocation

end Cli

end MarkdownOutlets
