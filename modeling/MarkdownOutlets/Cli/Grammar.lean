import MarkdownOutlets.Text.Digit

/-! # Grammar of command lines

  A command line is a sequence of options, with or without a value, and
  operands. An option has names of one dash and a letter, or of two dashes
  and a word, which may be cut short where that is unambiguous. A value
  follows as the next argument, behind an equals sign, or right behind the
  letter; letters of options without value may stand together behind one
  dash, where an equals sign says nothing. Behind `--` there are only
  operands. Two dashes that are put in the place of a value are that value, or
  leave it out: readers of command lines differ in this, also by their age, and
  the grammar says which of them is meant.
-/

namespace MarkdownOutlets

namespace Cli

/-! ### Grammars -/

/-- An option of a command. -/
structure OptionRule (κ : Type) where
  /-- What the option is. -/
  key : κ
  /-- Its names, with their dashes. -/
  names : List Text
  /-- A value belongs to it. -/
  takesValue : Bool
  deriving Repr

/-- The operands of a command. -/
inductive Operands
  /-- One, which may be missing. -/
  | atMostOne
  /-- Exactly one. -/
  | one
  /-- A command, and all of its arguments. -/
  | command
  deriving DecidableEq, Repr

/-- What a command line may consist of. -/
structure Grammar (κ : Type) where
  /-- The options. -/
  options : List (OptionRule κ)
  /-- The operands. -/
  operands : Operands
  /-- Two dashes in the place of a value leave it out. -/
  dropsDashes : Bool
  deriving Repr

/-- A part of a command line. -/
inductive Part (κ : Type)
  /-- An option without value. -/
  | flag (key : κ)
  /-- An option with its value. -/
  | setting (key : κ) (value : Text)
  /-- An option whose value is left out. -/
  | vacant (key : κ)
  /-- An operand. -/
  | operand (value : Text)
  /-- A command with its arguments. -/
  | command (name : Text) (arguments : List Text)
  deriving DecidableEq, Repr

/-- A command line as far as it could be read. -/
structure Reading (κ : Type) where
  /-- Its parts, in order. -/
  parts : List (Part κ)
  /-- Arguments that belong to no part. -/
  extras : List Text
  /-- It could be read to its end. -/
  complete : Bool
  deriving Repr

namespace Reading

variable {κ : Type}

/-- A command line that could not be read any further. -/
def stop : Reading κ := { parts := [], extras := [], complete := false }

/-- A command line that is over. -/
def finish : Reading κ := { parts := [], extras := [], complete := true }

/-- A reading with parts in front. -/
def withParts (parts : List (Part κ)) (r : Reading κ) : Reading κ :=
  { r with parts := parts ++ r.parts }

/-- A reading with one more argument that belongs to no part. -/
def withExtra (extra : Text) (r : Reading κ) : Reading κ :=
  { r with extras := extra :: r.extras }

end Reading

/-! ### Arguments -/

/-- The argument of two dashes. -/
def dashes : Text := ['-', '-']

/-- What stands behind the name of an option in the same argument. -/
inductive Tail
  /-- Nothing. -/
  | nothing
  /-- A value, behind an equals sign. -/
  | assigned (value : Text)
  /-- More behind a letter: a value, or the letters of more options. -/
  | letters (more : Text)
  deriving DecidableEq, Repr

/-- What an argument is by its looks. -/
inductive Role (κ : Type)
  /-- Two dashes, which end the options. -/
  | dashes
  /-- An operand, or the value of an option. -/
  | word
  /-- An option, with what follows its name. -/
  | option (rule : OptionRule κ) (tail : Tail)
  /-- Something that looks like an option and is none. -/
  | unknown
  deriving Repr

/-- An argument with its role. -/
abbrev Token (κ : Type) := Text × Role κ

namespace Grammar

variable {κ : Type}

/-- The options by name, in their order. -/
def names (g : Grammar κ) : List (Text × OptionRule κ) :=
  g.options.flatMap fun rule => rule.names.map fun name => (name, rule)

/-- Looks like a negative number, with or without a decimal point. A line
    feed at its end does not matter. -/
def isNegativeNumber (t : Text) : Bool :=
  let isDigit (c : Char) : Bool := (decimalDigit? c).isSome
  match t.dropFinalNewline with
  | '-' :: rest =>
    match Text.cutFirst '.' rest with
    | none => rest ≠ [] && rest.all isDigit
    | some (whole, fraction) => whole.all isDigit && fraction ≠ [] && fraction.all isDigit
  | _ => false

/-- The options that an argument may stand for by the start of a name, or by
    a letter with something right behind it. -/
def candidates (g : Grammar κ) (t : Text) : List (Role κ) :=
  match t with
  | '-' :: '-' :: _ =>
    let (start, tail) : Text × Tail :=
      match Text.cutFirst '=' t with
      | some (start, value) => (start, .assigned value)
      | none => (t, .nothing)
    g.names.filterMap fun (name, rule) =>
      if start.isPrefixOf name then some (.option rule tail) else none
  | dash :: letter :: more =>
    g.names.filterMap fun (name, rule) =>
      if name = [dash, letter] then some (.option rule (.letters more)) else none
  | _ => []

/-- What stands behind an equals sign after a name. After a letter the sign
    is left out, unless nothing stands behind it. -/
def assignedTail (name value : Text) : Tail :=
  match name, value with
  | '-' :: '-' :: _, _ | _, [] => .assigned value
  | _, _ => .letters value

/-- What an argument is; `none` if it may stand for several options. -/
def classify (g : Grammar κ) (t : Text) : Option (Role κ) :=
  let assigned : Option (Role κ) := do
    let (name, value) ← Text.cutFirst '=' t
    return .option (← g.names.lookup name) (assignedTail name value)
  match t with
  | '-' :: _ :: _ =>
    match g.names.lookup t, assigned, g.candidates t with
    | some rule, _, _ => some (.option rule .nothing)
    | none, some role, _ => some role
    | none, none, [role] => some role
    | none, none, _ :: _ :: _ => none
    | none, none, [] => some (if isNegativeNumber t || t.contains ' ' then .word else .unknown)
  | _ => some .word

/-- What the arguments are. -/
def tokens (g : Grammar κ) : List Text → Option (List (Token κ))
  | [] => some []
  | t :: rest =>
    if t = dashes then some ((t, .dashes) :: rest.map fun t => (t, .word))
    else do return (t, ← g.classify t) :: (← g.tokens rest)

/-! ### One argument -/

/-- How an argument with options ends. -/
inductive Ending (κ : Type)
  /-- With its last option, and its value if it takes one. -/
  | complete
  /-- With an option whose value is the next argument. -/
  | expecting (key : κ)
  deriving DecidableEq, Repr

/-- An option with what stands in the place of its value. -/
def settingPart (g : Grammar κ) (key : κ) (value : Text) : Part κ :=
  if g.dropsDashes && value = dashes then .vacant key else .setting key value

/-- What an option says by itself. -/
def alone (rule : OptionRule κ) : List (Part κ) × Ending κ :=
  if rule.takesValue then ([], .expecting rule.key) else ([.flag rule.key], .complete)

/-- What an option says with a value behind an equals sign, which only one
    that takes a value can have. -/
def withValue (g : Grammar κ) (rule : OptionRule κ) (value : Text) :
    Option (List (Part κ) × Ending κ) :=
  if rule.takesValue then some ([g.settingPart rule.key value], .complete) else none

/-- What an option says with more behind its letter. That is its value if it
    takes one, and the letters of more options otherwise. -/
def withLetters (g : Grammar κ) (rule : OptionRule κ) :
    (more : Text) → Option (List (Part κ) × Ending κ)
  | [] => some (alone rule)
  | c :: more =>
    if rule.takesValue then g.withValue rule (c :: more)
    else do
      let (parts, ending) ← g.withLetters (← g.names.lookup ['-', c]) more
      return (.flag rule.key :: parts, ending)

/-- What an option says with what follows its name; `none` if that cannot
    follow. -/
def expand (g : Grammar κ) (rule : OptionRule κ) : Tail → Option (List (Part κ) × Ending κ)
  | .nothing => some (alone rule)
  | .assigned value => g.withValue rule value
  | .letters more => g.withLetters rule more

/-! ### Reading -/

/-- Reads the tokens of a command line whose operands are `pending`. Options
    and operands may come in any order, up to a command. -/
def readTokens (g : Grammar κ) (pending : Option Operands) : List (Token κ) → Reading κ
  | [] => if pending = some .one then .stop else .finish
  | (t, .unknown) :: rest => (g.readTokens pending rest).withExtra t
  | (t, .dashes) :: rest =>
    match pending with
    | some .command => .stop
    | some .atMostOne => g.readTokens pending rest
    | some .one => if rest.isEmpty then .stop else g.readTokens pending rest
    | none => (g.readTokens none rest).withExtra t
  | (t, .word) :: rest =>
    match pending with
    | none => (g.readTokens none rest).withExtra t
    | some .command => Reading.finish.withParts [.command t (rest.map (·.1))]
    | some _ =>
      match rest with
      | (_, .dashes) :: rest => (g.readTokens none rest).withParts [.operand t]
      | rest => (g.readTokens none rest).withParts [.operand t]
  | (_, .option rule tail) :: rest =>
    match g.expand rule tail with
    | none => .stop
    | some (parts, .complete) => (g.readTokens pending rest).withParts parts
    | some (parts, .expecting key) =>
      match rest with
      | (value, .word) :: rest =>
        (g.readTokens pending rest).withParts (parts ++ [.setting key value])
      | _ => .stop

/-- Reads a command line. An option that stands for several ones makes it
    unreadable from the start. -/
def read (g : Grammar κ) (arguments : List Text) : Reading κ :=
  match g.tokens arguments with
  | none => .stop
  | some tokens => g.readTokens (some g.operands) tokens

end Grammar

end Cli

end MarkdownOutlets
