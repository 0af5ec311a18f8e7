/-!
# Options and operands

The grammar of a command line.  Arguments are read from left to right:

* `--name value` and `--name=value` set an option, and so do `-n value`,
  `-nvalue` and `-n=value` if the option has a letter;
* a value in an argument of its own does not start with a dash, unless it is
  a dash and nothing else;
* an option that takes no value stands alone; letters of such options can
  share one dash;
* `--` ends the options;
* every other argument is an operand.

A `Rule` says what an option does to the settings that are gathered.  The
first argument that follows no rule ends the reading.
-/

namespace HeadUnitLink

/-- Why there is no command to run. -/
inductive Stop where
  /-- The arguments follow no rule. -/
  | usage
  /-- The arguments ask for help. -/
  | help
  /-- The arguments ask for the version of the program. -/
  | version
  deriving DecidableEq, Repr

/-- What an option does to settings.  `none` refuses a value that is not valid,
and an option that was set before. -/
inductive Effect (σ : Type) where
  | flag (set : σ → Option σ)
  | value (set : String → σ → Option σ)
  | stop (reason : Stop)

/-- An option. -/
structure Rule (σ : Type) where
  name : String
  letter : Option Char
  effect : Effect σ

/-- What can be read. -/
structure Grammar (σ : Type) where
  /-- The options. -/
  rules : List (Rule σ)
  /-- What an operand does to settings.  Without it the reading ends at the first
  operand. -/
  operand : Option (String → σ → Option σ)

/-- Sets what was not set before. -/
def setOnce {α : Type} (value : Option α) : Option α → Option (Option α)
  | none => value.map some
  | some _ => none

/-! ## Arguments -/

/-- An argument by its form. -/
inductive Form where
  /-- The end of the options. -/
  | endOfOptions
  /-- An option by its name, after the dashes. -/
  | long (body : List Char)
  /-- Options by their letters, after the dash. -/
  | short (body : List Char)
  | operand
  deriving DecidableEq, Repr

/-- The form of an argument. -/
def Form.ofArgument (argument : String) : Form :=
  match argument.toList with
  | ['-', '-'] => .endOfOptions
  | '-' :: '-' :: body => .long body
  | ['-'] => .operand
  | '-' :: body => .short body
  | _ => .operand

/-- Where the reading of arguments stands. -/
inductive Awaiting (σ : Type) where
  /-- Any argument can come. -/
  | argument
  /-- The value of an option has to come. -/
  | value (set : String → σ → Option σ)

namespace Grammar

variable {σ : Type}

/-- A refused setting ends the reading. -/
def accept (settings : Option σ) : Except Stop (σ × Awaiting σ) :=
  match settings with
  | some settings => .ok (settings, .argument)
  | none => .error .usage

/-- Reads an option by its name. -/
def long (grammar : Grammar σ) (settings : σ) (body : List Char) :
    Except Stop (σ × Awaiting σ) :=
  let name := String.ofList (body.takeWhile (· ≠ '='))
  match grammar.rules.find? fun rule => rule.name = name with
  | none => .error .usage
  | some rule =>
    match rule.effect, body.dropWhile (· ≠ '=') with
    | .value set, _ :: value => accept (set (String.ofList value) settings)
    | .value set, [] => .ok (settings, .value set)
    | .flag set, [] => accept (set settings)
    | .stop reason, [] => .error reason
    | _, _ :: _ => .error .usage

/-- The value that follows its letter in one argument. -/
def attachedValue : List Char → String
  | '=' :: value => String.ofList value
  | value => String.ofList value

/-- Reads options by their letters. -/
def short (grammar : Grammar σ) (settings : σ) : List Char → Except Stop (σ × Awaiting σ)
  | [] => .ok (settings, .argument)
  | letter :: rest =>
    match (grammar.rules.find? fun rule => rule.letter = some letter).map Rule.effect with
    | none => .error .usage
    | some (.stop reason) => .error reason
    | some (.flag set) =>
      match set settings with
      | some settings => short grammar settings rest
      | none => .error .usage
    | some (.value set) =>
      if rest = [] then .ok (settings, .value set)
      else accept (set (attachedValue rest) settings)

/-- Reads arguments that are all operands. -/
def operands (grammar : Grammar σ) (settings : σ) (arguments : List String) :
    Except Stop (σ × List String) :=
  let set := grammar.operand.getD fun _ _ => none
  match arguments.foldlM (fun settings argument => set argument settings) settings with
  | some settings => .ok (settings, [])
  | none => .error .usage

/-- Reads arguments into settings; the answer is the settings and the
arguments from the operand on at which the reading ends. -/
def read (grammar : Grammar σ) (settings : σ) :
    Awaiting σ → List String → Except Stop (σ × List String)
  | .argument, [] => .ok (settings, [])
  | .value _, [] => .error .usage
  | .value set, argument :: rest =>
    match Form.ofArgument argument, set argument settings with
    | .operand, some settings => read grammar settings .argument rest
    | _, _ => .error .usage
  | .argument, argument :: rest =>
    match Form.ofArgument argument with
    | .endOfOptions => grammar.operands settings rest
    | .operand =>
      match grammar.operand with
      | none => .ok (settings, argument :: rest)
      | some set =>
        match set argument settings with
        | some settings => read grammar settings .argument rest
        | none => .error .usage
    | .long body =>
      match grammar.long settings body with
      | .error reason => .error reason
      | .ok (settings, awaiting) => read grammar settings awaiting rest
    | .short body =>
      match grammar.short settings body with
      | .error reason => .error reason
      | .ok (settings, awaiting) => read grammar settings awaiting rest

end Grammar

end HeadUnitLink
