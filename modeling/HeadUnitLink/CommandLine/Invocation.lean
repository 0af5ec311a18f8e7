import HeadUnitLink.CommandLine.Options

/-!
# Invocations

An `Invocation` is what the arguments of the program ask for: a command with
its options, the format of listings and the file with the settings.

The general options may stand before the command and after it; what stands
after it counts.  The environment names the settings file and the log level
where they are not given, and what it names has to be valid unless they are
given both before and after the command.
-/

namespace HeadUnitLink

/-- What the arguments ask for. -/
structure Invocation where
  command : Command
  format : Option Format
  /-- The file with the settings. -/
  settings : Option String
  deriving DecidableEq, Repr

/-- An effect on one half of a pair. -/
def Effect.onFirst {σ τ : Type} : Effect σ → Effect (σ × τ)
  | flag set => flag fun (a, b) => (set a).map fun a => (a, b)
  | value set => value fun text (a, b) => (set text a).map fun a => (a, b)
  | stop reason => stop reason

/-- An effect on the other half of a pair. -/
def Effect.onSecond {σ τ : Type} : Effect τ → Effect (σ × τ)
  | flag set => flag fun (a, b) => (set b).map fun b => (a, b)
  | value set => value fun text (a, b) => (set text b).map fun b => (a, b)
  | stop reason => stop reason

namespace Invocation

/-- The arguments before the command: the general options, and the version of
the program. -/
def generalGrammar : Grammar GeneralOptions where
  rules := GeneralOptions.rules ++ [⟨"version", some 'V', .stop .version⟩]
  operand := none

/-- The arguments after the name of a command: its own options and operands,
and the general options. -/
def commandGrammar {σ : Type} (rules : List (Rule σ)) (operand : String → σ → Option σ) :
    Grammar (GeneralOptions × σ) where
  rules :=
    rules.map (fun rule => ⟨rule.name, rule.letter, rule.effect.onSecond⟩) ++
      GeneralOptions.rules.map fun rule => ⟨rule.name, rule.letter, rule.effect.onFirst⟩
  operand := some fun text (general, own) => (operand text own).map fun own => (general, own)

/-- Reads the arguments after the name of a command. -/
def commandOf {σ : Type} (rules : List (Rule σ)) (operand : String → σ → Option σ) (start : σ)
    (finish : σ → Except Stop Command) (arguments : List String) :
    Except Stop (GeneralOptions × Command) := do
  let ((general, own), _) ←
    (commandGrammar rules operand).read (GeneralOptions.empty, start) .argument arguments
  let command ← finish own
  return (general, command)

/-- The names of the commands; `help` is told apart before them. -/
def commandNames : List String := ["decode", "fragment", "version", "help"]

/-- Help is asked for by name, for the program or for one command. -/
def helpOf (topics : List String) : Except Stop (GeneralOptions × Command) :=
  match topics with
  | [] => .error .help
  | [topic] => .error (if topic ∈ commandNames then .help else .usage)
  | _ => .error .usage

/-- Reads the name of a command and the arguments after it. -/
def commandFrom (arguments : List String) : Except Stop (GeneralOptions × Command) :=
  let noOperand {σ : Type} (_ : String) (_ : σ) : Option σ := none
  match arguments with
  | "decode" :: rest =>
    commandOf DecodeOptions.rules DecodeOptions.operand DecodeOptions.empty
      DecodeOptions.command rest
  | "fragment" :: rest =>
    commandOf FragmentOptions.rules noOperand FragmentOptions.empty FragmentOptions.command rest
  | "version" :: rest =>
    commandOf VersionOptions.rules noOperand VersionOptions.empty VersionOptions.command rest
  | "help" :: rest => helpOf rest
  | _ => .error .usage

/-- Reads the arguments of the program. -/
def ofArguments (environment : Environment) (arguments : List String) :
    Except Stop Invocation := do
  let (before, rest) ← generalGrammar.read GeneralOptions.empty .argument arguments
  let (after, command) ← commandFrom rest
  if after.admits environment && before.admits environment then
    return {
      command
      format := after.format <|> before.format
      settings := after.settings <|> before.settings <|> environment.settings }
  else throw .usage

end Invocation

end HeadUnitLink
