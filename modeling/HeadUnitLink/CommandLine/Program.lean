import HeadUnitLink.CommandLine.Decode
import HeadUnitLink.CommandLine.Fragment
import HeadUnitLink.CommandLine.Invocation

/-!
# The program

`Program.plan` is all that the program does with its arguments: it reads the
settings, whatever the command, and then carries the command out.
-/

namespace HeadUnitLink

/-- Where and how the program was built. -/
structure Build where
  target : String
  profile : String
  deriving DecidableEq, Repr

/-- What a run of the program is given besides its arguments. -/
structure Setup where
  build : Build
  environment : Environment
  /-- The format of listings unless one is asked for. -/
  format : Format
  deriving DecidableEq, Repr

namespace Program

/-- The name of the program and its version. -/
def title : String := "sdlink 0.3.0\n"

/-- What the program says of itself at length. -/
def provenance (build : Build) : String :=
  "name: sdlink\nversion: 0.3.0\n" ++
    "target: " ++ build.target ++ "\nprofile: " ++ build.profile ++ "\n" ++
    s!"protocol_versions: {minVersion}..={maxVersion}\n" ++
    s!"default_mtu: {Frame.defaultMtu}\n" ++
    "features: async=false, cli=true\n"

/-- How the program is used. -/
def help : String :=
  "Head-unit link protocol toolkit\n\n" ++
    "Usage: sdlink [OPTIONS] <COMMAND>\n\n" ++
    "Commands:\n" ++
    "  decode [HEX] [-f FILE] [--reassemble]\n" ++
    "  fragment [-s NAME] [--session ID] [--protocol-version N]\n" ++
    "           [--data TEXT | --hex HEX | --file FILE] [--bulk-file FILE]\n" ++
    "           [--mtu N] [-o FILE]\n" ++
    "  version [--extended]\n" ++
    "  help [COMMAND]\n\n" ++
    "Options:\n" ++
    "  --format json|table|pretty|raw\n" ++
    "  --config FILE\n" ++
    "  --log-format text|json\n" ++
    "  --log-level off|error|warn|info|debug|trace\n" ++
    "  -h, --help\n" ++
    "  -V, --version\n"

/-- How the program ends without a command to run. -/
def stopped : Stop → Outcome
  | .usage => { code := .badArguments, output := [], diagnostics := help }
  | .help => .printing help
  | .version => .printing title

/-- Fetches the settings. -/
def withSettings (path : Option String) (next : Config → Plan) : Plan :=
  match path with
  | none => next Config.default
  | some path =>
    .withFile path fun content =>
      match Utf8.decode? content with
      | none => .fail (.unreadable path .notText)
      | some _ => .withResult ((Config.ofJson content).mapError .settings) next

/-- Carries a command out. -/
def perform (build : Build) (format : Format) (config : Config) : Command → Plan
  | .decode input reassemble => .decode config format input reassemble
  | .fragment request => .fragment config format request
  | .version true => .done (.printing (provenance build))
  | .version false => .done (.printing title)

/-- What the program does with its arguments. -/
def plan (setup : Setup) (arguments : List String) : Plan :=
  match Invocation.ofArguments setup.environment arguments with
  | .error reason => .done (stopped reason)
  | .ok invocation =>
    withSettings invocation.settings fun config =>
      perform setup.build (invocation.format.getD setup.format) config invocation.command

end Program

end HeadUnitLink
