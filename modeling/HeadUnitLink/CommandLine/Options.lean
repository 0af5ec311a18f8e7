import HeadUnitLink.CommandLine.Command
import HeadUnitLink.CommandLine.Grammar
import HeadUnitLink.CommandLine.Value
import HeadUnitLink.Report.Layout

/-!
# The options of the program

The general options go with every command, and each command has options of its
own.  A record holds what is given; its `rules` say how arguments set it, and
`command` is the command that it stands for.

The program keeps no log: the log options are read and have no effect.
-/

namespace HeadUnitLink

/-! ## General options -/

/-- What the environment says. -/
structure Environment where
  settings : Option String
  logLevel : Option String
  deriving DecidableEq, Repr

/-- The general options, as far as they are given. -/
structure GeneralOptions where
  format : Option Format
  settings : Option String
  logFormat : Option String
  logLevel : Option String
  deriving DecidableEq, Repr

namespace GeneralOptions

/-- No option is given. -/
def empty : GeneralOptions := ⟨none, none, none, none⟩

/-- The log formats. -/
def logFormats : List String := ["text", "json"]

/-- The log levels. -/
def logLevels : List String := ["off", "error", "warn", "info", "debug", "trace"]

/-- The general options, which can be given with every command. -/
def rules : List (Rule GeneralOptions) := [
  ⟨"format", none, .value fun text o =>
    (setOnce (Format.ofName? text) o.format).map fun format => { o with format }⟩,
  ⟨"config", none, .value fun text o =>
    (setOnce (Value.path? text) o.settings).map fun settings => { o with settings }⟩,
  ⟨"log-format", none, .value fun text o =>
    (setOnce (Value.word? logFormats text) o.logFormat).map fun logFormat =>
      { o with logFormat }⟩,
  ⟨"log-level", none, .value fun text o =>
    (setOnce (Value.word? logLevels text) o.logLevel).map fun logLevel =>
      { o with logLevel }⟩,
  ⟨"help", some 'h', .stop .help⟩]

/-- Is the environment valid for the options that are not given? -/
def admits (o : GeneralOptions) (environment : Environment) : Bool :=
  let isValid (given : Option String) (value : Option String)
      (read : String → Option String) : Bool :=
    given.isSome || value.all fun text => (read text).isSome
  isValid o.settings environment.settings Value.path? &&
    isValid o.logLevel environment.logLevel (Value.word? logLevels)

end GeneralOptions

/-! ## Options of `decode` -/

/-- The options of `decode`, as far as they are given. -/
structure DecodeOptions where
  hex : Option String
  file : Option String
  reassemble : Bool
  deriving DecidableEq, Repr

namespace DecodeOptions

/-- No option is given. -/
def empty : DecodeOptions := ⟨none, none, false⟩

/-- The options of `decode`. -/
def rules : List (Rule DecodeOptions) := [
  ⟨"file", some 'f', .value fun text o =>
    (setOnce (Value.path? text) o.file).map fun file => { o with file }⟩,
  ⟨"reassemble", none, .flag fun o =>
    if o.reassemble then none else some { o with reassemble := true }⟩]

/-- The operand of `decode` is the capture in hexadecimal digits. -/
def operand (text : String) (o : DecodeOptions) : Option DecodeOptions :=
  (setOnce (some text) o.hex).map fun hex => { o with hex }

/-- The command, if there is one input. -/
def command (o : DecodeOptions) : Except Stop Command :=
  match o.hex, o.file with
  | some text, none => .ok (.decode (.hex text) o.reassemble)
  | none, some path => .ok (.decode (.file path) o.reassemble)
  | _, _ => .error .usage

end DecodeOptions

/-! ## Options of `fragment` -/

/-- The options of `fragment`, as far as they are given. -/
structure FragmentOptions where
  service : Option Service
  session : Option UInt8
  version : Option UInt8
  data : Option String
  hex : Option String
  file : Option String
  bulkFile : Option String
  mtu : Option Nat
  out : Option String
  deriving DecidableEq, Repr

namespace FragmentOptions

/-- No option is given. -/
def empty : FragmentOptions := ⟨none, none, none, none, none, none, none, none, none⟩

/-- The options of `fragment`. -/
def rules : List (Rule FragmentOptions) := [
  ⟨"service", some 's', .value fun text o =>
    (setOnce (Service.ofName? text) o.service).map fun service => { o with service }⟩,
  ⟨"session", none, .value fun text o =>
    (setOnce (Value.byteWithin? 0 255 text) o.session).map fun session => { o with session }⟩,
  ⟨"protocol-version", none, .value fun text o =>
    (setOnce (Value.byteWithin? 1 4 text) o.version).map fun version => { o with version }⟩,
  ⟨"data", none, .value fun text o =>
    (setOnce (some text) o.data).map fun data => { o with data }⟩,
  ⟨"hex", none, .value fun text o =>
    (setOnce (some text) o.hex).map fun hex => { o with hex }⟩,
  ⟨"file", none, .value fun text o =>
    (setOnce (Value.path? text) o.file).map fun file => { o with file }⟩,
  ⟨"bulk-file", none, .value fun text o =>
    (setOnce (Value.path? text) o.bulkFile).map fun bulkFile => { o with bulkFile }⟩,
  ⟨"mtu", none, .value fun text o =>
    (setOnce (Value.count? sizeModulus text) o.mtu).map fun mtu => { o with mtu }⟩,
  ⟨"out", some 'o', .value fun text o =>
    (setOnce (Value.path? text) o.out).map fun out => { o with out }⟩]

/-- The payload; it can be given in one way only. -/
def payload (o : FragmentOptions) : Except Stop (Option PayloadInput) :=
  match o.data, o.hex, o.file with
  | none, none, none => .ok none
  | some content, none, none => .ok (some (.text content))
  | none, some text, none => .ok (some (.hex text))
  | none, none, some path => .ok (some (.file path))
  | _, _, _ => .error .usage

/-- The command, with a service, a session and a version if none are given. -/
def command (o : FragmentOptions) : Except Stop Command :=
  o.payload.map fun payload => .fragment {
    service := o.service.getD .rpc, session := o.session.getD 1, version := o.version.getD 3
    payload, bulkFile := o.bulkFile, mtu := o.mtu, out := o.out }

end FragmentOptions

/-! ## Options of `version` -/

/-- The options of `version`, as far as they are given. -/
structure VersionOptions where
  extended : Bool
  deriving DecidableEq, Repr

namespace VersionOptions

/-- No option is given. -/
def empty : VersionOptions := ⟨false⟩

/-- The options of `version`. -/
def rules : List (Rule VersionOptions) := [
  ⟨"extended", none, .flag fun o =>
    if o.extended then none else some { o with extended := true }⟩]

/-- The command. -/
def command (o : VersionOptions) : Except Stop Command := .ok (.version o.extended)

end VersionOptions

end HeadUnitLink
