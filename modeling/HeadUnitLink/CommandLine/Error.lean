import HeadUnitLink.Config.Json
import HeadUnitLink.Message.Error

/-!
# How a command ends

A command ends with an exit code.  `CommandError` is the closed set of causes
for which a command gives up; each has a code and a message.  The code follows
the innermost cause: a missing file is a plain failure, bytes that are no
frames are invalid data, and requests that can never succeed are wrong usage.
-/

namespace HeadUnitLink

/-- The exit codes. -/
inductive ExitCode where
  | success
  | failure
  /-- The arguments follow no rule of the command line. -/
  | badArguments
  | permissionDenied
  | dataInvalid
  | usage
  | internal
  deriving DecidableEq, Repr

/-- The number of an exit code. -/
def ExitCode.toNat : ExitCode → Nat
  | success => 0
  | failure => 1
  | badArguments => 2
  | permissionDenied => 50
  | dataInvalid => 60
  | usage => 64
  | internal => 125

/-! ## Files -/

/-- Why a file cannot be used. -/
inductive FileFault where
  | notFound
  | permissionDenied
  /-- The path leads through a file as if it were a directory. -/
  | notDirectory
  /-- The path names a directory where a file is needed. -/
  | isDirectory
  | nameTooLong
  /-- The content is no text. -/
  | notText
  /-- Any other refusal, in the words of the system. -/
  | system (text : String)
  deriving DecidableEq, Repr

namespace FileFault

/-- What is said of a refused file. -/
def message : FileFault → String
  | notFound => "No such file or directory (os error 2)"
  | permissionDenied => "Permission denied (os error 13)"
  | notDirectory => "Not a directory (os error 20)"
  | isDirectory => "Is a directory (os error 21)"
  | nameTooLong => "File name too long (os error 36)"
  | notText => "stream did not contain valid UTF-8"
  | system text => text

/-- The exit code of a refused file. -/
def exitCode : FileFault → ExitCode
  | notFound => .failure
  | permissionDenied => .permissionDenied
  | notText => .dataInvalid
  | _ => .internal

end FileFault

/-! ## Streams and links -/

/-- The exit code of a failed stream. -/
def IoFault.exitCode : IoFault → ExitCode
  | permissionDenied => .permissionDenied
  | notFound => .failure
  | invalidData => .dataInvalid
  | _ => .internal

namespace FrameError

/-- What a command says of a frame error: a failed stream speaks for itself. -/
def report : FrameError → String
  | io fault => fault.message
  | e => e.message

/-- The exit code of a frame error. -/
def exitCode : FrameError → ExitCode
  | io fault => fault.exitCode
  | connectionClosed => .failure
  | invalidSession => .usage
  | unsupportedVersion _ => .usage
  | _ => .dataInvalid

end FrameError

namespace LinkError

/-- What a command says of a link error: a frame error speaks for itself. -/
def report : LinkError → String
  | frame cause => cause.report
  | e => e.message

/-- The exit code of a link error. -/
def exitCode : LinkError → ExitCode
  | frame cause => cause.exitCode
  | unsupportedVersion _ => .usage
  | invalidSession _ => .usage
  | messageTooLarge _ _ => .dataInvalid
  | malformedFirstFrame _ => .dataInvalid
  | _ => .internal

end LinkError

/-! ## Commands -/

/-- Why a command gives up. -/
inductive CommandError where
  /-- A file that the arguments name cannot be read. -/
  | unreadable (path : String) (fault : FileFault)
  /-- The file with the settings holds none. -/
  | settings (cause : Config.ReadError)
  /-- The capture is not hexadecimal. -/
  | captureText (cause : Hex.Fault)
  /-- The file with the capture cannot be opened. -/
  | unopened (path : String) (fault : FileFault)
  /-- The open file with the capture cannot be read. -/
  | captureFile (fault : FileFault)
  /-- The stream of the capture fails. -/
  | captureStream (cause : IoFault)
  /-- There is nothing to send. -/
  | noPayload
  /-- The payload is not hexadecimal. -/
  | payloadText (cause : Hex.Fault)
  /-- A second payload is given for a service that carries none. -/
  | bulkElsewhere
  /-- No engine can work with the settings. -/
  | engine (cause : ConfigFault)
  /-- The engine does not speak the version. -/
  | engineVersion (cause : LinkError)
  /-- The engine refuses the message. -/
  | refused (cause : LinkError)
  /-- The engine has sent bytes that are no frame. -/
  | damaged (cause : FrameError)
  /-- The engine has sent a part of a frame. -/
  | incomplete (length : Nat)
  /-- The file for the frames cannot be created. -/
  | uncreated (path : String) (fault : FileFault)
  /-- The created file cannot be written. -/
  | unwritten (path : String) (fault : FileFault)
  /-- The frames cannot be written. -/
  | unwritable (path : String) (cause : FrameError)
  deriving DecidableEq, Repr

namespace CommandError

/-- What is said of a command that gives up. -/
def message : CommandError → String
  | unreadable path fault => "read " ++ path ++ ": " ++ fault.message
  | settings cause => "config: " ++ cause.message
  | captureText cause => "invalid hex input: " ++ cause.message
  | unopened path fault => "open " ++ path ++ ": " ++ fault.message
  | captureFile fault => "decode: " ++ fault.message
  | captureStream cause => "decode: " ++ cause.message
  | noPayload => "no payload: pass --data, --hex or --file"
  | payloadText cause => "invalid hex payload: " ++ cause.message
  | bulkElsewhere => "--bulk-file requires --service bulk"
  | engine cause => "engine: " ++ cause.message
  | engineVersion cause => "engine: " ++ cause.report
  | refused cause => "fragment: " ++ cause.report
  | damaged cause => "re-decode: " ++ cause.report
  | incomplete length => s!"engine emitted {length} byte(s) of partial frame"
  | uncreated path fault => "create " ++ path ++ ": " ++ fault.message
  | unwritten path fault => "write " ++ path ++ ": " ++ fault.message
  | unwritable path cause => "write " ++ path ++ ": " ++ cause.report

/-- The exit code of a command that gives up. -/
def exitCode : CommandError → ExitCode
  | unreadable _ fault => fault.exitCode
  | settings _ => .usage
  | captureText _ => .dataInvalid
  | unopened _ fault => fault.exitCode
  | captureFile fault => fault.exitCode
  | captureStream cause => cause.exitCode
  | noPayload => .usage
  | payloadText _ => .dataInvalid
  | bulkElsewhere => .usage
  | engine _ => .usage
  | engineVersion cause => cause.exitCode
  | refused cause => cause.exitCode
  | damaged cause => cause.exitCode
  | incomplete _ => .internal
  | uncreated _ fault => fault.exitCode
  | unwritten _ fault => fault.exitCode
  | unwritable _ cause => cause.exitCode

end CommandError

end HeadUnitLink
