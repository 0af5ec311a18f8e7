import HeadUnitLink.Wire.Error
import HeadUnitLink.Wire.Kind

/-!
# What can be wrong on a link

`LinkError` is the closed set of causes for which a request is refused or
something that was received is reported as an error.
-/

namespace HeadUnitLink

/-- Why a request is refused or received bytes are reported. -/
inductive LinkError where
  /-- A frame is wrong in itself. -/
  | frame (cause : FrameError)
  /-- A service other than RPC is addressed on session 0. -/
  | invalidSession (service : Service)
  /-- The version is outside the range that the link speaks. -/
  | unsupportedVersion (version : UInt8)
  /-- A consecutive frame has no first frame. -/
  | sequenceMismatch (session : UInt8) (service : Service)
  /-- A single frame came while a fragmented message was open. -/
  | reassemblyInterrupted (session : UInt8) (service : Service) (dropped : Nat)
  /-- The payload of a first frame is too short to announce a message. -/
  | malformedFirstFrame (length : Nat)
  /-- A message is larger than the limit in force. -/
  | messageTooLarge (size max : Nat)
  /-- The head unit refuses to end a service. -/
  | endServiceRejected (session : UInt8) (service : Service)
  /-- The dispatch queue takes no more frames. -/
  | shutdown
  deriving DecidableEq, Repr

/-- What is said of a link error. -/
def LinkError.message : LinkError → String
  | frame cause => "frame error: " ++ cause.message
  | invalidSession service =>
    "service " ++ service.name ++ " requires a negotiated session, got session id 0"
  | unsupportedVersion version => s!"unsupported protocol version {version}"
  | sequenceMismatch session service =>
    s!"consecutive frame on session {session} service " ++ service.name ++
      " without a first frame"
  | reassemblyInterrupted session service dropped =>
    s!"single frame on session {session} service " ++ service.name ++
      s!" interrupted reassembly, {dropped} buffered bytes dropped"
  | malformedFirstFrame length => s!"first frame payload is {length} bytes, expected 8"
  | messageTooLarge size max => s!"message too large ({size} bytes, max {max})"
  | endServiceRejected session service =>
    "head unit rejected ending service " ++ service.name ++ s!" on session {session}"
  | shutdown => "protocol engine is shut down"

end HeadUnitLink
