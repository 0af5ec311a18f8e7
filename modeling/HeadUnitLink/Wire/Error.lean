import HeadUnitLink.Text.Hex

/-!
# What can be wrong with a frame

`FrameError` is the closed set of causes for which a frame is not encoded, not
decoded or not carried over a stream.  A header that does not describe a frame
has a cause of its own, `HeaderFault`, and a stream that fails has `IoFault`.
Each type has one `message` function, which is the only place where the
wording stands.
-/

namespace HeadUnitLink

/-- How a byte stream can fail. -/
inductive IoFault where
  | interrupted
  | wouldBlock
  | permissionDenied
  | notFound
  | brokenPipe
  | connectionReset
  | timedOut
  | invalidData
  | unexpectedEof
  deriving DecidableEq, Repr

/-- What is said of a failed stream. -/
def IoFault.message : IoFault → String
  | interrupted => "operation interrupted"
  | wouldBlock => "operation would block"
  | permissionDenied => "permission denied"
  | notFound => "entity not found"
  | brokenPipe => "broken pipe"
  | connectionReset => "connection reset"
  | timedOut => "timed out"
  | invalidData => "invalid data"
  | unexpectedEof => "unexpected end of file"

/-- Why the bytes of a header describe no frame. -/
inductive HeaderFault where
  /-- There are no bytes. -/
  | empty
  /-- Only `present` of the `size` bytes are there. -/
  | truncated (present size : Nat)
  /-- The first eight bytes are there, but not the whole message id. -/
  | truncatedMessageId (present size : Nat)
  /-- The low bits of the first byte are the code of no frame type. -/
  | unknownFrameType (code : UInt8)
  /-- The second byte is the code of no service. -/
  | unknownService (code : UInt8)
  /-- A control frame whose third byte is the code of no control kind. -/
  | unknownControlKind (code : UInt8)
  deriving DecidableEq, Repr

/-- What is said of a header that describes no frame. -/
def HeaderFault.message : HeaderFault → String
  | empty => "empty buffer"
  | truncated present size => s!"header truncated ({present} of {size} bytes)"
  | truncatedMessageId present size =>
    s!"message id truncated ({present} of {size} header bytes)"
  | unknownFrameType code => "unknown frame type 0x" ++ Hex.upperByte code
  | unknownService code => "unknown service type 0x" ++ Hex.upperByte code
  | unknownControlKind code => "unknown control frame subtype 0x" ++ Hex.upperByte code

/-- Why a frame is not encoded, decoded or carried. -/
inductive FrameError where
  /-- The header bytes describe no frame. -/
  | malformedHeader (fault : HeaderFault)
  /-- The version is none of those that have a header layout. -/
  | unsupportedVersion (version : UInt8)
  /-- A request that needs a started session names session 0. -/
  | invalidSession
  /-- The payload is larger than the limit in force. -/
  | payloadTooLarge (size max : Nat)
  /-- The header declares another size than the payload has. -/
  | dataSizeMismatch (declared actual : Nat)
  /-- The stream failed. -/
  | io (fault : IoFault)
  /-- The stream ended, or takes no more bytes. -/
  | connectionClosed
  deriving DecidableEq, Repr

/-- Is the error about the bytes of a frame, and not about the stream that
carries them? -/
def FrameError.isDamage : FrameError → Bool
  | io _ => false
  | connectionClosed => false
  | _ => true

/-- What is said of a frame error. -/
def FrameError.message : FrameError → String
  | malformedHeader fault => "malformed frame header: " ++ fault.message
  | unsupportedVersion version => s!"unsupported protocol version {version}"
  | invalidSession => "session id 0 is not a negotiated session"
  | payloadTooLarge size max => s!"payload too large ({size} bytes, max {max})"
  | dataSizeMismatch declared actual =>
    s!"header declares {declared} payload bytes but {actual} were supplied"
  | io fault => "frame I/O error: " ++ fault.message
  | connectionClosed => "connection closed (incomplete frame)"

end HeadUnitLink
