import HeadUnitLink.Wire.Frame

/-!
# The frames of the protocol, by role

One builder for every role a frame can have, so that no caller puts a control
kind or a counter together by hand.  The builders that are plain data
(`Header.single`, `Header.first`, `Header.consecutive`, `Header.control`) make
a header of any version; `Header.checked` refuses a version without a layout.
-/

namespace HeadUnitLink

/-- The size of the payload of a first frame. -/
def firstPayloadSize : Nat := 8

/-- The counter of the last consecutive frame of a message. -/
def terminalSequence : UInt8 := 0

namespace Header

/-- A header with nothing set but its role, its version and where it belongs. -/
def blank (frameType : FrameType) (service : Service) (session version : UInt8) : Header :=
  { version, compressed := false, frameType, service, frameData := 0, session
    dataSize := 0, messageId := 0 }

/-- The header, if its version has a layout. -/
def checked (h : Header) : Except FrameError Header :=
  match headerSize h.version with
  | .error e => .error e
  | .ok _ => .ok h

/-- A frame that carries a whole message. -/
def single (service : Service) (session : UInt8) (dataSize messageId : UInt32)
    (version : UInt8) : Header :=
  { blank .single service session version with dataSize, messageId }

/-- The frame that announces a fragmented message; its payload is
`FirstPayload.encode`. -/
def first (service : Service) (session : UInt8) (messageId : UInt32) (version : UInt8) :
    Header :=
  { blank .first service session version with
    dataSize := UInt32.ofNat firstPayloadSize, messageId }

/-- One piece of a fragmented message.  The counter of the last piece is
`terminalSequence`. -/
def consecutive (service : Service) (session : UInt8) (dataSize : UInt32) (sequence : UInt8)
    (messageId : UInt32) (version : UInt8) : Header :=
  { blank .consecutive service session version with
    dataSize, frameData := sequence, messageId }

/-- A control frame without a payload. -/
def control (service : Service) (session : UInt8) (kind : ControlKind) (version : UInt8) :
    Header :=
  { blank .control service session version with frameData := kind.toByte }

/-- The request to start a service.  Session 0 is refused before the version. -/
def startService (service : Service) (session version : UInt8) : Except FrameError Header :=
  if session = 0 then .error .invalidSession
  else (control service session .startService version).checked

/-- The request to start a session, which is to start its RPC service. -/
def startSession (session version : UInt8) : Except FrameError Header :=
  startService .rpc session version

/-- A heartbeat, on the control service of the session. -/
def heartbeat (session version : UInt8) : Except FrameError Header :=
  (control .control session .heartbeat version).checked

/-- The answer to a heartbeat. -/
def heartbeatAck (session version : UInt8) : Except FrameError Header :=
  (control .control session .heartbeatAck version).checked

end Header

/-- The request to end a service.  A known hash id is presented both as the
message id and as the payload. -/
def Frame.endService (service : Service) (session : UInt8) (hashId : Option UInt32)
    (version : UInt8) : Except FrameError Frame :=
  match (Header.control service session .endService version).checked with
  | .error e => .error e
  | .ok header =>
    match hashId with
    | some hash => .ok (Frame.stamped { header with messageId := hash } (Word.toBytes hash))
    | none => .ok (Frame.stamped header [])

/-! ## The announcement in a first frame -/

namespace FirstPayload

/-- The payload of a first frame: the length of the message and the number of
consecutive frames. -/
def encode (total count : UInt32) : Bytes :=
  Word.toBytes total ++ Word.toBytes count

/-- The length and the number of frames that a first frame declares; bytes
after the first eight are not looked at. -/
def decode? (payload : Bytes) : Option (UInt32 × UInt32) :=
  match Word.split? payload with
  | none => none
  | some (total, rest) => (Word.leading? rest).map (total, ·)

theorem decode?_encode (total count : UInt32) :
    decode? (encode total count) = some (total, count) := by
  have h := Word.split?_toBytes_append count []
  rw [List.append_nil] at h
  simp [decode?, encode, Word.split?_toBytes_append, Word.leading?, h]

end FirstPayload

/-! ## Counting the pieces of a message -/

/-- The number of pieces of at most `maxDataSize` bytes that hold `total`
bytes; a budget of 0 counts as 1. -/
def frameCount (total maxDataSize : Nat) : Nat :=
  let budget := max maxDataSize 1
  (total + budget - 1) / budget

/-- The counter of the piece at an index that is not the last: 1 to 255, then
1 again.  It is never 0, which marks the last piece. -/
def sequenceNumber (index : Nat) : UInt8 :=
  UInt8.ofNat (index % 255 + 1)

end HeadUnitLink
