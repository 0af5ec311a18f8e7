/-!
# The closed sets of the wire format

Three bytes of a header are codes from a closed set: the frame type, the
service and, in a control frame, the control kind.  Each set is an inductive
type with its code (`toByte`), the partial inverse (`ofByte?`) and the name it
is shown by.

The code of a service is also its rank in the dispatch queue: a lower code is
sent first.
-/

namespace HeadUnitLink

/-! ## Frame types -/

/-- The role of a frame, in the low three bits of its first byte. -/
inductive FrameType where
  /-- Session and service lifecycle, and heartbeats. -/
  | control
  /-- A whole message in one frame. -/
  | single
  /-- The announcement of a message that follows in pieces. -/
  | first
  /-- One piece of an announced message. -/
  | consecutive
  deriving DecidableEq, Repr

namespace FrameType

/-- The code of a frame type. -/
def toByte : FrameType → UInt8
  | control => 0
  | single => 1
  | first => 2
  | consecutive => 3

/-- The frame type with this code. -/
def ofByte? (b : UInt8) : Option FrameType :=
  if b = 0 then some control
  else if b = 1 then some single
  else if b = 2 then some first
  else if b = 3 then some consecutive
  else none

/-- The name of a frame type. -/
def name : FrameType → String
  | control => "CONTROL"
  | single => "SINGLE"
  | first => "FIRST"
  | consecutive => "CONSECUTIVE"

/-- Every frame type, by code. -/
def all : List FrameType := [control, single, first, consecutive]

theorem ofByte?_toByte (t : FrameType) : ofByte? t.toByte = some t := by
  cases t <;> rfl

theorem toByte_of_ofByte? {b : UInt8} {t : FrameType} (h : ofByte? b = some t) :
    t.toByte = b := by
  grind [ofByte?, toByte]

end FrameType

/-! ## Services -/

/-- A service of a session; every frame belongs to one. -/
inductive Service where
  /-- Heartbeats of the session itself. -/
  | control
  /-- Remote procedure calls. -/
  | rpc
  /-- Audio streaming. -/
  | audio
  /-- Navigation video streaming. -/
  | nav
  /-- Bulk data. -/
  | bulk
  deriving DecidableEq, Repr

namespace Service

/-- The code of a service. -/
def toByte : Service → UInt8
  | control => 0x00
  | rpc => 0x07
  | audio => 0x0A
  | nav => 0x0B
  | bulk => 0x0F

/-- The service with this code. -/
def ofByte? (b : UInt8) : Option Service :=
  if b = 0x00 then some control
  else if b = 0x07 then some rpc
  else if b = 0x0A then some audio
  else if b = 0x0B then some nav
  else if b = 0x0F then some bulk
  else none

/-- The rank of a service in the dispatch queue; a lower rank is sent first. -/
def priority (s : Service) : UInt8 := s.toByte

/-- The name of a service. -/
def name : Service → String
  | control => "CONTROL"
  | rpc => "RPC"
  | audio => "AUDIO"
  | nav => "NAV"
  | bulk => "BULK"

/-- Every service, the one that is sent first at the front. -/
def all : List Service := [control, rpc, audio, nav, bulk]

/-- The service that a user names, in any mix of ASCII cases.  Some services
have more than one name. -/
def ofName? (text : String) : Option Service :=
  match text.toLower with
  | "control" => some control
  | "rpc" => some rpc
  | "audio" | "audio_service" | "pcm" => some audio
  | "nav" | "mobile_nav" | "video" => some nav
  | "bulk" | "bulk_data" => some bulk
  | _ => none

theorem ofByte?_toByte (s : Service) : ofByte? s.toByte = some s := by
  cases s <;> rfl

theorem toByte_of_ofByte? {b : UInt8} {s : Service} (h : ofByte? b = some s) :
    s.toByte = b := by
  grind [ofByte?, toByte]

end Service

/-! ## Control kinds -/

/-- What a control frame asks for or answers.  A session is started and ended
through its RPC service, so sessions have no kinds of their own. -/
inductive ControlKind where
  | heartbeat
  | startService
  | startServiceAck
  | startServiceNack
  | endService
  | endServiceAck
  | endServiceNack
  /-- The head unit has taken navigation frames up to a number. -/
  | serviceDataAck
  | heartbeatAck
  deriving DecidableEq, Repr

namespace ControlKind

/-- The code of a control kind. -/
def toByte : ControlKind → UInt8
  | heartbeat => 0x00
  | startService => 0x01
  | startServiceAck => 0x02
  | startServiceNack => 0x03
  | endService => 0x04
  | endServiceAck => 0x05
  | endServiceNack => 0x06
  | serviceDataAck => 0xFE
  | heartbeatAck => 0xFF

/-- The control kind with this code. -/
def ofByte? (b : UInt8) : Option ControlKind :=
  if b = 0x00 then some heartbeat
  else if b = 0x01 then some startService
  else if b = 0x02 then some startServiceAck
  else if b = 0x03 then some startServiceNack
  else if b = 0x04 then some endService
  else if b = 0x05 then some endServiceAck
  else if b = 0x06 then some endServiceNack
  else if b = 0xFE then some serviceDataAck
  else if b = 0xFF then some heartbeatAck
  else none

/-- The name of a control kind. -/
def name : ControlKind → String
  | heartbeat => "Heartbeat"
  | startService => "StartService"
  | startServiceAck => "StartServiceACK"
  | startServiceNack => "StartServiceNACK"
  | endService => "EndService"
  | endServiceAck => "EndServiceACK"
  | endServiceNack => "EndServiceNACK"
  | serviceDataAck => "ServiceDataACK"
  | heartbeatAck => "HeartbeatACK"

/-- Every control kind, by code. -/
def all : List ControlKind :=
  [heartbeat, startService, startServiceAck, startServiceNack, endService, endServiceAck,
    endServiceNack, serviceDataAck, heartbeatAck]

theorem ofByte?_toByte (k : ControlKind) : ofByte? k.toByte = some k := by
  cases k <;> rfl

theorem toByte_of_ofByte? {b : UInt8} {k : ControlKind} (h : ofByte? b = some k) :
    k.toByte = b := by
  grind [ofByte?, toByte]

end ControlKind

end HeadUnitLink
