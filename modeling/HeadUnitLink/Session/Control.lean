import HeadUnitLink.Message.Error
import HeadUnitLink.Session.Registry
import HeadUnitLink.Text.Utf8
import HeadUnitLink.Wire.Frame

/-!
# What a received control frame brings about

The head unit acknowledges, refuses and answers in control frames.
`ControlEvent.ofFrame` updates the registry from one such frame and says what
it means to the application.

An acknowledgement carries a text by which requests are told apart.  The
acknowledgement of a session also carries the hash id, in a place that depends
on the version: nowhere in version 1, in front of the text in version 2, and
as the message id from version 3 on, where 0 means that it stands in front of
the text after all.
-/

namespace HeadUnitLink

/-- What a control frame means to the application. -/
inductive ControlEvent where
  | sessionStarted (session : Session) (version : UInt8) (correlation : String)
  | serviceStarted (service : Service) (session : UInt8) (version : UInt8)
      (correlation : String)
  | serviceEnded (service : Service) (session : UInt8) (correlation : String)
  | startServiceNack (service : Service)
  | heartbeat (session : UInt8)
  | heartbeatAck (session : UInt8)
  | navAck (frameNumber : UInt32)
  /-- A request that is the head unit's to answer, or a kind that is not
  known. -/
  | ignored
  deriving DecidableEq, Repr

/-! ## The fields of an acknowledgement -/

/-- A text without the NULs at its end. -/
def trimNuls (text : List Char) : List Char :=
  (text.reverse.dropWhile fun c => c = Char.ofNat 0).reverse

/-- The text in a payload: UTF-8 with ill-formed parts replaced, without the
NULs at its end. -/
def correlationText (payload : Bytes) : String :=
  String.ofList (trimNuls (Utf8.decodeLossy payload))

/-- The hash id in front of a payload and the rest of the payload; a payload
that is too short holds no hash id. -/
def payloadHash (payload : Bytes) : UInt32 × Bytes :=
  (Word.split? payload).getD (0, payload)

/-- The hash id of a session acknowledgement, 0 for none, and the bytes of its
text. -/
def sessionAckParts (frame : Frame) : UInt32 × Bytes :=
  let header := frame.header
  if header.version = 0 ∨ header.version = 1 then (0, frame.payload)
  else if header.version = 2 then payloadHash frame.payload
  else if header.messageId ≠ 0 then (header.messageId, frame.payload)
  else payloadHash frame.payload

/-- The hash id and the text of a session acknowledgement. -/
def sessionAckFields (frame : Frame) : Option UInt32 × String :=
  let (hash, text) := sessionAckParts frame
  (if hash = 0 then none else some hash, correlationText text)

/-! ## Events -/

/-- The acknowledgement of a started service. -/
def ControlEvent.ofStartAck (frame : Frame) (registry : Registry) :
    Except LinkError ControlEvent × Registry :=
  let header := frame.header
  if header.service = .rpc then
    let (hash, text) := sessionAckFields frame
    let (session, registry) := registry.startSession header.session hash
    (.ok (.sessionStarted session header.version text), registry)
  else if header.session = 0 then (.error (.invalidSession header.service), registry)
  else
    (.ok (.serviceStarted header.service header.session header.version
        (correlationText frame.payload)),
      (registry.addService header.session header.service).2)

/-- What a control frame means, and the registry after it. -/
def ControlEvent.ofFrame (frame : Frame) (registry : Registry) :
    Except LinkError ControlEvent × Registry :=
  let header := frame.header
  match header.controlKind? with
  | none => (.ok .ignored, registry)
  | some kind =>
    match kind with
    | .startServiceAck => ofStartAck frame registry
    | .startServiceNack => (.ok (.startServiceNack header.service), registry)
    | .endServiceAck =>
      (.ok (.serviceEnded header.service header.session (correlationText frame.payload)),
        (registry.removeService header.session header.service).2)
    | .endServiceNack =>
      (.error (.endServiceRejected header.session header.service), registry)
    | .heartbeat => (.ok (.heartbeat header.session), registry)
    | .heartbeatAck => (.ok (.heartbeatAck header.session), registry)
    | .serviceDataAck =>
      (.ok (.navAck ((Word.leading? frame.payload).getD 0)), registry)
    | .startService => (.ok .ignored, registry)
    | .endService => (.ok .ignored, registry)

end HeadUnitLink
