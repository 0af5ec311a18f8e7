import HeadUnitLink.Dispatch.Outlet
import HeadUnitLink.Engine.Receiver
import HeadUnitLink.Message.Fragment

/-!
# The engine of one connection

An `Engine` joins the receiving side of a connection to a dispatch queue.

* Requests (`send`, `startSession`, `startService`, `endService`, `heartbeat`,
  `heartbeatAck`) make frames and queue them at the priority of their service.
* `receive` takes in bytes of the transport.
* `settle` lets the workers run; the frames that they hand to the transport
  are what the engine sends.
-/

namespace HeadUnitLink

/-- The engine of one connection. -/
structure Engine where
  config : Config
  receiver : Receiver
  outlet : Outlet
  /-- The id of the next message, a 32-bit word. -/
  nextMessageId : UInt32
  deriving DecidableEq, Repr

namespace Engine

/-- An engine with settings that it can work with. -/
def ofConfig (config : Config) : Except ConfigFault Engine :=
  match config.fault? with
  | some fault => .error fault
  | none =>
    .ok { config, receiver := Receiver.ofConfig config
          outlet := Outlet.ofWorkers config.workers, nextMessageId := 1 }

/-- The version of the control frames that the engine sends. -/
def version (e : Engine) : UInt8 := e.receiver.version

/-- The sessions that the engine knows. -/
def registry (e : Engine) : Registry := e.receiver.registry

/-! ## Requests -/

/-- Is this version spoken? -/
def speaks (e : Engine) (version : UInt8) : Bool :=
  minVersion ≤ version && version ≤ e.config.maxVersion

/-- Encodes frames one by one. -/
def encodeEach (frames : List Frame) : Except FrameError (List Bytes) :=
  frames.mapM Frame.encode

/-- Queues frames as one batch. -/
def submit (e : Engine) (service : Service) (session : UInt8) (frames : List Frame) :
    Except LinkError Engine :=
  match encodeEach frames with
  | .error cause => .error (.frame cause)
  | .ok encoded =>
    (e.outlet.submit session service.priority encoded).map fun outlet => { e with outlet }

/-- Sends a message and says which id it has.  The id counts as used once the
version and the session are found right, whatever comes after. -/
def send (e : Engine) (m : Message) : Except LinkError UInt32 × Engine × List Notice :=
  if !e.speaks m.version then (.error (.unsupportedVersion m.version), e, [])
  else if m.service ≠ .rpc ∧ m.session = 0 then (.error (.invalidSession m.service), e, [])
  else
    let id := e.nextMessageId
    let e := { e with nextMessageId := id + 1 }
    match m.fragment id e.config.maxDataSize with
    | .error cause => (.error cause, e, [])
    | .ok frames =>
      match e.submit m.service m.session frames with
      | .error cause => (.error cause, e, [])
      | .ok e => (.ok id, e, [.resetHeartbeat m.session])

/-- Queues one control frame. -/
def request (e : Engine) (service : Service) (session : UInt8)
    (frame : Except FrameError Frame) : Except LinkError Unit × Engine :=
  match frame with
  | .error cause => (.error (.frame cause), e)
  | .ok frame =>
    match e.submit service session [frame] with
    | .error cause => (.error cause, e)
    | .ok e => (.ok (), e)

/-- A control frame without a payload. -/
def bare (header : Except FrameError Header) : Except FrameError Frame :=
  header.map fun header => Frame.stamped header []

/-- Asks the head unit to start a service. -/
def startService (e : Engine) (service : Service) (session : UInt8) :
    Except LinkError Unit × Engine :=
  if session = 0 then (.error (.invalidSession service), e)
  else e.request service session (bare (Header.startService service session e.version))

/-- Asks the head unit to start a session. -/
def startSession (e : Engine) (session : UInt8) : Except LinkError Unit × Engine :=
  e.startService .rpc session

/-- Asks the head unit to end a service, and presents the hash id of the
session if it has one. -/
def endService (e : Engine) (service : Service) (session : UInt8) :
    Except LinkError Unit × Engine :=
  e.request service session
    (Frame.endService service session (e.registry.hashId session) e.version)

/-- Sends a heartbeat. -/
def heartbeat (e : Engine) (session : UInt8) : Except LinkError Unit × Engine :=
  e.request .control session (bare (Header.heartbeat session e.version))

/-- Answers a heartbeat. -/
def heartbeatAck (e : Engine) (session : UInt8) : Except LinkError Unit × Engine :=
  e.request .control session (bare (Header.heartbeatAck session e.version))

/-- Sets the version of the control frames that the engine sends. -/
def setVersion (e : Engine) (version : UInt8) : Except LinkError Unit × Engine :=
  if e.speaks version then
    (.ok (), { e with receiver := { e.receiver with version } })
  else (.error (.unsupportedVersion version), e)

/-! ## The transport -/

/-- Takes in bytes of the transport. -/
def receive (e : Engine) (chunk : Bytes) : Engine × List Notice :=
  let (receiver, notices) := e.receiver.receive e.config chunk
  ({ e with receiver }, notices)

/-- Lets the workers run, and says which frames were sent. -/
def settle (e : Engine) : Engine × List Bytes :=
  let (outlet, sent) := e.outlet.settle fun _ => .send
  ({ e with outlet }, sent)

/-- The transport takes no frame from now on. -/
def stall (e : Engine) : Engine := { e with outlet := e.outlet.stall }

/-- The transport takes frames again. -/
def resume (e : Engine) : Engine := { e with outlet := e.outlet.resume }

/-- The transport takes frames again and the queue accepts no more. -/
def shutdown (e : Engine) : Engine := { e with outlet := e.outlet.shutdown }

end Engine

end HeadUnitLink
