import HeadUnitLink.Wire.Frame

/-!
# Messages

A message is what an application sends and receives, whatever the number of
frames that carry it.  A message of the bulk service may have a second part,
which travels after the first; on every other service the second part stays
behind.
-/

namespace HeadUnitLink

/-- One message of an application. -/
structure Message where
  service : Service
  session : UInt8
  version : UInt8
  data : Bytes
  /-- Travels after `data` on the bulk service only. -/
  bulk : Option Bytes
  messageId : UInt32
  deriving DecidableEq, Repr

namespace Message

/-- A message without a second part and without an id. -/
def plain (service : Service) (session version : UInt8) (data : Bytes) : Message :=
  { service, session, version, data, bulk := none, messageId := 0 }

/-- The bytes of a message that travel. -/
def wirePayload (m : Message) : Bytes :=
  match m.service, m.bulk with
  | .bulk, some bulk => m.data ++ bulk
  | _, _ => m.data

end Message

end HeadUnitLink
