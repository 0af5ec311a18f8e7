import HeadUnitLink.Bytes
import HeadUnitLink.Wire.Kind

/-!
# The register of sessions

A session has an id, a list of running services in the order in which they
were started, and perhaps a hash id, with which the head unit lets a session
be taken up again.  The registry holds the sessions by ascending id.

The RPC service stands for its session: starting it starts the session anew,
and removing it removes the session.
-/

namespace HeadUnitLink

/-- A service that runs in a session. -/
structure RunningService where
  service : Service
  /-- The session that the service runs in. -/
  session : UInt8
  deriving DecidableEq, Repr

/-- A session with its running services. -/
structure Session where
  id : UInt8
  /-- The running services, in the order in which they were started. -/
  services : List RunningService
  /-- What the head unit knows the session by, if it has said so. -/
  hashId : Option UInt32
  deriving DecidableEq, Repr

namespace Session

/-- A session in which nothing runs. -/
def blank (id : UInt8) : Session := { id, services := [], hashId := none }

/-- Does the service run? -/
def hasService (s : Session) (service : Service) : Bool :=
  s.services.any fun running => running.service = service

/-- The session with the service running; a service that runs already keeps
its place. -/
def addService (s : Session) (service : Service) : Session :=
  if s.hasService service then s
  else { s with services := s.services ++ [{ service, session := s.id }] }

/-- The session without the service. -/
def removeService (s : Session) (service : Service) : Session :=
  { s with services := s.services.filter fun running => running.service ≠ service }

end Session

/-- The sessions that are known, by ascending id. -/
structure Registry where
  sessions : List Session
  deriving DecidableEq, Repr

namespace Registry

/-- No session is known. -/
def empty : Registry := { sessions := [] }

/-- The session with this id. -/
def get? (r : Registry) (id : UInt8) : Option Session :=
  r.sessions.find? fun s => s.id = id

/-- Sets the session with the id of `session`. -/
def put (r : Registry) (session : Session) : Registry :=
  { sessions :=
      (r.sessions.filter fun s => s.id < session.id) ++
        session :: r.sessions.filter fun s => session.id < s.id }

/-- Forgets the session with this id. -/
def erase (r : Registry) (id : UInt8) : Registry :=
  { sessions := r.sessions.filter fun s => s.id ≠ id }

/-- Starts a session, in place of any older one: only RPC runs in it. -/
def startSession (r : Registry) (id : UInt8) (hashId : Option UInt32) : Session × Registry :=
  let session := ({ Session.blank id with hashId } : Session).addService .rpc
  (session, r.put session)

/-- Notes a started service.  A session that is not known yet becomes known. -/
def addService (r : Registry) (id : UInt8) (service : Service) : RunningService × Registry :=
  let session := (r.get? id).getD (Session.blank id)
  ({ service, session := id }, r.put (session.addService service))

/-- Forgets a session and says which it was. -/
def removeSession (r : Registry) (id : UInt8) : Option Session × Registry :=
  (r.get? id, r.erase id)

/-- Forgets a service, and with RPC its session; says whether anything has
changed. -/
def removeService (r : Registry) (id : UInt8) (service : Service) : Bool × Registry :=
  match r.get? id with
  | none => (false, r)
  | some session =>
    if service = .rpc then (true, r.erase id)
    else (session.hasService service, r.put (session.removeService service))

/-- The hash id of a session, if the session is known and has one. -/
def hashId (r : Registry) (id : UInt8) : Option UInt32 :=
  (r.get? id).bind Session.hashId

end Registry

end HeadUnitLink
