import HeadUnitLink.Dispatch.Pool

/-!
# A pool in front of a transport

A transport takes frames at once, or stalls and takes none until it is
released.  An `Outlet` is a pool together with the state of its transport.
Every operation lets the pool run until nothing happens of itself and says
which frames were sent meanwhile.
-/

namespace HeadUnitLink

/-- A pool and the state of its transport. -/
structure Outlet where
  pool : Pool
  /-- Does the transport take no frame? -/
  stalled : Bool
  deriving DecidableEq, Repr

namespace Outlet

/-- A pool of idle workers in front of a transport that takes frames. -/
def ofWorkers (workers : Nat) : Outlet :=
  { pool := Pool.ofWorkers workers, stalled := false }

/-- The frames that wait at a stalled transport. -/
def waiting (o : Outlet) : List Bytes := o.pool.holding.map Job.bytes

/-- Lets the pool run. -/
def settle (reaction : Bytes → Pool.Reaction) (o : Outlet) : Outlet × List Bytes :=
  let (pool, sent) := o.pool.settle reaction o.stalled
  ({ o with pool }, sent)

/-- Submits a batch. -/
def submit (o : Outlet) (session priority : UInt8) (frames : List Bytes) :
    Except LinkError Outlet :=
  (o.pool.submit session priority frames).map fun pool => { o with pool }

/-- The transport takes no frame from now on. -/
def stall (o : Outlet) : Outlet := { o with stalled := true }

/-- The transport takes frames again. -/
def resume (o : Outlet) : Outlet := { o with stalled := false }

/-- The transport takes frames again and the queue accepts no more. -/
def shutdown (o : Outlet) : Outlet := { o.resume with pool := o.pool.shutdown }

/-- A stalled transport takes this one frame, if it waits. -/
def release (reaction : Bytes → Pool.Reaction) (bytes : Bytes) (o : Outlet) :
    Outlet × List Bytes :=
  match o.pool.holding.find? fun job => job.bytes = bytes with
  | none => (o, [])
  | some job =>
    let (pool, sent) := o.pool.react job (reaction bytes)
    ({ o with pool }, sent)

end Outlet

end HeadUnitLink
