import HeadUnitLink.Bytes
import HeadUnitLink.Message.Error

/-!
# The dispatch queue

Encoded frames wait here for a worker.  They come in batches, one batch for a
message, and wait as jobs in the order of priority, then of submission.

A worker claims the first job whose session is free: no other job of the
session is in flight, and the session is not pinned to another batch.  The
first job of a batch of several frames pins the session to the batch and the
last one unpins it, so a message that was begun is finished before its session
sends anything else.

After `shutdown` no batch is accepted any more; what waits is still sent.
-/

namespace HeadUnitLink

/-- One encoded frame that waits to be sent. -/
structure Job where
  /-- A lower value is sent first. -/
  priority : UInt8
  /-- The number of the frame among all that were ever submitted. -/
  sequence : Nat
  /-- The number of the batch that the frame belongs to. -/
  batch : Nat
  session : UInt8
  bytes : Bytes
  /-- Is this the first of several frames? -/
  opensBatch : Bool
  /-- Is this the last of several frames? -/
  closesBatch : Bool
  deriving DecidableEq, Repr

/-- The frames that wait, and what is in flight. -/
structure Queue where
  /-- The jobs that wait, by priority and then by sequence. -/
  jobs : List Job
  /-- The number of the next frame.  Frames and batches are numbered by words of
  64 bits in a running program, so these numbers are exact below `2 ^ 64`
  frames. -/
  nextSequence : Nat
  /-- The number of the next batch, exact as far as `nextSequence` is. -/
  nextBatch : Nat
  /-- The sessions with a job in flight. -/
  busy : List UInt8
  /-- The batch that a session has to finish before anything else. -/
  pinned : List (UInt8 × Nat)
  /-- The number of jobs that were claimed and are not complete. -/
  inFlight : Nat
  /-- Are new batches refused? -/
  isShutdown : Bool
  deriving DecidableEq, Repr

namespace Queue

/-- Nothing waits and nothing is in flight. -/
def empty : Queue :=
  { jobs := [], nextSequence := 0, nextBatch := 0, busy := [], pinned := [], inFlight := 0
    isShutdown := false }

/-! ## Submitting -/

/-- The jobs of the next batch. -/
def batchJobs (q : Queue) (session priority : UInt8) (frames : List Bytes) : List Job :=
  let count := frames.length
  frames.mapIdx fun index bytes =>
    { priority, sequence := q.nextSequence + index, batch := q.nextBatch, session, bytes
      opensBatch := 1 < count && index = 0
      closesBatch := 1 < count && index + 1 = count }

/-- Puts a batch behind all jobs of its priority. -/
def push (q : Queue) (session priority : UInt8) (frames : List Bytes) : Queue :=
  { q with
    jobs :=
      (q.jobs.takeWhile fun job => job.priority ≤ priority) ++
        q.batchJobs session priority frames ++
        q.jobs.dropWhile fun job => job.priority ≤ priority
    nextSequence := q.nextSequence + frames.length
    nextBatch := q.nextBatch + 1 }

/-- Accepts a batch.  A batch without frames is accepted always and changes
nothing. -/
def submit (q : Queue) (session priority : UInt8) (frames : List Bytes) :
    Except LinkError Queue :=
  if frames = [] then .ok q
  else if q.isShutdown then .error .shutdown
  else .ok (q.push session priority frames)

/-- Refuses every batch from now on. -/
def shutdown (q : Queue) : Queue := { q with isShutdown := true }

/-! ## Claiming and completing -/

/-- May the job be claimed? -/
def isClaimable (q : Queue) (job : Job) : Bool :=
  !q.busy.contains job.session &&
    match q.pinned.lookup job.session with
    | none => true
    | some batch => batch = job.batch

/-- Takes a job out of the waiting ones and into flight. -/
def takeJob (q : Queue) (job : Job) : Queue :=
  { q with
    jobs := q.jobs.erase job
    busy := job.session :: q.busy
    pinned :=
      if job.opensBatch then (job.session, job.batch) :: q.pinned else q.pinned
    inFlight := q.inFlight + 1 }

/-- The first job whose session is free, and the queue with that job in
flight. -/
def claim? (q : Queue) : Option (Job × Queue) :=
  (q.jobs.find? q.isClaimable).map fun job => (job, q.takeJob job)

/-- Takes a job out of flight. -/
def complete (q : Queue) (job : Job) : Queue :=
  { q with
    busy := q.busy.filter fun session => session ≠ job.session
    pinned :=
      if job.closesBatch then q.pinned.filter fun pin => pin.1 ≠ job.session else q.pinned
    inFlight := q.inFlight - 1 }

/-- Does nothing wait and is nothing in flight? -/
def isIdle (q : Queue) : Bool := q.jobs.isEmpty && q.inFlight = 0

/-- A claim takes one job off the waiting ones. -/
theorem length_jobs_of_claim? {q q' : Queue} {job : Job} (h : q.claim? = some (job, q')) :
    q'.jobs.length + 1 = q.jobs.length := by
  unfold claim? at h
  obtain ⟨found, hfind, heq⟩ := Option.map_eq_some_iff.1 h
  obtain ⟨rfl, rfl⟩ := Prod.mk.inj heq
  have hmem := List.mem_of_find?_eq_some hfind
  have hpos := List.length_pos_of_mem hmem
  simp only [takeJob, List.length_erase_of_mem hmem]
  omega

end Queue

end HeadUnitLink
