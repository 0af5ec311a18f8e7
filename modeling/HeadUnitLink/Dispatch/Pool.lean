import HeadUnitLink.Dispatch.Queue

/-!
# The workers of a dispatch queue

A worker claims a job, hands its frame to the transport, completes the job
once the transport has returned, and claims again.  When it finds nothing to
claim on a queue that is shut down and empty, it leaves.  Workers differ in
nothing but where they stand, so a pool counts the idle ones and lists the
jobs of the others.

`Pool.step` says what each event does and when it can happen; every run of the
workers is a sequence of such steps, in any order.  `Pool.settle` is one such
run: it goes on until nothing can happen of itself.

The call that shuts the queue down goes on to wait until the workers have left; if
the transport makes it, all but the worker that is with the transport.  This
waiting is not modelled: `Pool.shutdown` closes the queue, and whoever asked for
it goes on at once.  So a pool has all runs of the program and others.  In
particular a transport that shuts the queue down may take its frame while other
workers are still there.  In fact it is held up until they have left, and for ever
if one of them finds only frames that have to wait for that one.
-/

namespace HeadUnitLink

/-- A queue with its workers. -/
structure Pool where
  queue : Queue
  /-- The number of workers that wait for a job. -/
  idle : Nat
  /-- The jobs whose frames the transport has not taken yet. -/
  holding : List Job
  /-- The jobs whose frames the transport has taken, not yet complete. -/
  returned : List Job
  /-- The number of workers that have left. -/
  left : Nat
  deriving DecidableEq, Repr

/-- What a worker does. -/
inductive WorkerEvent where
  /-- An idle worker claims a job. -/
  | claim
  /-- A worker hands the frame of its job to the transport, which takes the
  frame or fails and loses it. -/
  | handOver (job : Job) (fails : Bool)
  /-- A worker completes a job whose frame was handed over. -/
  | complete (job : Job)
  /-- An idle worker leaves. -/
  | leave
  deriving DecidableEq, Repr

/-- What can happen to a pool. -/
inductive PoolEvent where
  /-- A batch is submitted. -/
  | submit (session priority : UInt8) (frames : List Bytes)
  /-- The queue is shut down.  This is the start of the call, which then waits
  for the workers; see `Pool.shutdown`. -/
  | shutdown
  | worker (event : WorkerEvent)
  deriving DecidableEq, Repr

namespace Pool

/-- A pool of idle workers; there is always at least one. -/
def ofWorkers (workers : Nat) : Pool :=
  { queue := Queue.empty, idle := max workers 1, holding := [], returned := [], left := 0 }

/-! ## Steps -/

/-- Submits a batch. -/
def submit (p : Pool) (session priority : UInt8) (frames : List Bytes) :
    Except LinkError Pool :=
  (p.queue.submit session priority frames).map fun queue => { p with queue }

/-- Shuts the queue down.  The call goes on to wait until the other workers have
left; that holds nobody up here, so there are runs with this step that cannot
happen. -/
def shutdown (p : Pool) : Pool := { p with queue := p.queue.shutdown }

/-- An idle worker claims a job, if there is one to claim: the job and the pool
with its frame at the transport. -/
def claim? (p : Pool) : Option (Job × Pool) :=
  if p.idle = 0 then none
  else
    p.queue.claim?.map fun (job, queue) =>
      (job, { p with queue, idle := p.idle - 1, holding := p.holding ++ [job] })

/-- The transport takes the frame of a claimed job. -/
def handOver (p : Pool) (job : Job) : Pool :=
  { p with holding := p.holding.erase job, returned := p.returned ++ [job] }

/-- A worker completes a job and is idle again. -/
def complete (p : Pool) (job : Job) : Pool :=
  { p with
    queue := p.queue.complete job, returned := p.returned.erase job, idle := p.idle + 1 }

/-- May an idle worker leave? -/
def mayLeave (p : Pool) : Bool :=
  p.idle ≠ 0 && p.queue.isShutdown && p.queue.jobs.isEmpty

/-- The pool after a worker has done something, if it can.  A transport that
fails has done with the frame all the same. -/
def workerStep (p : Pool) : WorkerEvent → Option Pool
  | .claim => p.claim?.map Prod.snd
  | .handOver job _ => if job ∈ p.holding then some (p.handOver job) else none
  | .complete job => if job ∈ p.returned then some (p.complete job) else none
  | .leave =>
    if p.mayLeave then some { p with idle := p.idle - 1, left := p.left + 1 } else none

/-- The pool after an event, if the event can happen.  A batch that is refused
changes nothing. -/
def step (p : Pool) : PoolEvent → Option Pool
  | .submit session priority frames =>
    some ((p.submit session priority frames).toOption.getD p)
  | .shutdown => some p.shutdown
  | .worker event => p.workerStep event

/-- The pool after a sequence of events, if each can happen in its turn. -/
def run (p : Pool) : List PoolEvent → Option Pool
  | [] => some p
  | event :: rest => (p.step event).bind fun p => p.run rest

/-! ## Running of itself -/

/-- What the transport does with a frame. -/
structure Reaction where
  /-- Does it shut the queue down?  It does so as soon as a worker comes with
  the frame, before it takes the frame.  It does not wait for the other workers
  to leave in between, though the call does; see `Pool.shutdown`. -/
  shutsDown : Bool
  /-- Does it fail when it takes the frame, so that the frame is lost? -/
  loses : Bool
  deriving DecidableEq, Repr

/-- The transport sends the frame and does nothing else. -/
def Reaction.send : Reaction := { shutsDown := false, loses := false }

/-- What a pool still has to do. -/
def work (p : Pool) : Nat :=
  3 * p.queue.jobs.length + 2 * p.holding.length + p.returned.length

/-- The pool once a worker has come to the transport with a frame.  If the
transport shuts the queue down, it can take the frame right away, and need not
wait for the other workers as the call does. -/
def approach (p : Pool) (reaction : Reaction) : Pool :=
  if reaction.shutsDown then p.shutdown else p

/-- The pool once the transport has taken the frame; the second part holds the
frame if it is sent. -/
def react (p : Pool) (job : Job) (reaction : Reaction) : Pool × List Bytes :=
  (p.handOver job, if reaction.loses then [] else [job.bytes])

/-- The next thing that happens of itself, and the frames sent by it: a job
whose frame was taken is completed, else a waiting frame is taken unless the
transport is stalled, else an idle worker claims and comes to the transport. -/
def advance? (reaction : Bytes → Reaction) (stalled : Bool) (p : Pool) :
    Option (Pool × List Bytes) :=
  match p.returned with
  | job :: _ => some (p.complete job, [])
  | [] =>
    match stalled, p.holding with
    | false, job :: _ => some (p.react job (reaction job.bytes))
    | _, _ => p.claim?.map fun (job, p) => (p.approach (reaction job.bytes), [])

theorem work_claim?_lt {p p' : Pool} {job : Job} (h : p.claim? = some (job, p')) :
    p'.work < p.work := by
  unfold claim? at h
  split at h
  · exact absurd h (by simp)
  · obtain ⟨⟨claimed, queue⟩, hclaim, heq⟩ := Option.map_eq_some_iff.1 h
    obtain ⟨rfl, rfl⟩ := Prod.mk.inj heq
    have := Queue.length_jobs_of_claim? hclaim
    simp only [work, List.length_append, List.length_singleton]
    omega

@[simp] theorem work_approach (p : Pool) (reaction : Reaction) :
    (p.approach reaction).work = p.work := by
  unfold approach
  split <;> rfl

theorem work_handOver_lt {p : Pool} {job : Job} {rest : List Job}
    (h : p.holding = job :: rest) : (p.handOver job).work < p.work := by
  simp only [handOver, work, h, List.erase_cons_head, List.length_append, List.length_cons,
    List.length_nil]
  omega

/-- Whatever happens of itself leaves less to do. -/
theorem work_advance?_lt {reaction : Bytes → Reaction} {stalled : Bool} {p : Pool}
    {next : Pool × List Bytes} (h : p.advance? reaction stalled = some next) :
    next.1.work < p.work := by
  unfold advance? at h
  split at h
  · rename_i job rest hreturned
    obtain rfl := Option.some.inj h
    simp only [complete, Queue.complete, work, hreturned, List.erase_cons_head, List.length_cons]
    omega
  · split at h
    · rename_i job rest _ hholding
      obtain rfl := Option.some.inj h
      exact work_handOver_lt hholding
    · obtain ⟨⟨job, p'⟩, hclaim, rfl⟩ := Option.map_eq_some_iff.1 h
      rw [work_approach]
      exact work_claim?_lt hclaim

/-- Lets the pool run until nothing happens of itself; `sent` are the frames
sent before, last first. -/
def settleOnto (reaction : Bytes → Reaction) (stalled : Bool) (sent : List Bytes) (p : Pool) :
    Pool × List Bytes :=
  match _h : p.advance? reaction stalled with
  | none => (p, sent)
  | some next => settleOnto reaction stalled (next.2 ++ sent) next.1
termination_by p.work
decreasing_by exact work_advance?_lt _h

/-- Lets the pool run until nothing happens of itself, and says which frames
are sent. -/
def settle (reaction : Bytes → Reaction) (stalled : Bool) (p : Pool) : Pool × List Bytes :=
  let (p, sent) := p.settleOnto reaction stalled []
  (p, sent.reverse)

end Pool

end HeadUnitLink
