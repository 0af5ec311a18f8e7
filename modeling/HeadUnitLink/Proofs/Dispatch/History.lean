import HeadUnitLink.Dispatch.Pool
import HeadUnitLink.Proofs.Dispatch.Queue
import Mathlib.Data.List.Nodup

/-!
# What has passed through a pool

A `History` is a pool with a record of the batches it has accepted and of the
jobs it has handed to the transport, both in order.  The record changes
nothing: `History.pool_run`.

* `History.Step` says once what a step can do.
* `History.Kept` is what holds of a whole history: every job of an accepted
  batch was handed over, is at the transport or waits, and no session has two
  jobs in flight.
* `Kept.step` keeps it, and `History.run_induction` carries it through every
  run.
-/

namespace HeadUnitLink

/-- A pool with a record of what it has accepted and handed over. -/
structure History where
  pool : Pool
  /-- The batches that were accepted, less those without frames. -/
  accepted : List Batch
  /-- The jobs whose frames the transport has taken, and those that it has
  lost. -/
  handed : List Job
  deriving DecidableEq, Repr

/-- The job that a worker hands over, if that is what it does. -/
def WorkerEvent.handed : WorkerEvent → List Job
  | .handOver job _ => [job]
  | _ => []

namespace History

/-- A pool of idle workers that has accepted nothing. -/
def ofWorkers (workers : Nat) : History :=
  { pool := Pool.ofWorkers workers, accepted := [], handed := [] }

/-- Submits a batch; one that is refused leaves no trace. -/
def submit (h : History) (session priority : UInt8) (frames : List Bytes) : History :=
  match h.pool.submit session priority frames with
  | .error _ => h
  | .ok pool =>
    { h with
      pool
      accepted :=
        if frames = [] then h.accepted
        else h.accepted ++ [h.pool.queue.nextOf session priority frames] }

/-- The history after an event, if the event can happen. -/
def step (h : History) : PoolEvent → Option History
  | .submit session priority frames => some (h.submit session priority frames)
  | .shutdown => some { h with pool := h.pool.shutdown }
  | .worker event =>
    (h.pool.workerStep event).map fun pool => { h with pool, handed := h.handed ++ event.handed }

/-- The history after a sequence of events, if each can happen in its turn. -/
def run (h : History) : List PoolEvent → Option History
  | [] => some h
  | event :: rest => (h.step event).bind fun h => h.run rest

/-- All jobs that were ever accepted, in the order of submission. -/
def jobs (h : History) : List Job := h.accepted.flatMap Batch.jobs

/-- The jobs that were claimed and are not complete. -/
def flight (h : History) : List Job := h.pool.holding ++ h.pool.returned

/-! ## The record is only a record -/

theorem pool_submit (h : History) (session priority : UInt8) (frames : List Bytes) :
    (h.submit session priority frames).pool =
      (h.pool.submit session priority frames).toOption.getD h.pool := by
  unfold submit
  split
  · rename_i hrefused
    rw [hrefused]
    rfl
  · rename_i haccepted
    rw [haccepted]
    rfl

theorem pool_step (h : History) (event : PoolEvent) :
    (h.step event).map History.pool = h.pool.step event := by
  cases event with
  | submit session priority frames => exact congrArg some (h.pool_submit session priority frames)
  | shutdown => rfl
  | worker event =>
    unfold step Pool.step
    rw [Option.map_map]
    exact Option.map_id'

/-- A pool runs the same with and without its record. -/
theorem pool_run (h : History) (events : List PoolEvent) :
    (h.run events).map History.pool = h.pool.run events := by
  induction events generalizing h with
  | nil => rfl
  | cons event rest ih =>
    have hstep := h.pool_step event
    rw [run, Pool.run, ← hstep]
    cases h.step event with
    | none => rfl
    | some next => exact ih next

/-! ## What a step can do -/

/-- A batch is put behind all jobs of its priority. -/
def accept (h : History) (session priority : UInt8) (frames : List Bytes) : History :=
  { h with
    pool := { h.pool with queue := h.pool.queue.push session priority frames }
    accepted := h.accepted ++ [h.pool.queue.nextOf session priority frames] }

/-- A worker claims a job. -/
def claim (h : History) (job : Job) : History :=
  { h with
    pool := { h.pool with
      queue := h.pool.queue.takeJob job, idle := h.pool.idle - 1
      holding := h.pool.holding ++ [job] } }

/-- A worker hands a job over. -/
def handOver (h : History) (job : Job) : History :=
  { h with pool := h.pool.handOver job, handed := h.handed ++ [job] }

/-- A worker completes a job. -/
def complete (h : History) (job : Job) : History :=
  { h with pool := h.pool.complete job }

/-- One step of a history. -/
inductive Step (h : History) : History → Prop where
  /-- Nothing was accepted. -/
  | refused : Step h h
  | accepted (session priority : UInt8) (frames : List Bytes) (hframes : frames ≠ []) :
      Step h (h.accept session priority frames)
  | shutdown : Step h { h with pool := h.pool.shutdown }
  | claimed (job : Job) (hfind : h.pool.queue.jobs.find? h.pool.queue.isClaimable = some job) :
      Step h (h.claim job)
  | handedOver (job : Job) (hholding : job ∈ h.pool.holding) : Step h (h.handOver job)
  | completed (job : Job) (hreturned : job ∈ h.pool.returned) : Step h (h.complete job)
  | left : Step h { h with
      pool := { h.pool with idle := h.pool.idle - 1, left := h.pool.left + 1 } }

/-- A batch is refused, or has no frames, or is put behind its priority. -/
theorem submit_cases (h : History) (session priority : UInt8) (frames : List Bytes) :
    Step h (h.submit session priority frames) := by
  unfold submit
  split
  · exact Step.refused
  · rename_i pool hpool
    unfold Pool.submit Queue.submit at hpool
    by_cases hframes : frames = []
    · rw [if_pos hframes] at hpool ⊢
      obtain rfl := Except.ok.inj hpool
      exact Step.refused
    · rw [if_neg hframes] at hpool ⊢
      split at hpool
      · exact absurd hpool (by simp [Except.map])
      · obtain rfl := Except.ok.inj hpool
        exact Step.accepted session priority frames hframes

theorem workerStep_cases {h : History} {event : WorkerEvent} {pool : Pool}
    (hstep : h.pool.workerStep event = some pool) :
    Step h { h with pool, handed := h.handed ++ event.handed } := by
  cases event with
  | claim =>
    obtain ⟨⟨job, next⟩, hclaim, rfl⟩ := Option.map_eq_some_iff.1 hstep
    unfold Pool.claim? at hclaim
    split at hclaim
    · exact absurd hclaim (by simp)
    · obtain ⟨⟨first, queue⟩, hqueue, heq⟩ := Option.map_eq_some_iff.1 hclaim
      obtain ⟨rfl, rfl⟩ := Prod.mk.inj heq
      obtain ⟨hfind, rfl⟩ := Queue.claim?_eq_some_iff.1 hqueue
      simp only [WorkerEvent.handed, List.append_nil]
      exact Step.claimed first hfind
  | handOver job fails =>
    simp only [Pool.workerStep] at hstep
    split at hstep
    · rename_i hholding
      obtain rfl := Option.some.inj hstep
      exact Step.handedOver job hholding
    · exact absurd hstep (by simp)
  | complete job =>
    simp only [Pool.workerStep] at hstep
    split at hstep
    · rename_i hreturned
      obtain rfl := Option.some.inj hstep
      simp only [WorkerEvent.handed, List.append_nil]
      exact Step.completed job hreturned
    · exact absurd hstep (by simp)
  | leave =>
    simp only [Pool.workerStep] at hstep
    split at hstep
    · obtain rfl := Option.some.inj hstep
      simp only [WorkerEvent.handed, List.append_nil]
      exact Step.left
    · exact absurd hstep (by simp)

theorem step_cases {h h' : History} {event : PoolEvent} (hstep : h.step event = some h') :
    Step h h' := by
  cases event with
  | submit session priority frames =>
    obtain rfl := Option.some.inj hstep
    exact submit_cases h session priority frames
  | shutdown =>
    obtain rfl := Option.some.inj hstep
    exact Step.shutdown
  | worker event =>
    obtain ⟨pool, hpool, rfl⟩ := Option.map_eq_some_iff.1 hstep
    exact workerStep_cases hpool

/-- A property that every step keeps holds at the end of a run. -/
theorem run_induction {P : History → Prop} (hkeep : ∀ h h', Step h h' → P h → P h')
    {events : List PoolEvent} {h h' : History} (hrun : h.run events = some h') (hP : P h) :
    P h' := by
  induction events generalizing h with
  | nil =>
    obtain rfl := Option.some.inj hrun
    exact hP
  | cons event rest ih =>
    obtain ⟨next, hstep, hrest⟩ := Option.bind_eq_some_iff.1 hrun
    exact ih hrest (hkeep h next (step_cases hstep) hP)

/-! ## What holds of a whole history -/

/-- No job is lost or made up, jobs and batches are numbered from 0 on, and the
busy sessions are those of the jobs in flight, one each. -/
structure Kept (h : History) : Prop where
  numbers : h.accepted.map Batch.number = List.range h.pool.queue.nextBatch
  sequences : h.jobs.map Job.sequence = List.range h.pool.queue.nextSequence
  framed : ∀ b ∈ h.accepted, b.frames ≠ []
  sorted : Queue.Sorted h.pool.queue.jobs
  all : (h.handed ++ h.pool.holding ++ h.pool.queue.jobs).Perm h.jobs
  busy_perm : h.pool.queue.busy.Perm (h.flight.map Job.session)
  busy_nodup : h.pool.queue.busy.Nodup
  inFlight_eq : h.pool.queue.inFlight = h.flight.length

theorem kept_ofWorkers (workers : Nat) : Kept (ofWorkers workers) where
  numbers := rfl
  sequences := rfl
  framed := fun _ hb => absurd hb List.not_mem_nil
  sorted := List.Pairwise.nil
  all := List.Perm.refl _
  busy_perm := List.Perm.refl _
  busy_nodup := List.nodup_nil
  inFlight_eq := rfl

theorem flight_handOver {p : Pool} {job : Job} (hholding : job ∈ p.holding) :
    ((p.handOver job).holding ++ (p.handOver job).returned).Perm (p.holding ++ p.returned) := by
  unfold Pool.handOver
  simp only
  have hcons := List.perm_cons_erase hholding
  calc p.holding.erase job ++ (p.returned ++ [job])
      _ = (p.holding.erase job ++ p.returned) ++ [job] := (List.append_assoc _ _ _).symm
      _ |>.Perm (job :: (p.holding.erase job ++ p.returned)) := List.perm_append_singleton _ _
      _ |>.Perm (p.holding ++ p.returned) := (hcons.append_right p.returned).symm

theorem flight_complete {p : Pool} {job : Job} (hreturned : job ∈ p.returned) :
    (p.holding ++ p.returned).Perm
      (job :: ((p.complete job).holding ++ (p.complete job).returned)) := by
  unfold Pool.complete
  simp only
  exact ((List.perm_cons_erase hreturned).append_left p.holding).trans List.perm_middle

theorem Kept.accept {h : History} (hk : Kept h) (session priority : UInt8) {frames : List Bytes}
    (hframes : frames ≠ []) : Kept (h.accept session priority frames) where
  numbers := by
    show (h.accepted ++ [_]).map Batch.number = List.range (h.pool.queue.nextBatch + 1)
    rw [List.map_append, hk.numbers, List.range_succ]
    rfl
  sequences := by
    show ((h.accepted ++ [_]).flatMap Batch.jobs).map Job.sequence =
      List.range (h.pool.queue.nextSequence + frames.length)
    have hold := hk.sequences
    unfold jobs at hold
    rw [List.flatMap_append, List.map_append, hold, List.range_add, List.flatMap_singleton,
      Batch.map_sequence_jobs]
    rfl
  framed := by
    intro b hb
    rcases List.mem_append.1 hb with hold | hnew
    · exact hk.framed b hold
    · rw [List.mem_singleton.1 hnew]
      exact hframes
  sorted := Queue.sorted_push hk.sorted session priority frames
  all := by
    have hpush := Queue.perm_jobs_push h.pool.queue session priority frames
    show (h.handed ++ h.pool.holding ++ (h.pool.queue.push session priority frames).jobs).Perm
      ((h.accepted ++ [_]).flatMap Batch.jobs)
    rw [List.flatMap_append, List.flatMap_singleton]
    refine (hpush.append_left _).trans ?_
    rw [← List.append_assoc]
    exact hk.all.append_right _
  busy_perm := hk.busy_perm
  busy_nodup := hk.busy_nodup
  inFlight_eq := hk.inFlight_eq

theorem Kept.claim {h : History} (hk : Kept h) {job : Job}
    (hfind : h.pool.queue.jobs.find? h.pool.queue.isClaimable = some job) :
    Kept (h.claim job) where
  numbers := hk.numbers
  sequences := hk.sequences
  framed := hk.framed
  sorted := hk.sorted.sublist List.erase_sublist
  all := by
    have hmem := List.mem_of_find?_eq_some hfind
    show (h.handed ++ (h.pool.holding ++ [job]) ++ h.pool.queue.jobs.erase job).Perm h.jobs
    rw [← List.append_assoc, List.append_assoc (h.handed ++ h.pool.holding)]
    exact ((List.perm_cons_erase hmem).symm.append_left _).trans hk.all
  busy_perm := by
    show (job.session :: h.pool.queue.busy).Perm
      ((h.pool.holding ++ [job] ++ h.pool.returned).map Job.session)
    rw [List.append_assoc, List.singleton_append]
    exact (hk.busy_perm.cons job.session).trans (List.perm_middle.symm.map Job.session)
  busy_nodup := by
    have hclaimable := List.find?_some hfind
    exact List.nodup_cons.2 ⟨(Queue.isClaimable_iff.1 hclaimable).1, hk.busy_nodup⟩
  inFlight_eq := by
    have hcount := hk.inFlight_eq
    unfold flight at hcount
    show h.pool.queue.inFlight + 1 = (h.pool.holding ++ [job] ++ h.pool.returned).length
    rw [hcount]
    simp only [List.length_append, List.length_singleton]
    omega

theorem Kept.handOver {h : History} (hk : Kept h) {job : Job} (hholding : job ∈ h.pool.holding) :
    Kept (h.handOver job) where
  numbers := hk.numbers
  sequences := hk.sequences
  framed := hk.framed
  sorted := hk.sorted
  all := by
    show (h.handed ++ [job] ++ h.pool.holding.erase job ++ h.pool.queue.jobs).Perm h.jobs
    rw [List.append_assoc h.handed, List.singleton_append]
    have hcons := (List.perm_cons_erase hholding).symm
    exact ((hcons.append_left h.handed).append_right _).trans hk.all
  busy_perm := hk.busy_perm.trans ((flight_handOver hholding).symm.map Job.session)
  busy_nodup := hk.busy_nodup
  inFlight_eq := hk.inFlight_eq.trans (flight_handOver hholding).length_eq.symm

theorem Kept.complete {h : History} (hk : Kept h) {job : Job}
    (hreturned : job ∈ h.pool.returned) : Kept (h.complete job) where
  numbers := hk.numbers
  sequences := hk.sequences
  framed := hk.framed
  sorted := hk.sorted
  all := hk.all
  busy_perm := by
    have hbusy : h.pool.queue.busy.Perm (job.session :: _) :=
      hk.busy_perm.trans ((flight_complete hreturned).map Job.session)
    have herase := hbusy.erase job.session
    rw [List.erase_cons_head, hk.busy_nodup.erase_eq_filter] at herase
    show (h.pool.queue.busy.filter fun session => session ≠ job.session).Perm _
    refine (List.Perm.of_eq (List.filter_congr fun session _ => ?_)).trans herase
    by_cases heq : session = job.session <;> simp [heq]
  busy_nodup := hk.busy_nodup.filter _
  inFlight_eq := by
    have hcount := hk.inFlight_eq
    have hlength := (flight_complete hreturned).length_eq
    unfold flight at hcount
    show h.pool.queue.inFlight - 1 = _
    rw [hcount, hlength, List.length_cons, Nat.add_sub_cancel]
    rfl

theorem Kept.step {h h' : History} (hk : Kept h) (hstep : Step h h') : Kept h' := by
  cases hstep with
  | refused => exact hk
  | accepted session priority frames hframes => exact hk.accept session priority hframes
  | shutdown => exact { hk with }
  | claimed job hfind => exact hk.claim hfind
  | handedOver job hholding => exact hk.handOver hholding
  | completed job hreturned => exact hk.complete hreturned
  | left => exact { hk with }

/-! ## What follows -/

variable {h : History}

theorem Kept.accepted_nodup (hk : Kept h) : h.accepted.Nodup :=
  List.Nodup.of_map Batch.number (hk.numbers ▸ List.nodup_range)

theorem Kept.jobs_nodup (hk : Kept h) : h.jobs.Nodup :=
  List.Nodup.of_map Job.sequence (hk.sequences ▸ List.nodup_range)

/-- The number tells batches apart. -/
theorem Kept.eq_of_number (hk : Kept h) {b c : Batch} (hb : b ∈ h.accepted) (hc : c ∈ h.accepted)
    (hnumber : b.number = c.number) : b = c :=
  List.inj_on_of_nodup_map (hk.numbers ▸ List.nodup_range) hb hc hnumber

/-- Nothing is handed over twice. -/
theorem Kept.handed_nodup (hk : Kept h) : h.handed.Nodup := by
  have hall : (h.handed ++ h.pool.holding ++ h.pool.queue.jobs).Nodup :=
    hk.all.nodup_iff.2 hk.jobs_nodup
  rw [List.append_assoc] at hall
  exact (List.nodup_append.1 hall).1

/-- Only what was accepted is handed over. -/
theorem Kept.mem_jobs_of_handed (hk : Kept h) {job : Job} (hjob : job ∈ h.handed) :
    job ∈ h.jobs :=
  hk.all.mem_iff.1 (List.mem_append_left _ (List.mem_append_left _ hjob))

theorem Kept.of_isIdle (hk : Kept h) (hidle : h.pool.queue.isIdle = true) :
    h.pool.queue.jobs = [] ∧ h.pool.holding = [] := by
  obtain ⟨hjobs, hcount⟩ := Queue.isIdle_iff.1 hidle
  have hflight : h.flight = [] := List.eq_nil_of_length_eq_zero (hk.inFlight_eq.symm.trans hcount)
  exact ⟨hjobs, (List.append_eq_nil_iff.1 hflight).1⟩

/-- Once nothing waits and nothing is in flight, all is handed over. -/
theorem Kept.perm_of_isIdle (hk : Kept h) (hidle : h.pool.queue.isIdle = true) :
    h.handed.Perm h.jobs := by
  have hall := hk.all
  rw [(hk.of_isIdle hidle).1, (hk.of_isIdle hidle).2, List.append_nil, List.append_nil] at hall
  exact hall

/-- A session has at most one job in flight. -/
theorem Kept.eq_of_flight (hk : Kept h) {job other : Job} (hjob : job ∈ h.flight)
    (hother : other ∈ h.flight) (hsession : job.session = other.session) : job = other :=
  List.inj_on_of_nodup_map (hk.busy_perm.nodup_iff.1 hk.busy_nodup) hjob hother hsession

theorem Kept.session_mem_busy (hk : Kept h) {job : Job} (hjob : job ∈ h.flight) :
    job.session ∈ h.pool.queue.busy :=
  hk.busy_perm.mem_iff.2 (List.mem_map_of_mem hjob)

end History

end HeadUnitLink
