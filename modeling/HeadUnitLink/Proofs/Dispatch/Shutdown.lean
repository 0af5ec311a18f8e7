import HeadUnitLink.Proofs.Dispatch.History

/-!
# Shutting a pool down

A shutdown closes the queue to new batches.  The workers go on with what waits,
and a worker leaves when it finds the queue shut down and nothing waiting.
Others may still have jobs in flight then, so the question is whether the
workers can leave anything behind.  They cannot.

A shutdown can come between any two steps, and more than once.  One that the
transport asks for while it is handed a frame comes while the job of that frame
is held: the worker is neither idle nor done with the job.  The call that shuts a
pool down also waits for the workers.  No step here does, and what holds of all
these runs holds of those in which the call waits.

* `History.submit_eq_or` and `Pool.claim?_eq_some` give the guards that
  `History.Step` leaves out.
* `History.Staffed` is the invariant: every worker is idle, busy with one job or
  gone, and no worker is gone before the queue is shut down and empty.
* `History.accepted_of_shutdown` says that a queue that is shut down accepts
  nothing more in any run.
* `History.drains_of_run` puts this together.
-/

namespace HeadUnitLink

/-! ## The guards of the steps -/

namespace Queue

/-- A queue that is shut down refuses every batch with frames. -/
theorem submit_of_isShutdown {q : Queue} (hclosed : q.isShutdown = true)
    (session priority : UInt8) {frames : List Bytes} (hframes : frames ≠ []) :
    q.submit session priority frames = .error .shutdown := by
  unfold submit
  rw [if_neg hframes, if_pos hclosed]

end Queue

namespace Pool

/-- Only an idle worker claims. -/
theorem claim?_eq_some {p p' : Pool} {job : Job} (h : p.claim? = some (job, p')) :
    p.idle ≠ 0 ∧ p.queue.jobs.find? p.queue.isClaimable = some job ∧
      p' = { p with
        queue := p.queue.takeJob job, idle := p.idle - 1, holding := p.holding ++ [job] } := by
  unfold claim? at h
  by_cases hidle : p.idle = 0
  · rw [if_pos hidle] at h
    cases h
  · rw [if_neg hidle] at h
    obtain ⟨⟨first, queue⟩, hqueue, heq⟩ := Option.map_eq_some_iff.1 h
    obtain ⟨rfl, rfl⟩ := Prod.mk.inj heq
    obtain ⟨hfind, rfl⟩ := Queue.claim?_eq_some_iff.1 hqueue
    exact ⟨hidle, hfind, rfl⟩

/-- A worker may leave when it is idle, the queue is shut down and nothing
waits. -/
theorem mayLeave_iff {p : Pool} :
    p.mayLeave = true ↔ p.idle ≠ 0 ∧ p.queue.isShutdown = true ∧ p.queue.jobs = [] := by
  unfold mayLeave
  rw [Bool.and_eq_true, Bool.and_eq_true, decide_eq_true_iff, List.isEmpty_iff, and_assoc]

theorem submit_of_isShutdown {p : Pool} (hclosed : p.queue.isShutdown = true)
    (session priority : UInt8) {frames : List Bytes} (hframes : frames ≠ []) :
    p.submit session priority frames = .error .shutdown := by
  unfold submit
  rw [Queue.submit_of_isShutdown hclosed session priority hframes]
  rfl

end Pool

namespace History

variable {workers : Nat} {h h' : History} {event : PoolEvent} {events : List PoolEvent}

/-- A submission changes something only while the queue is open. -/
theorem submit_eq_or (h : History) (session priority : UInt8) (frames : List Bytes) :
    h.submit session priority frames = h ∨
      h.pool.queue.isShutdown = false ∧
        h.submit session priority frames = h.accept session priority frames := by
  by_cases hframes : frames = []
  · left
    subst hframes
    rfl
  · cases hclosed : h.pool.queue.isShutdown with
    | true =>
      left
      unfold submit
      rw [Pool.submit_of_isShutdown hclosed session priority hframes]
    | false =>
      right
      refine ⟨rfl, ?_⟩
      have hopen : h.pool.submit session priority frames =
          .ok { h.pool with queue := h.pool.queue.push session priority frames } := by
        unfold Pool.submit Queue.submit
        rw [if_neg hframes, if_neg (by rw [hclosed]; exact Bool.false_ne_true)]
        rfl
      unfold submit
      rw [hopen]
      simp only [if_neg hframes]
      rfl

/-! ## Where the workers are -/

/-- Every worker is idle, busy with one job or gone.  As soon as one is gone,
the queue is shut down and nothing waits. -/
structure Staffed (workers : Nat) (h : History) : Prop where
  count : h.pool.idle + h.flight.length + h.pool.left = max workers 1
  drained : 0 < h.pool.left → h.pool.queue.isShutdown = true ∧ h.pool.queue.jobs = []

theorem staffed_ofWorkers (workers : Nat) : Staffed workers (ofWorkers workers) := by
  constructor
  · rfl
  · intro hleft
    exact absurd hleft (Nat.lt_irrefl 0)

/-- A batch is accepted only while all workers are there. -/
theorem Staffed.accept (hs : Staffed workers h) (hopen : h.pool.queue.isShutdown = false)
    (session priority : UInt8) (frames : List Bytes) :
    Staffed workers (h.accept session priority frames) := by
  constructor
  · exact hs.count
  · intro hleft
    have hclosed := (hs.drained hleft).1
    rw [hopen] at hclosed
    cases hclosed

/-- A worker that claims is one idle worker less and one job in flight more. -/
theorem Staffed.claim (hs : Staffed workers h) (hidle : h.pool.idle ≠ 0) {job : Job}
    (hfind : h.pool.queue.jobs.find? h.pool.queue.isClaimable = some job) :
    Staffed workers (h.claim job) := by
  have hcount := hs.count
  constructor
  · show h.pool.idle - 1 + (h.pool.holding ++ [job] ++ h.pool.returned).length + h.pool.left = _
    unfold flight at hcount
    simp only [List.length_append, List.length_singleton] at hcount ⊢
    omega
  · intro hleft
    have hjobs := (hs.drained hleft).2
    rw [hjobs] at hfind
    cases hfind

theorem Staffed.handOver (hs : Staffed workers h) {job : Job}
    (hholding : job ∈ h.pool.holding) : Staffed workers (h.handOver job) := by
  have hlength : (h.handOver job).flight.length = h.flight.length :=
    (flight_handOver hholding).length_eq
  constructor
  · show h.pool.idle + (h.handOver job).flight.length + h.pool.left = _
    rw [hlength]
    exact hs.count
  · exact hs.drained

/-- A worker that completes its job is idle again. -/
theorem Staffed.complete (hs : Staffed workers h) {job : Job}
    (hreturned : job ∈ h.pool.returned) : Staffed workers (h.complete job) := by
  have hlength : h.flight.length = (h.complete job).flight.length + 1 :=
    (flight_complete hreturned).length_eq
  have hcount := hs.count
  constructor
  · show h.pool.idle + 1 + (h.complete job).flight.length + h.pool.left = _
    omega
  · exact hs.drained

/-- An idle worker leaves a queue that is shut down and empty. -/
theorem Staffed.leave (hs : Staffed workers h) (hmay : h.pool.mayLeave = true) :
    Staffed workers { h with
      pool := { h.pool with idle := h.pool.idle - 1, left := h.pool.left + 1 } } := by
  obtain ⟨hidle, hclosed, hjobs⟩ := Pool.mayLeave_iff.1 hmay
  have hcount := hs.count
  constructor
  · show h.pool.idle - 1 + h.flight.length + (h.pool.left + 1) = _
    omega
  · intro _
    exact ⟨hclosed, hjobs⟩

theorem Staffed.workerStep (hs : Staffed workers h) {event : WorkerEvent} {pool : Pool}
    (hstep : h.pool.workerStep event = some pool) :
    Staffed workers { h with pool, handed := h.handed ++ event.handed } := by
  cases event with
  | claim =>
    obtain ⟨⟨job, next⟩, hclaim, rfl⟩ := Option.map_eq_some_iff.1 hstep
    obtain ⟨hidle, hfind, rfl⟩ := Pool.claim?_eq_some hclaim
    have hclaimed := hs.claim hidle hfind
    exact ⟨hclaimed.count, hclaimed.drained⟩
  | handOver job fails =>
    simp only [Pool.workerStep] at hstep
    split at hstep
    · rename_i hholding
      cases hstep
      exact hs.handOver hholding
    · cases hstep
  | complete job =>
    simp only [Pool.workerStep] at hstep
    split at hstep
    · rename_i hreturned
      cases hstep
      have hcompleted := hs.complete hreturned
      exact ⟨hcompleted.count, hcompleted.drained⟩
    · cases hstep
  | leave =>
    simp only [Pool.workerStep] at hstep
    split at hstep
    · rename_i hmay
      cases hstep
      have hleft := hs.leave hmay
      exact ⟨hleft.count, hleft.drained⟩
    · cases hstep

theorem Staffed.step (hs : Staffed workers h) (hstep : h.step event = some h') :
    Staffed workers h' := by
  cases event with
  | submit session priority frames =>
    cases hstep
    rcases h.submit_eq_or session priority frames with hsame | ⟨hopen, haccept⟩
    · rw [hsame]
      exact hs
    · rw [haccept]
      exact hs.accept hopen session priority frames
  | shutdown =>
    cases hstep
    constructor
    · exact hs.count
    · intro hleft
      exact ⟨rfl, (hs.drained hleft).2⟩
  | worker event =>
    obtain ⟨pool, hpool, rfl⟩ := Option.map_eq_some_iff.1 hstep
    exact hs.workerStep hpool

theorem Staffed.run (hs : Staffed workers h) (hrun : h.run events = some h') :
    Staffed workers h' := by
  induction events generalizing h with
  | nil =>
    cases hrun
    exact hs
  | cons event rest ih =>
    obtain ⟨next, hstep, hrest⟩ := Option.bind_eq_some_iff.1 hrun
    exact ih (hs.step hstep) hrest

/-- When all workers are gone, nothing waits and nothing is in flight. -/
theorem Staffed.of_left_eq (hs : Staffed workers h) (hleft : h.pool.left = max workers 1) :
    h.pool.idle = 0 ∧ h.flight = [] ∧ h.pool.queue.isShutdown = true ∧
      h.pool.queue.jobs = [] := by
  have hcount := hs.count
  have hpos : 0 < h.pool.left := by omega
  obtain ⟨hclosed, hjobs⟩ := hs.drained hpos
  refine ⟨?_, ?_, hclosed, hjobs⟩
  · omega
  · apply List.eq_nil_of_length_eq_zero
    omega

/-! ## After a shutdown -/

theorem run_append (h : History) (before after : List PoolEvent) :
    h.run (before ++ after) = (h.run before).bind fun mid => mid.run after := by
  induction before generalizing h with
  | nil => rfl
  | cons event rest ih =>
    rw [List.cons_append, run, run, Option.bind_assoc]
    congr 1
    funext next
    exact ih next

/-- No worker opens or shuts a queue. -/
theorem isShutdown_workerStep {p p' : Pool} {event : WorkerEvent}
    (hstep : p.workerStep event = some p') : p'.queue.isShutdown = p.queue.isShutdown := by
  cases event with
  | claim =>
    obtain ⟨⟨job, next⟩, hclaim, rfl⟩ := Option.map_eq_some_iff.1 hstep
    obtain ⟨_, _, rfl⟩ := Pool.claim?_eq_some hclaim
    rfl
  | handOver job fails =>
    simp only [Pool.workerStep] at hstep
    split at hstep <;> cases hstep
    rfl
  | complete job =>
    simp only [Pool.workerStep] at hstep
    split at hstep <;> cases hstep
    rfl
  | leave =>
    simp only [Pool.workerStep] at hstep
    split at hstep <;> cases hstep
    rfl

theorem isShutdown_step (hstep : h.step event = some h') :
    h'.pool.queue.isShutdown = true ↔ h.pool.queue.isShutdown = true ∨ event = .shutdown := by
  cases event with
  | submit session priority frames =>
    cases hstep
    rcases h.submit_eq_or session priority frames with hsame | ⟨_, haccept⟩
    · rw [hsame]
      simp
    · rw [haccept]
      simp [accept, Queue.push]
  | shutdown =>
    cases hstep
    simp [Pool.shutdown, Queue.shutdown]
  | worker event =>
    obtain ⟨pool, hpool, rfl⟩ := Option.map_eq_some_iff.1 hstep
    simp [isShutdown_workerStep hpool]

/-- A queue is shut down once a shutdown has come, and stays so. -/
theorem isShutdown_run (hrun : h.run events = some h') :
    h'.pool.queue.isShutdown = true ↔
      h.pool.queue.isShutdown = true ∨ .shutdown ∈ events := by
  induction events generalizing h with
  | nil =>
    cases hrun
    simp
  | cons event rest ih =>
    obtain ⟨next, hstep, hrest⟩ := Option.bind_eq_some_iff.1 hrun
    rw [ih hrest, isShutdown_step hstep, List.mem_cons, or_assoc, eq_comm (a := event)]

/-- A queue that is shut down accepts nothing. -/
theorem accepted_step (hclosed : h.pool.queue.isShutdown = true)
    (hstep : h.step event = some h') : h'.accepted = h.accepted := by
  cases event with
  | submit session priority frames =>
    cases hstep
    rcases h.submit_eq_or session priority frames with hsame | ⟨hopen, _⟩
    · rw [hsame]
    · rw [hopen] at hclosed
      cases hclosed
  | shutdown =>
    cases hstep
    rfl
  | worker event =>
    obtain ⟨pool, _, rfl⟩ := Option.map_eq_some_iff.1 hstep
    rfl

theorem accepted_run (hclosed : h.pool.queue.isShutdown = true)
    (hrun : h.run events = some h') : h'.accepted = h.accepted := by
  induction events generalizing h with
  | nil =>
    cases hrun
    rfl
  | cons event rest ih =>
    obtain ⟨next, hstep, hrest⟩ := Option.bind_eq_some_iff.1 hrun
    have hnext := (isShutdown_step hstep).2 (Or.inl hclosed)
    rw [ih hnext hrest]
    exact accepted_step hclosed hstep

/-- What was accepted before a shutdown is all that is ever accepted. -/
theorem accepted_of_shutdown {before after : List PoolEvent}
    (hrun : h.run (before ++ .shutdown :: after) = some h') :
    ∃ closing, h.run before = some closing ∧ h'.accepted = closing.accepted := by
  rw [run_append] at hrun
  obtain ⟨closing, hbefore, hafter⟩ := Option.bind_eq_some_iff.1 hrun
  obtain ⟨closed, hstep, hrest⟩ := Option.bind_eq_some_iff.1 hafter
  cases hstep
  have hsame := accepted_run (by rfl) hrest
  exact ⟨closing, hbefore, hsame⟩

/-! ## The result -/

/-- What the shutdowns among the events do to a pool. -/
structure Drains (workers : Nat) (events : List PoolEvent) (h : History) : Prop where
  /-- After a shutdown every batch with frames is refused and changes
  nothing. -/
  refuses : .shutdown ∈ events → ∀ session priority frames, frames ≠ [] →
    h.pool.submit session priority frames = .error .shutdown ∧
      h.step (.submit session priority frames) = some h
  /-- The workers go only after a shutdown, and when all are gone, nothing waits
  and nothing is in flight. -/
  empties : h.pool.left = max workers 1 → .shutdown ∈ events ∧ h.pool.queue.jobs = [] ∧
    h.flight = [] ∧ h.pool.queue.inFlight = 0
  /-- Then every frame that was accepted before a shutdown has been handed over
  once, and no other frame has. -/
  sends : h.pool.left = max workers 1 →
    ∀ before after, events = before ++ .shutdown :: after →
      ∃ closing, (ofWorkers workers).run before = some closing ∧
        ∀ job, h.handed.count job = if job ∈ closing.jobs then 1 else 0

/-- Whatever is submitted, however often and in the middle of whatever the queue
is shut down, and in whatever order the workers do their work, with a transport
that fails or not: the workers leave nothing behind. -/
theorem drains_of_run (hrun : (ofWorkers workers).run events = some h) :
    Drains workers events h := by
  have hs : Staffed workers h := (staffed_ofWorkers workers).run hrun
  have hk : Kept h :=
    run_induction (fun _ _ hstep hk => hk.step hstep) hrun (kept_ofWorkers workers)
  have hshutdown := isShutdown_run hrun
  constructor
  case refuses =>
    intro hmem session priority frames hframes
    have hclosed : h.pool.queue.isShutdown = true := hshutdown.2 (Or.inr hmem)
    have hrefused := Pool.submit_of_isShutdown hclosed session priority hframes
    refine ⟨hrefused, ?_⟩
    show some (h.submit session priority frames) = some h
    unfold submit
    rw [hrefused]
  case empties =>
    intro hleft
    obtain ⟨_, hflight, hclosed, hjobs⟩ := hs.of_left_eq hleft
    have hmem : .shutdown ∈ events := by
      rcases hshutdown.1 hclosed with hstart | hmem
      · cases hstart
      · exact hmem
    refine ⟨hmem, hjobs, hflight, ?_⟩
    rw [hk.inFlight_eq, hflight]
    rfl
  case sends =>
    intro hleft before after hevents
    obtain ⟨_, hflight, _, hjobs⟩ := hs.of_left_eq hleft
    have hidle : h.pool.queue.isIdle = true := by
      apply Queue.isIdle_iff.2
      refine ⟨hjobs, ?_⟩
      rw [hk.inFlight_eq, hflight]
      rfl
    rw [hevents] at hrun
    obtain ⟨closing, hclosing, haccepted⟩ := accepted_of_shutdown hrun
    refine ⟨closing, hclosing, ?_⟩
    intro job
    have hperm := hk.perm_of_isIdle hidle
    have hsame : h.jobs = closing.jobs := by
      unfold jobs
      rw [haccepted]
    rw [hperm.count_eq, ← hsame, hk.jobs_nodup.count]

/-- Two workers.  One comes with a frame, and the transport shuts the queue down
before it takes it.  The other one sends the two frames of another session and
leaves.  This is what the transport has waited for: it goes on, loses its frame,
and the first worker leaves too. -/
theorem drains_of_run_in_transport :
    let short : Batch := { number := 0, start := 0, session := 1, priority := 7, frames := [[1]] }
    let long : Batch :=
      { number := 1, start := 1, session := 2, priority := 7, frames := [[2], [3]] }
    let events : List PoolEvent := [
      .submit 1 7 short.frames, .submit 2 7 long.frames, .worker .claim, .shutdown,
      .submit 3 0 [[4]],
      .worker .claim, .worker (.handOver (long.job 0 [2]) false),
      .worker (.complete (long.job 0 [2])), .shutdown,
      .worker .claim, .worker (.handOver (long.job 1 [3]) false),
      .worker (.complete (long.job 1 [3])), .worker .leave,
      .worker (.handOver (short.job 0 [1]) true), .worker (.complete (short.job 0 [1])),
      .worker .leave]
    ∃ h, (ofWorkers 2).run events = some h ∧ h.pool.left = 2 ∧
      h.handed = [long.job 0 [2], long.job 1 [3], short.job 0 [1]] ∧ Drains 2 events h := by
  intro short long events
  have hends : ((ofWorkers 2).run events).map (fun h => (h.pool.left, h.handed)) =
      some (2, [long.job 0 [2], long.job 1 [3], short.job 0 [1]]) := by
    decide +kernel
  obtain ⟨h, hrun, hend⟩ := Option.map_eq_some_iff.1 hends
  obtain ⟨hleft, hhanded⟩ := Prod.mk.inj hend
  exact ⟨h, hrun, hleft, hhanded, drains_of_run hrun⟩

end History

end HeadUnitLink
