import HeadUnitLink.Proofs.Dispatch.Order

/-!
# A queue does not stall

A pin that outlives its batch, or a batch whose last frame is lost, would block
a session for ever.  Neither happens.

* `Queue.Reachable` are the queues that submissions, claims and completions
  lead to, each with the jobs in flight.
* `Orderly.exists_waiting_of_pinned` is the reason for all that follows: a
  pinned session with nothing in flight has a frame of its batch waiting.
* `History.PinsHeld` says that a pin is held by a frame, and `PinsHeld.step`
  keeps it.
* `Queue.Reachable.exists_history` finds the history of a queue, and
  `Queue.Reachable.neverStalls` reads the result off that history.
-/

namespace HeadUnitLink

namespace Queue

/-- The queues that can come about, with the jobs that were claimed and are not
complete.  A claimed job is completed once, at any time. -/
inductive Reachable : Queue → List Job → Prop where
  | empty : Reachable Queue.empty []
  | push {q : Queue} {flight : List Job} (session priority : UInt8) {frames : List Bytes}
      (hframes : frames ≠ []) (hreach : Reachable q flight) :
      Reachable (q.push session priority frames) flight
  | shutdown {q : Queue} {flight : List Job} (hreach : Reachable q flight) :
      Reachable q.shutdown flight
  | claim {q next : Queue} {flight : List Job} {job : Job}
      (hclaim : q.claim? = some (job, next)) (hreach : Reachable q flight) :
      Reachable next (job :: flight)
  | complete {q : Queue} {flight : List Job} {job : Job} (hjob : job ∈ flight)
      (hreach : Reachable q flight) : Reachable (q.complete job) (flight.erase job)

end Queue

namespace History

variable {h h' : History} {session : UInt8} {number : Nat}

/-! ## What a pin waits for -/

/-- A session that is pinned with nothing in flight is in the middle of the
batch, and the next frame of it waits. -/
theorem Orderly.exists_waiting_of_pinned (ho : Orderly h)
    (hpin : h.pool.queue.pinned.lookup session = some number)
    (hfree : ∀ job ∈ h.flight, job.session ≠ session) :
    ∃ job ∈ h.pool.queue.jobs, job.session = session ∧ job.batch = number := by
  obtain ⟨order, current, lanes, ht⟩ := ho.inTurn session
  by_cases hcurrent : current = []
  · have hnone := ht.unpinned hcurrent fun job hjob hown => absurd hown (hfree job hjob)
    exact absurd (hpin.symm.trans hnone) (by simp)
  · obtain ⟨job, hjob⟩ := List.exists_mem_of_ne_nil current hcurrent
    have hwaits : job ∈ h.pool.queue.jobs.filter (Queue.onLane session job.priority) := by
      rw [ht.waiting_eq]
      exact List.mem_append_left _ (List.mem_filter.2 ⟨hjob, decide_eq_true rfl⟩)
    obtain ⟨hmem, hlane⟩ := List.mem_filter.1 hwaits
    have hbatch := (ht.pinned job hjob).symm.trans hpin
    exact ⟨job, hmem, (Queue.onLane_iff.1 hlane).1, Option.some.inj hbatch⟩

/-- A session that has something to send and nothing in flight can go on. -/
theorem Orderly.exists_claimable (ho : Orderly h) {job : Job} (hjob : job ∈ h.pool.queue.jobs)
    (hfree : ∀ other ∈ h.flight, other.session ≠ job.session) :
    ∃ next ∈ h.pool.queue.jobs, next.session = job.session ∧
      h.pool.queue.isClaimable next = true := by
  have hbusy : job.session ∉ h.pool.queue.busy := by
    intro hmem
    obtain ⟨other, hother, hown⟩ := List.mem_map.1 (ho.kept.busy_perm.mem_iff.1 hmem)
    exact hfree other hother hown
  cases hpin : h.pool.queue.pinned.lookup job.session with
  | none => exact ⟨job, hjob, rfl, Queue.isClaimable_iff.2 ⟨hbusy, Or.inl hpin⟩⟩
  | some number =>
    obtain ⟨next, hnext, hown, hbatch⟩ := ho.exists_waiting_of_pinned hpin hfree
    refine ⟨next, hnext, hown, Queue.isClaimable_iff.2 ⟨?_, Or.inr ?_⟩⟩
    · rwa [hown]
    · rw [hown, hbatch, hpin]

/-! ## Who holds a pin -/

/-- A session is pinned to a batch only while a frame of the batch waits or is
in flight. -/
def PinsHeld (h : History) : Prop :=
  ∀ session number, h.pool.queue.pinned.lookup session = some number →
    ∃ job ∈ h.pool.queue.jobs ++ h.flight, job.session = session ∧ job.batch = number

theorem pinsHeld_ofWorkers (workers : Nat) : PinsHeld (ofWorkers workers) :=
  fun _ _ hpin => absurd hpin (by simp [ofWorkers, Pool.ofWorkers, Queue.empty])

/-- Pins are held as long as none is new and no frame is gone. -/
theorem PinsHeld.mono (hp : PinsHeld h)
    (hpinned : h'.pool.queue.pinned = h.pool.queue.pinned)
    (hjobs : h.pool.queue.jobs ⊆ h'.pool.queue.jobs) (hflight : h.flight ⊆ h'.flight) :
    PinsHeld h' := by
  intro session number hpin
  rw [hpinned] at hpin
  obtain ⟨job, hjob, hown⟩ := hp session number hpin
  refine ⟨job, List.mem_append.2 ?_, hown⟩
  exact (List.mem_append.1 hjob).imp (fun hin => hjobs hin) fun hin => hflight hin

theorem mem_claim_of_mem {job other : Job} (hother : other ∈ h.pool.queue.jobs ++ h.flight) :
    other ∈ (h.claim job).pool.queue.jobs ++ (h.claim job).flight := by
  by_cases heq : other = job
  · exact List.mem_append_right _ (mem_flight_claim.2 (Or.inr heq))
  rcases List.mem_append.1 hother with hwaits | hflight
  · exact List.mem_append_left _ ((List.mem_erase_of_ne heq).2 hwaits)
  · exact List.mem_append_right _ (mem_flight_claim.2 (Or.inl hflight))

/-- The frame that opens a batch holds the pin that it sets. -/
theorem PinsHeld.claim (hp : PinsHeld h) (job : Job) : PinsHeld (h.claim job) := by
  intro session number hpin
  have hold : h.pool.queue.pinned.lookup session = some number →
      ∃ other ∈ (h.claim job).pool.queue.jobs ++ (h.claim job).flight,
        other.session = session ∧ other.batch = number := by
    intro hpin
    obtain ⟨other, hother, hown⟩ := hp session number hpin
    exact ⟨other, mem_claim_of_mem hother, hown⟩
  change (h.pool.queue.takeJob job).pinned.lookup session = some number at hpin
  cases hopens : job.opensBatch with
  | false => exact hold ((lookup_takeJob_of_not_opens _ hopens session) ▸ hpin)
  | true =>
    by_cases hsession : session = job.session
    · rw [hsession, lookup_takeJob_of_opens _ hopens] at hpin
      have hflight : job ∈ (h.claim job).flight := mem_flight_claim.2 (Or.inr rfl)
      exact ⟨job, List.mem_append_right _ hflight, hsession.symm, Option.some.inj hpin⟩
    · exact hold ((lookup_takeJob_of_ne _ hsession) ▸ hpin)

/-- The pin of the completed frame goes over to a frame that waits, if it is
not lifted. -/
theorem PinsHeld.complete (hp : PinsHeld h) (hk : Kept h) {job : Job}
    (hreturned : job ∈ h.pool.returned) (ho : Orderly (h.complete job)) :
    PinsHeld (h.complete job) := by
  intro session number hpin
  have hflight := flight_complete hreturned
  by_cases hsession : session = job.session
  · obtain ⟨other, hother, hown⟩ := ho.exists_waiting_of_pinned hpin fun other hother hown => by
      -- the completed frame was the only one of its session in flight
      have hnodup := (hflight.map Job.session).nodup_iff.1
        (hk.busy_perm.nodup_iff.1 hk.busy_nodup)
      rw [List.map_cons, List.nodup_cons] at hnodup
      exact hnodup.1 (List.mem_map.2 ⟨other, hother, hown.trans hsession⟩)
    exact ⟨other, List.mem_append_left _ hother, hown⟩
  · change (h.pool.queue.complete job).pinned.lookup session = some number at hpin
    rw [lookup_complete_of_ne _ hsession] at hpin
    obtain ⟨other, hother, hown, hbatch⟩ := hp session number hpin
    refine ⟨other, ?_, hown, hbatch⟩
    rcases List.mem_append.1 hother with hwaits | hin
    · exact List.mem_append_left _ hwaits
    · rcases List.mem_cons.1 (hflight.mem_iff.1 hin) with rfl | hleft
      · exact absurd hown.symm hsession
      · exact List.mem_append_right _ hleft

theorem PinsHeld.step (hp : PinsHeld h) (ho : Orderly h) (hstep : Step h h') : PinsHeld h' := by
  cases hstep with
  | refused => exact hp
  | accepted s p frames hframes =>
    refine hp.mono rfl (fun job hjob => ?_) (List.Subset.refl _)
    exact (Queue.perm_jobs_push _ s p frames).mem_iff.2 (List.mem_append_left _ hjob)
  | shutdown => exact hp
  | claimed job hfind => exact hp.claim job
  | handedOver job hholding =>
    exact hp.mono rfl (List.Subset.refl _) (flight_handOver hholding).symm.subset
  | completed job hreturned =>
    exact hp.complete ho.kept hreturned (ho.step (Step.completed job hreturned))
  | left => exact hp

end History

namespace Queue

variable {q : Queue} {flight : List Job}

/-! ## Every queue -/

/-- The history of a queue, with a transport that takes every frame as soon as
it is claimed. -/
structure RecordedBy (q : Queue) (flight : List Job) (h : History) : Prop where
  orderly : h.Orderly
  pinsHeld : h.PinsHeld
  queue_eq : h.pool.queue = q
  holding_eq : h.pool.holding = []
  returned_perm : h.pool.returned.Perm flight

theorem RecordedBy.flight_perm {h : History} (hr : RecordedBy q flight h) :
    h.flight.Perm flight := by
  unfold History.flight
  rw [hr.holding_eq, List.nil_append]
  exact hr.returned_perm

theorem RecordedBy.claim {h : History} (hr : RecordedBy q flight h) {next : Queue} {job : Job}
    (hclaim : q.claim? = some (job, next)) :
    RecordedBy next (job :: flight) ((h.claim job).handOver job) := by
  obtain ⟨hfind, rfl⟩ := claim?_eq_some_iff.1 hclaim
  rw [← hr.queue_eq] at hfind
  have hholding : (h.claim job).pool.holding = [job] := by
    unfold History.claim
    simp only [hr.holding_eq, List.nil_append]
  have hclaimed : History.Step h (h.claim job) := .claimed job hfind
  have hhanded : History.Step (h.claim job) ((h.claim job).handOver job) :=
    .handedOver job (hholding ▸ List.mem_cons_self)
  have horderly := hr.orderly.step hclaimed
  refine ⟨horderly.step hhanded, (hr.pinsHeld.claim job).step horderly hhanded, ?_, ?_, ?_⟩
  · rw [← hr.queue_eq]
    rfl
  · show (h.claim job).pool.holding.erase job = []
    rw [hholding, List.erase_cons_head]
  · exact (List.perm_append_singleton _ _).trans (hr.returned_perm.cons job)

theorem Reachable.exists_history (hreach : q.Reachable flight) :
    ∃ h : History, RecordedBy q flight h := by
  induction hreach with
  | empty =>
    exact ⟨History.ofWorkers 0, History.orderly_ofWorkers 0, History.pinsHeld_ofWorkers 0, rfl, rfl,
      List.Perm.refl _⟩
  | push session priority hframes _ ih =>
    obtain ⟨h, hr⟩ := ih
    have hstep := History.Step.accepted (h := h) session priority _ hframes
    refine ⟨_, hr.orderly.step hstep, hr.pinsHeld.step hr.orderly hstep, ?_, hr.holding_eq,
      hr.returned_perm⟩
    rw [← hr.queue_eq]
    rfl
  | shutdown _ ih =>
    obtain ⟨h, hr⟩ := ih
    have hstep := History.Step.shutdown (h := h)
    refine ⟨_, hr.orderly.step hstep, hr.pinsHeld.step hr.orderly hstep, ?_, hr.holding_eq,
      hr.returned_perm⟩
    rw [← hr.queue_eq]
    rfl
  | claim hclaim _ ih =>
    obtain ⟨h, hr⟩ := ih
    exact ⟨_, hr.claim hclaim⟩
  | @complete q flight job hjob _ ih =>
    obtain ⟨h, hr⟩ := ih
    have hstep := History.Step.completed (h := h) job (hr.returned_perm.mem_iff.2 hjob)
    refine ⟨_, hr.orderly.step hstep, hr.pinsHeld.step hr.orderly hstep, ?_, hr.holding_eq,
      hr.returned_perm.erase job⟩
    rw [← hr.queue_eq]
    rfl

/-- What keeps a queue going. -/
structure NeverStalls (q : Queue) (flight : List Job) : Prop where
  /-- A claim finds a job if something waits and nothing is in flight. -/
  goesOn : q.jobs ≠ [] → flight = [] → ∃ job next, q.claim? = some (job, next)
  /-- The jobs in flight are counted right, -/
  inFlight_eq : q.inFlight = flight.length
  /-- so the count is not 0 when one of them is completed, -/
  inFlight_pos : ∀ job ∈ flight, 0 < q.inFlight
  /-- and it is the number of busy sessions. -/
  inFlight_busy : q.inFlight = q.busy.length
  /-- The busy sessions are those of the jobs in flight. -/
  busy_perm : q.busy.Perm (flight.map Job.session)
  /-- No session has two jobs in flight. -/
  sessions_nodup : (flight.map Job.session).Nodup
  /-- A pin is held by a frame of its batch. -/
  held : ∀ session number, q.pinned.lookup session = some number →
    ∃ job ∈ q.jobs ++ flight, job.session = session ∧ job.batch = number
  /-- Nothing is pinned or busy once nothing is left to do. -/
  free_of_isIdle : q.isIdle = true → q.pinned = [] ∧ q.busy = []

/-- Whatever is submitted and in whatever order the claimed jobs are completed,
the queue goes on until nothing is left to do. -/
theorem Reachable.neverStalls (hreach : q.Reachable flight) : NeverStalls q flight := by
  obtain ⟨h, hr⟩ := hreach.exists_history
  have hflight := hr.flight_perm
  have hk := hr.orderly.kept
  have hcount : q.inFlight = flight.length := by
    rw [← hr.queue_eq, hk.inFlight_eq, hflight.length_eq]
  have hbusy : q.busy.Perm (flight.map Job.session) := by
    rw [← hr.queue_eq]
    exact hk.busy_perm.trans (hflight.map Job.session)
  have hheld : ∀ session number, q.pinned.lookup session = some number →
      ∃ job ∈ q.jobs ++ flight, job.session = session ∧ job.batch = number := by
    intro session number hpin
    rw [← hr.queue_eq] at hpin
    obtain ⟨job, hjob, hown⟩ := hr.pinsHeld session number hpin
    rw [hr.queue_eq] at hjob
    exact ⟨job, (hflight.append_left q.jobs).mem_iff.1 hjob, hown⟩
  refine ⟨fun hjobs hnone => ?goesOn, hcount, fun job hjob => ?positive, ?busy, hbusy, ?nodup,
    hheld, fun hidle => ?free⟩
  case goesOn =>
    obtain ⟨job, hjob⟩ := List.exists_mem_of_ne_nil q.jobs hjobs
    have hempty : h.flight = [] := (hnone ▸ hflight).eq_nil
    obtain ⟨next, hnext, -, hclaimable⟩ := hr.orderly.exists_claimable (hr.queue_eq ▸ hjob)
      fun other hother => absurd (hempty ▸ hother) List.not_mem_nil
    rw [hr.queue_eq] at hnext hclaimable
    exact exists_claim? hnext hclaimable
  case positive =>
    rw [hcount]
    exact List.length_pos_of_mem hjob
  case busy => rw [hcount, hbusy.length_eq, List.length_map]
  case nodup =>
    refine hbusy.nodup_iff.1 ?_
    rw [← hr.queue_eq]
    exact hk.busy_nodup
  case free =>
    obtain ⟨hjobs, hzero⟩ := isIdle_iff.1 hidle
    have hnone : flight = [] := List.eq_nil_of_length_eq_zero (hcount.symm.trans hzero)
    subst hnone
    refine ⟨eq_nil_of_lookup_eq_none fun session => ?_, hbusy.eq_nil⟩
    cases hpin : q.pinned.lookup session with
    | none => rfl
    | some number =>
      obtain ⟨job, hjob, -⟩ := hheld session number hpin
      rw [hjobs] at hjob
      exact absurd hjob List.not_mem_nil

/-- The first frame of a message is out, a more urgent frame of the session
waits before the second one, and the claim still finds the second one. -/
theorem Reachable.neverStalls_urgent :
    let long : Batch :=
      { number := 0, start := 0, session := 1, priority := 7, frames := [[1], [2]] }
    let begun := (Queue.empty.push 1 7 [[1], [2]]).takeJob (long.job 0 [1])
    let q := (begun.push 1 0 [[3]]).complete (long.job 0 [1])
    q.jobs.length = 2 ∧ q.pinned = [(1, 0)] ∧ q.claim?.map Prod.fst = some (long.job 1 [2]) ∧
      q.Reachable [] ∧ NeverStalls q [] := by
  intro long begun q
  have hbegun : begun.Reachable [long.job 0 [1]] :=
    .claim (q := Queue.empty.push 1 7 [[1], [2]]) rfl (.push 1 7 (by simp) .empty)
  have hq : q.Reachable [] := .complete List.mem_cons_self (.push 1 0 (by simp) hbegun)
  exact ⟨rfl, rfl, rfl, hq, hq.neverStalls⟩

end Queue

end HeadUnitLink
