import HeadUnitLink.Proofs.Dispatch.History
import HeadUnitLink.Proofs.Lists

/-!
# The order in which a session is served

Workers claim in any order and a later batch can be more urgent, and still the
frames of one session leave batch after batch.  The argument looks at one
session at a time.

* `History.Arranged` splits its batches into those begun, in the order in
  which they were begun, and those that wait, by priority.  Of a batch in
  between, some jobs were claimed and the others are first on their lane.
* `History.InTurn` adds what the pin of the session has to do with it.
* `Arranged.take` is the heart: a claim goes on with the batch in between, or
  begins the first batch of a lane if there is none.
* `History.delivered_of_run` puts this together for every run.
-/

namespace HeadUnitLink

/-- Is this a batch of the session, at the priority? -/
def Batch.onLane (session priority : UInt8) (b : Batch) : Bool :=
  b.session = session ∧ b.priority = priority

theorem Batch.onLane_iff {session priority : UInt8} {b : Batch} :
    b.onLane session priority = true ↔ b.session = session ∧ b.priority = priority := by
  unfold onLane
  exact decide_eq_true_iff

namespace History

/-- The jobs of a session that were ever claimed, in the order of the
claims. -/
def claimed (h : History) (session : UInt8) : List Job :=
  (h.handed ++ h.pool.holding).filter fun job => job.session = session

/-- The batches of a session are those of `order`, begun one after the other,
and those that wait on `lanes`; `current` is what waits of the last one that
was begun. -/
structure Arranged (h : History) (session : UInt8) (order : List Batch) (current : List Job)
    (lanes : UInt8 → List Batch) : Prop where
  claimed_eq : h.claimed session ++ current = order.flatMap Batch.jobs
  waiting_eq : ∀ priority, h.pool.queue.jobs.filter (Queue.onLane session priority) =
    (current.filter fun job => job.priority = priority) ++ (lanes priority).flatMap Batch.jobs
  lanes_eq : ∀ priority, (order.filter fun b => b.priority = priority) ++ lanes priority =
    h.accepted.filter (Batch.onLane session priority)

/-- A session is pinned to the batch that it is in the middle of, and to no
batch once the last job of one is complete. -/
structure InTurn (h : History) (session : UInt8) (order : List Batch) (current : List Job)
    (lanes : UInt8 → List Batch) : Prop extends Arranged h session order current lanes where
  begun : current ≠ [] → ∃ b ∈ order, ∃ taken, 0 < taken ∧ current = b.jobs.drop taken
  pinned : ∀ job ∈ current, h.pool.queue.pinned.lookup session = some job.batch
  unclosed : current ≠ [] → ∀ job ∈ h.flight, job.session = session → job.closesBatch = false
  unpinned : current = [] →
    (∀ job ∈ h.flight, job.session = session → job.closesBatch = false) →
    h.pool.queue.pinned.lookup session = none

theorem inTurn_ofWorkers (workers : Nat) (session : UInt8) :
    InTurn (ofWorkers workers) session [] [] fun _ => [] where
  claimed_eq := rfl
  waiting_eq := fun _ => rfl
  lanes_eq := fun _ => rfl
  begun := fun hne => absurd rfl hne
  pinned := fun _ hjob => absurd hjob List.not_mem_nil
  unclosed := fun hne => absurd rfl hne
  unpinned := fun _ _ => rfl

variable {h : History} {session : UInt8} {order : List Batch} {current : List Job}
  {lanes : UInt8 → List Batch}

/-! ## Where a batch is -/

theorem Arranged.of_lane (ha : Arranged h session order current lanes) {b : Batch}
    {priority : UInt8} (hb : b ∈ lanes priority) :
    b ∈ h.accepted ∧ b.session = session ∧ b.priority = priority := by
  have hmem : b ∈ h.accepted.filter (Batch.onLane session priority) := by
    rw [← ha.lanes_eq]
    exact List.mem_append_right _ hb
  obtain ⟨haccepted, hlane⟩ := List.mem_filter.1 hmem
  exact ⟨haccepted, Batch.onLane_iff.1 hlane⟩

theorem Arranged.of_order (ha : Arranged h session order current lanes) {b : Batch}
    (hb : b ∈ order) : b ∈ h.accepted ∧ b.session = session := by
  have hmem : b ∈ h.accepted.filter (Batch.onLane session b.priority) := by
    rw [← ha.lanes_eq]
    exact List.mem_append_left _ (List.mem_filter.2 ⟨hb, decide_eq_true rfl⟩)
  obtain ⟨haccepted, hlane⟩ := List.mem_filter.1 hmem
  exact ⟨haccepted, (Batch.onLane_iff.1 hlane).1⟩

/-- A batch that was begun does not wait. -/
theorem Arranged.not_mem_lane (ha : Arranged h session order current lanes) (hk : Kept h)
    {b : Batch} (hb : b ∈ order) (priority : UInt8) : b ∉ lanes priority := by
  intro hlane
  obtain ⟨_, _, hpriority⟩ := ha.of_lane hlane
  have hnodup : ((order.filter fun b => b.priority = priority) ++ lanes priority).Nodup := by
    rw [ha.lanes_eq]
    exact hk.accepted_nodup.filter _
  have hbegun : b ∈ order.filter fun b => b.priority = priority :=
    List.mem_filter.2 ⟨hb, decide_eq_true hpriority⟩
  exact (List.nodup_append.1 hnodup).2.2 b hbegun b hlane rfl

/-! ## A new batch -/

/-- A new batch comes last on its lane. -/
theorem InTurn.accept (ht : InTurn h session order current lanes)
    (hsorted : Queue.Sorted h.pool.queue.jobs) (s p : UInt8) (frames : List Bytes) :
    InTurn (h.accept s p frames) session order current fun priority => lanes priority ++
        if s = session ∧ p = priority then [h.pool.queue.nextOf s p frames] else [] where
  claimed_eq := ht.claimed_eq
  waiting_eq := by
    intro priority
    show (h.pool.queue.push s p frames).jobs.filter _ = _
    rw [Queue.filter_lane_push hsorted, ht.waiting_eq, List.append_assoc, List.flatMap_append]
    split
    · rw [List.flatMap_singleton]
    · rfl
  lanes_eq := by
    intro priority
    show _ = (h.accepted ++ [_]).filter _
    rw [← List.append_assoc, ht.lanes_eq, List.filter_append, List.filter_singleton]
    by_cases hlane : s = session ∧ p = priority <;> simp [Batch.onLane, Queue.nextOf, hlane]
  begun := ht.begun
  pinned := ht.pinned
  unclosed := ht.unclosed
  unpinned := ht.unpinned

/-! ## A claim -/

theorem lookup_takeJob_of_not_opens (q : Queue) {job : Job} (hopens : job.opensBatch = false)
    (session : UInt8) : (q.takeJob job).pinned.lookup session = q.pinned.lookup session := by
  unfold Queue.takeJob
  simp only [hopens]
  rfl

theorem lookup_takeJob_of_ne (q : Queue) {job : Job} (hne : session ≠ job.session) :
    (q.takeJob job).pinned.lookup session = q.pinned.lookup session := by
  unfold Queue.takeJob
  simp only
  split
  · exact lookup_cons_of_ne hne _ _
  · rfl

theorem lookup_takeJob_of_opens (q : Queue) {job : Job} (hopens : job.opensBatch = true) :
    (q.takeJob job).pinned.lookup job.session = some job.batch := by
  unfold Queue.takeJob
  simp only [hopens, if_true]
  exact List.lookup_cons_self

theorem mem_flight_claim {job other : Job} :
    other ∈ (h.claim job).flight ↔ other ∈ h.flight ∨ other = job := by
  unfold flight claim
  simp only [List.mem_append, List.mem_singleton]
  exact or_right_comm

theorem claimed_claim (h : History) (job : Job) (session : UInt8) :
    (h.claim job).claimed session =
      h.claimed session ++ if job.session = session then [job] else [] := by
  unfold claimed claim
  simp only
  rw [← List.append_assoc, List.filter_append, List.filter_singleton]
  by_cases heq : job.session = session <;> simp [heq]

theorem InTurn.claim_other (ht : InTurn h session order current lanes) {job : Job}
    (hne : job.session ≠ session) : InTurn (h.claim job) session order current lanes where
  claimed_eq := by
    rw [claimed_claim, if_neg hne, List.append_nil]
    exact ht.claimed_eq
  waiting_eq := by
    intro priority
    have hlane : Queue.onLane session priority job = false :=
      Bool.eq_false_iff.2 fun hon => hne (Queue.onLane_iff.1 hon).1
    show (h.pool.queue.jobs.erase job).filter _ = _
    rw [filter_erase_of_not hlane]
    exact ht.waiting_eq priority
  lanes_eq := ht.lanes_eq
  begun := ht.begun
  pinned := by
    intro waiting hwaiting
    show (h.pool.queue.takeJob job).pinned.lookup session = _
    rw [lookup_takeJob_of_ne _ (Ne.symm hne)]
    exact ht.pinned waiting hwaiting
  unclosed := by
    intro hcurrent other hother hsession
    rcases mem_flight_claim.1 hother with hflight | rfl
    · exact ht.unclosed hcurrent other hflight hsession
    · exact absurd hsession hne
  unpinned := by
    intro hcurrent hopen
    show (h.pool.queue.takeJob job).pinned.lookup session = _
    rw [lookup_takeJob_of_ne _ (Ne.symm hne)]
    exact ht.unpinned hcurrent fun other hother => hopen other (mem_flight_claim.2 (Or.inl hother))

/-- The next job of a batch is claimed, by a session that has nothing in flight
and is pinned to the batch unless the job is its first. -/
theorem Arranged.take {b : Batch} {taken : Nat}
    (ha : Arranged h session order (b.jobs.drop taken) lanes) (hb : b ∈ order)
    (hsession : b.session = session) (htaken : taken < b.frames.length)
    (hfree : ∀ other ∈ h.flight, other.session ≠ session)
    (hpin : h.pool.queue.pinned.lookup session = if taken = 0 then none else some b.number) :
    InTurn (h.claim (b.job taken b.frames[taken])) session order (b.jobs.drop (taken + 1))
      lanes where
  claimed_eq := by
    rw [claimed_claim, Batch.session_job, if_pos hsession, List.append_assoc, List.singleton_append,
      ← Batch.drop_jobs htaken]
    exact ha.claimed_eq
  waiting_eq := by
    intro priority
    have hwaiting := ha.waiting_eq priority
    rw [Batch.drop_jobs htaken, List.filter_cons, Batch.priority_job] at hwaiting
    show (h.pool.queue.jobs.erase _).filter _ = _
    by_cases hpriority : b.priority = priority
    · rw [if_pos (decide_eq_true hpriority), List.cons_append] at hwaiting
      exact filter_erase_of_head hwaiting
    · rw [if_neg (mt of_decide_eq_true hpriority)] at hwaiting
      have hlane : Queue.onLane session priority (b.job taken b.frames[taken]) = false :=
        Bool.eq_false_iff.2 fun hon => hpriority (Queue.onLane_iff.1 hon).2
      rw [filter_erase_of_not hlane]
      exact hwaiting
  lanes_eq := ha.lanes_eq
  begun := fun _ => ⟨b, hb, taken + 1, Nat.succ_pos taken, rfl⟩
  pinned := by
    intro job hjob
    have hmore : taken + 1 < b.frames.length := by
      refine Nat.lt_of_not_le fun hle => ?_
      rw [(b.drop_jobs_eq_nil_iff (taken + 1)).2 hle] at hjob
      exact List.not_mem_nil hjob
    rw [Batch.batch_of_mem (List.mem_of_mem_drop hjob)]
    show (h.pool.queue.takeJob _).pinned.lookup session = _
    by_cases hfirst : taken = 0
    · have hopens : (b.job taken b.frames[taken]).opensBatch = true := by
        have hmany : 1 < b.frames.length := by omega
        simp [Batch.job, hfirst, hmany]
      rw [← hsession]
      exact lookup_takeJob_of_opens _ hopens
    · have hopens : (b.job taken b.frames[taken]).opensBatch = false := by
        simp [Batch.job, hfirst]
      rw [lookup_takeJob_of_not_opens _ hopens, hpin, if_neg hfirst]
  unclosed := by
    intro hcurrent other hother hown
    have hmore : taken + 1 < b.frames.length := by
      refine Nat.lt_of_not_le fun hle => hcurrent ?_
      exact (b.drop_jobs_eq_nil_iff (taken + 1)).2 hle
    rcases mem_flight_claim.1 hother with hflight | rfl
    · exact absurd hown (hfree other hflight)
    · have hlast : taken + 1 ≠ b.frames.length := by omega
      simp [Batch.job, hlast]
  unpinned := by
    intro hcurrent hopen
    have hlast : taken + 1 = b.frames.length := by
      have hle := (b.drop_jobs_eq_nil_iff (taken + 1)).1 hcurrent
      omega
    have hcloses := hopen _ (mem_flight_claim.2 (Or.inr rfl)) hsession
    have hsingle : ¬ 1 < b.frames.length := by
      intro hmany
      simp [Batch.job, hlast, hmany] at hcloses
    have hfirst : taken = 0 := by omega
    have hopens : (b.job taken b.frames[taken]).opensBatch = false := by
      simp [Batch.job, hsingle]
    show (h.pool.queue.takeJob _).pinned.lookup session = none
    rw [lookup_takeJob_of_not_opens _ hopens, hpin, if_pos hfirst]

/-- The first batch of a lane can be begun when no batch is in between. -/
theorem Arranged.begin {b : Batch} {rest : List Batch} {p : UInt8}
    (ha : Arranged h session order [] lanes) (hlane : lanes p = b :: rest) :
    Arranged h session (order ++ [b]) b.jobs fun priority =>
      if priority = p then rest else lanes priority := by
  have hpriority : b.priority = p := (ha.of_lane (hlane ▸ List.mem_cons_self)).2.2
  refine ⟨?_, fun priority => ?_, fun priority => ?_⟩
  · have hclaimed := ha.claimed_eq
    rw [List.append_nil] at hclaimed
    rw [hclaimed, List.flatMap_append, List.flatMap_singleton]
  · rw [ha.waiting_eq, List.filter_nil, List.nil_append, Batch.filter_priority_jobs, hpriority]
    by_cases heq : priority = p
    · rw [if_pos heq.symm, if_pos heq, heq, hlane, List.flatMap_cons]
    · rw [if_neg (Ne.symm heq), if_neg heq, List.nil_append]
  · rw [List.filter_append, List.filter_singleton, List.append_assoc, ← ha.lanes_eq]
    by_cases heq : priority = p
    · simp [heq, hpriority, hlane]
    · simp [heq, hpriority, Ne.symm heq]

/-- When no batch is in between, a claim begins the first batch of a lane. -/
theorem InTurn.claim_next (ht : InTurn h session order [] lanes) {job : Job}
    (hfind : h.pool.queue.jobs.find? h.pool.queue.isClaimable = some job)
    (hsession : job.session = session) (hframed : ∀ b ∈ h.accepted, b.frames ≠ [])
    (hfree : ∀ other ∈ h.flight, other.session ≠ session) :
    ∃ order current lanes, InTurn (h.claim job) session order current lanes := by
  have hpin : h.pool.queue.pinned.lookup session = none :=
    ht.unpinned rfl fun other hother hown => absurd hown (hfree other hother)
  have hbusy : session ∉ h.pool.queue.busy := by
    rw [← hsession]
    exact (Queue.isClaimable_iff.1 (List.find?_some hfind)).1
  have hlane := find?_filter_of_find? hfind (Queue.onLane_iff.2 ⟨hsession, rfl⟩)
  have hwaiting := ht.waiting_eq job.priority
  rw [List.filter_nil, List.nil_append] at hwaiting
  cases hlanes : lanes job.priority with
  | nil =>
    rw [hwaiting, hlanes] at hlane
    exact absurd hlane (by simp)
  | cons b rest =>
    have ha := ht.toArranged.begin hlanes
    obtain ⟨hb, hown, _⟩ := ht.toArranged.of_lane (hlanes ▸ List.mem_cons_self)
    have hlength : 0 < b.frames.length := List.length_pos_iff.2 (hframed b hb)
    have hjobs : b.jobs = b.job 0 b.frames[0] :: b.jobs.drop 1 := Batch.drop_jobs hlength
    -- everything on the lane is claimable, so the claim finds its head
    have hclaimable : h.pool.queue.isClaimable (b.job 0 b.frames[0]) = true := by
      refine Queue.isClaimable_iff.2 ⟨?_, Or.inl ?_⟩
      · rw [Batch.session_job, hown]
        exact hbusy
      · rw [Batch.session_job, hown]
        exact hpin
    rw [hwaiting, hlanes, List.flatMap_cons, hjobs, List.cons_append,
      List.find?_cons_of_pos hclaimable] at hlane
    rw [← Option.some.inj hlane]
    have hstart : Arranged h session (order ++ [b]) (b.jobs.drop 0) _ := ha
    have hin : b ∈ order ++ [b] := List.mem_append_right _ List.mem_cons_self
    exact ⟨_, _, _, hstart.take hin hown hlength hfree hpin⟩

/-- A claim by a session in the middle of a batch goes on with that batch. -/
theorem InTurn.claim_more (ht : InTurn h session order current lanes) (hcurrent : current ≠ [])
    {job : Job} (hfind : h.pool.queue.jobs.find? h.pool.queue.isClaimable = some job)
    (hsession : job.session = session) (hk : Kept h)
    (hfree : ∀ other ∈ h.flight, other.session ≠ session) :
    ∃ order current lanes, InTurn (h.claim job) session order current lanes := by
  obtain ⟨b, hb, taken, htaken, rfl⟩ := ht.begun hcurrent
  have hlt : taken < b.frames.length :=
    Nat.lt_of_not_le fun hle => hcurrent ((b.drop_jobs_eq_nil_iff taken).2 hle)
  have hpin : h.pool.queue.pinned.lookup session = some b.number := by
    refine ht.pinned (b.job taken b.frames[taken]) ?_
    rw [Batch.drop_jobs hlt]
    exact List.mem_cons_self
  obtain ⟨haccepted, hown⟩ := ht.toArranged.of_order hb
  obtain ⟨hbusy, hmatch⟩ := Queue.isClaimable_iff.1 (List.find?_some hfind)
  have hbatch : job.batch = b.number := by
    rw [hsession, hpin] at hmatch
    rcases hmatch with hnone | hsome
    · exact absurd hnone (by simp)
    · exact (Option.some.inj hsome).symm
  have hlane := find?_filter_of_find? hfind (Queue.onLane_iff.2 ⟨hsession, rfl⟩)
  rw [ht.waiting_eq] at hlane
  -- the claimed job is of the batch, and no batch that waits is the same one
  have hpriority : b.priority = job.priority := by
    rcases List.mem_append.1 (List.mem_of_find?_eq_some hlane) with hin | hin
    · obtain ⟨hdrop, heq⟩ := List.mem_filter.1 hin
      rw [← of_decide_eq_true heq, Batch.priority_of_mem (List.mem_of_mem_drop hdrop)]
    · obtain ⟨c, hc, hjob⟩ := List.mem_flatMap.1 hin
      obtain rfl : c = b := hk.eq_of_number (ht.toArranged.of_lane hc).1 haccepted
        ((Batch.batch_of_mem hjob).symm.trans hbatch)
      exact absurd hc (ht.toArranged.not_mem_lane hk hb _)
  have hclaimable : h.pool.queue.isClaimable (b.job taken b.frames[taken]) = true := by
    refine Queue.isClaimable_iff.2 ⟨?_, Or.inr ?_⟩
    · rw [Batch.session_job, hown, ← hsession]
      exact hbusy
    · rw [Batch.session_job, hown]
      exact hpin
  rw [Batch.drop_jobs hlt, List.filter_cons, Batch.priority_job,
    if_pos (decide_eq_true hpriority), List.cons_append, List.find?_cons_of_pos hclaimable] at hlane
  rw [← Option.some.inj hlane]
  refine ⟨_, _, _, ht.toArranged.take hb hown hlt hfree ?_⟩
  rw [hpin, if_neg (by omega)]

theorem InTurn.claim (ht : InTurn h session order current lanes) (hk : Kept h) {job : Job}
    (hfind : h.pool.queue.jobs.find? h.pool.queue.isClaimable = some job) :
    ∃ order current lanes, InTurn (h.claim job) session order current lanes := by
  by_cases hsession : job.session = session
  · have hfree : ∀ other ∈ h.flight, other.session ≠ session := by
      intro other hother hown
      have hbusy := (Queue.isClaimable_iff.1 (List.find?_some hfind)).1
      rw [hsession, ← hown] at hbusy
      exact hbusy (hk.session_mem_busy hother)
    by_cases hcurrent : current = []
    · subst hcurrent
      exact ht.claim_next hfind hsession hk.framed hfree
    · exact ht.claim_more hcurrent hfind hsession hk hfree
  · exact ⟨order, current, lanes, ht.claim_other hsession⟩

/-! ## The way of a claimed job -/

/-- A job that is handed over was the only one of its session at the transport,
so it is handed over in the order of the claims. -/
theorem claimed_handOver (hk : Kept h) {job : Job} (hholding : job ∈ h.pool.holding)
    (session : UInt8) :
    (h.handOver job).claimed session = h.claimed session := by
  unfold claimed handOver Pool.handOver
  simp only [List.filter_append, List.append_assoc]
  congr 1
  by_cases hsession : job.session = session
  · have honly : (h.pool.holding.filter fun other => other.session = session) = [job] := by
      have hnodup : (h.pool.holding.filter fun other => other.session = session).Nodup := by
        have hflight := (hk.busy_perm.nodup_iff.1 hk.busy_nodup).of_map
        exact (List.nodup_append.1 hflight).1.filter _
      refine (List.perm_singleton.1 ?_)
      refine (List.perm_ext_iff_of_nodup hnodup (List.nodup_singleton job)).2 fun other => ?_
      rw [List.mem_filter, List.mem_singleton, decide_eq_true_iff]
      constructor
      · rintro ⟨hother, hown⟩
        exact hk.eq_of_flight (List.mem_append_left _ hother) (List.mem_append_left _ hholding)
          (hown.trans hsession.symm)
      · rintro rfl
        exact ⟨hholding, hsession⟩
    rw [filter_erase_of_head honly, honly, List.append_nil, List.filter_singleton]
    simp [hsession]
  · rw [filter_erase_of_not (by simpa using hsession), List.filter_singleton]
    simp [hsession]

theorem InTurn.handOver (ht : InTurn h session order current lanes) (hk : Kept h) {job : Job}
    (hholding : job ∈ h.pool.holding) :
    InTurn (h.handOver job) session order current lanes where
  claimed_eq := by
    rw [claimed_handOver hk hholding]
    exact ht.claimed_eq
  waiting_eq := ht.waiting_eq
  lanes_eq := ht.lanes_eq
  begun := ht.begun
  pinned := ht.pinned
  unclosed := by
    intro hcurrent other hother
    exact ht.unclosed hcurrent other ((flight_handOver hholding).mem_iff.1 hother)
  unpinned := by
    intro hcurrent hopen
    exact ht.unpinned hcurrent fun other hother =>
      hopen other ((flight_handOver hholding).mem_iff.2 hother)

theorem lookup_complete_of_ne (q : Queue) {job : Job} (hne : session ≠ job.session) :
    (q.complete job).pinned.lookup session = q.pinned.lookup session := by
  unfold Queue.complete
  simp only
  split
  · exact lookup_filter_of_ne hne _
  · rfl

theorem lookup_complete_of_closes (q : Queue) {job : Job} (hcloses : job.closesBatch = true) :
    (q.complete job).pinned.lookup job.session = none := by
  unfold Queue.complete
  simp only [hcloses, if_true]
  exact lookup_filter_self _ _

theorem lookup_complete_of_not_closes (q : Queue) {job : Job} (hcloses : job.closesBatch = false)
    (session : UInt8) : (q.complete job).pinned.lookup session = q.pinned.lookup session := by
  unfold Queue.complete
  simp only [hcloses]
  rfl

theorem InTurn.complete (ht : InTurn h session order current lanes) {job : Job}
    (hreturned : job ∈ h.pool.returned) :
    InTurn (h.complete job) session order current lanes where
  claimed_eq := ht.claimed_eq
  waiting_eq := ht.waiting_eq
  lanes_eq := ht.lanes_eq
  begun := ht.begun
  pinned := by
    intro waiting hwaiting
    have hcurrent : current ≠ [] := List.ne_nil_of_mem hwaiting
    show (h.pool.queue.complete job).pinned.lookup session = _
    rw [← ht.pinned waiting hwaiting]
    by_cases hsession : job.session = session
    · have hopen := ht.unclosed hcurrent job (List.mem_append_right _ hreturned) hsession
      exact lookup_complete_of_not_closes _ hopen session
    · exact lookup_complete_of_ne _ (Ne.symm hsession)
  unclosed := by
    intro hcurrent other hother
    have hmem := (flight_complete hreturned).mem_iff.2 (List.mem_cons_of_mem _ hother)
    exact ht.unclosed hcurrent other hmem
  unpinned := by
    intro hcurrent hopen
    show (h.pool.queue.complete job).pinned.lookup session = none
    by_cases hdone : job.session = session ∧ job.closesBatch = true
    · rw [← hdone.1]
      exact lookup_complete_of_closes _ hdone.2
    · have hsame : (h.pool.queue.complete job).pinned.lookup session =
          h.pool.queue.pinned.lookup session := by
        by_cases hsession : job.session = session
        · have hcloses : job.closesBatch = false := by simpa [hsession] using hdone
          exact lookup_complete_of_not_closes _ hcloses session
        · exact lookup_complete_of_ne _ (Ne.symm hsession)
      rw [hsame]
      refine ht.unpinned hcurrent fun other hother hown => ?_
      rcases List.mem_cons.1 ((flight_complete hreturned).mem_iff.1 hother) with rfl | hleft
      · simpa [hown] using hdone
      · exact hopen other hleft hown

/-! ## Every run -/

/-- What every run keeps. -/
structure Orderly (h : History) : Prop where
  kept : Kept h
  inTurn : ∀ session, ∃ order current lanes, InTurn h session order current lanes

theorem orderly_ofWorkers (workers : Nat) : Orderly (ofWorkers workers) :=
  ⟨kept_ofWorkers workers, fun session => ⟨_, _, _, inTurn_ofWorkers workers session⟩⟩

theorem Orderly.step {h h' : History} (ho : Orderly h) (hstep : Step h h') : Orderly h' := by
  refine ⟨ho.kept.step hstep, fun session => ?_⟩
  obtain ⟨order, current, lanes, ht⟩ := ho.inTurn session
  cases hstep with
  | refused => exact ⟨_, _, _, ht⟩
  | accepted s p frames hframes => exact ⟨_, _, _, ht.accept ho.kept.sorted s p frames⟩
  | shutdown => exact ⟨order, current, lanes, { ht with }⟩
  | claimed job hfind => exact ht.claim ho.kept hfind
  | handedOver job hholding => exact ⟨_, _, _, ht.handOver ho.kept hholding⟩
  | completed job hreturned => exact ⟨_, _, _, ht.complete hreturned⟩
  | left => exact ⟨order, current, lanes, { ht with }⟩

theorem orderly_of_run {workers : Nat} {events : List PoolEvent} {h : History}
    (hrun : (ofWorkers workers).run events = some h) : Orderly h :=
  run_induction (fun _ _ hstep ho => ho.step hstep) hrun (orderly_ofWorkers workers)

/-- Once the queue is idle, all batches of a lane have been handed over, in the
order of submission. -/
theorem Orderly.filter_handed_of_isIdle {h : History} (ho : Orderly h)
    (hidle : h.pool.queue.isIdle = true) (session priority : UInt8) :
    h.handed.filter (Queue.onLane session priority) =
      (h.accepted.filter (Batch.onLane session priority)).flatMap Batch.jobs := by
  obtain ⟨order, current, lanes, ht⟩ := ho.inTurn session
  obtain ⟨hjobs, hholding⟩ := ho.kept.of_isIdle hidle
  have hempty : ∀ p, (current.filter fun job => job.priority = p) = [] ∧
      (lanes p).flatMap Batch.jobs = [] := by
    intro p
    have hwaiting := ht.waiting_eq p
    rw [hjobs, List.filter_nil] at hwaiting
    exact List.append_eq_nil_iff.1 hwaiting.symm
  have hcurrent : current = [] := by
    refine List.eq_nil_iff_forall_not_mem.2 fun job hjob => ?_
    have hnone := List.filter_eq_nil_iff.1 (hempty job.priority).1 job hjob
    exact hnone (decide_eq_true rfl)
  have hlanes : lanes priority = [] := by
    refine List.eq_nil_iff_forall_not_mem.2 fun b hb => ?_
    have haccepted := (ht.toArranged.of_lane hb).1
    exact Batch.jobs_ne_nil (ho.kept.framed b haccepted)
      (List.flatMap_eq_nil_iff.1 (hempty priority).2 b hb)
  have hclaimed := ht.claimed_eq
  have horder := ht.lanes_eq priority
  unfold claimed at hclaimed
  rw [hcurrent, hholding, List.append_nil, List.append_nil] at hclaimed
  rw [hlanes, List.append_nil] at horder
  calc h.handed.filter (Queue.onLane session priority)
      _ = (h.handed.filter fun job => job.session = session).filter
            fun job => job.priority = priority := by
          rw [List.filter_filter]
          refine List.filter_congr fun job _ => ?_
          simp [Queue.onLane, Bool.and_comm]
      _ = (order.filter fun b => b.priority = priority).flatMap Batch.jobs := by
          rw [hclaimed, Batch.filter_priority_flatMap]
      _ = (h.accepted.filter (Batch.onLane session priority)).flatMap Batch.jobs := by
          rw [horder]

/-- What the transport gets to see of a pool. -/
structure Delivered (h : History) : Prop where
  /-- No accepted frame is handed over twice, and no other frame is. -/
  once : h.handed.Nodup ∧ ∀ job ∈ h.handed, job ∈ h.jobs
  /-- Every accepted frame has been handed over when nothing is left to do. -/
  all : h.pool.queue.isIdle = true → h.handed.Perm h.jobs
  /-- The frames of a session are those of whole batches one after the other,
  up to the last frame handed over, and batches of one priority follow one
  another in the order of submission. -/
  inOrder : ∀ session, ∃ order : List Batch,
    (h.handed.filter fun job => job.session = session) <+: order.flatMap Batch.jobs ∧
      ∀ priority, (order.filter fun b => b.priority = priority) <+:
        h.accepted.filter (Batch.onLane session priority)

/-- Whatever is submitted and in whatever order the workers do their work, with
a transport that fails or not and before or after a shutdown: every frame is
handed over once, and the batches of a session do not mix. -/
theorem delivered_of_run {workers : Nat} {events : List PoolEvent} {h : History}
    (hrun : (ofWorkers workers).run events = some h) : Delivered h := by
  have ho := orderly_of_run hrun
  refine ⟨⟨ho.kept.handed_nodup, fun _ => ho.kept.mem_jobs_of_handed⟩, ho.kept.perm_of_isIdle,
    fun session => ?_⟩
  obtain ⟨order, current, lanes, ht⟩ := ho.inTurn session
  have hclaimed := ht.claimed_eq
  unfold claimed at hclaimed
  rw [List.filter_append, List.append_assoc] at hclaimed
  exact ⟨order, ⟨_, hclaimed⟩, fun priority => ⟨_, ht.lanes_eq priority⟩⟩

/-- A more urgent frame of the same session comes in the middle of a batch, and
the transport loses the frame before it. -/
theorem delivered_of_run_urgent :
    let long : Batch :=
      { number := 0, start := 0, session := 1, priority := 7, frames := [[1], [2]] }
    let urgent : Batch := { number := 1, start := 2, session := 1, priority := 0, frames := [[3]] }
    let events : List PoolEvent := [
      .submit 1 7 long.frames, .worker .claim, .submit 1 0 urgent.frames,
      .worker (.handOver (long.job 0 [1]) true), .worker (.complete (long.job 0 [1])),
      .worker .claim, .worker (.handOver (long.job 1 [2]) false)]
    ∃ h, (ofWorkers 2).run events = some h ∧
      h.handed = [long.job 0 [1], long.job 1 [2]] ∧ Delivered h := by
  intro long urgent events
  obtain ⟨h, hrun, hhanded⟩ : ∃ h, (ofWorkers 2).run events = some h ∧
      h.handed = [long.job 0 [1], long.job 1 [2]] := ⟨_, rfl, rfl⟩
  exact ⟨h, hrun, hhanded, delivered_of_run hrun⟩

end History

end HeadUnitLink
