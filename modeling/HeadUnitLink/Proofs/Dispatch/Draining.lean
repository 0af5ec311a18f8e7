import HeadUnitLink.Proofs.Dispatch.Progress

/-!
# Draining a queue

A queue that was filled before it is drained by one worker comes out sorted, with
batches of one priority in the order of their submission.

* `Queue.drain` is the worker: it claims, completes and claims again.
* `Queue.jobs_pushAll` says what waits in the filled queue.  It is found by the
  priorities in order and by the jobs of each priority, which together leave no
  choice: `eq_of_sorted_of_filter_eq`.
* `Queue.drain_batch` is the worker within one batch.  Its first job pins the session
  and its last one lifts the pin, so the job that is next in the order is always free.
* `Pool.settle_ofOne` says that a pool of one worker does the same.
-/

namespace HeadUnitLink

/-! ## Stable order -/

section Stable

variable {β : Type} {key : β → UInt8}

theorem mem_iff_of_filter_eq {entries others : List β}
    (h : ∀ k, entries.filter (fun entry => key entry = k) =
      others.filter fun entry => key entry = k) (entry : β) : entry ∈ entries ↔ entry ∈ others := by
  have hboth : entry ∈ entries.filter (fun other => key other = key entry) ↔
      entry ∈ others.filter fun other => key other = key entry := by rw [h]
  simpa [List.mem_filter] using hboth

/-- Two sorted lists with the same entries of every key, in the same order, are the
same list. -/
theorem eq_of_sorted_of_filter_eq {entries others : List β}
    (hentries : entries.Pairwise fun entry later => key entry ≤ key later)
    (hothers : others.Pairwise fun entry later => key entry ≤ key later)
    (h : ∀ k, entries.filter (fun entry => key entry = k) =
      others.filter fun entry => key entry = k) : entries = others := by
  have hmem := mem_iff_of_filter_eq h
  induction entries generalizing others with
  | nil => exact (List.eq_nil_iff_forall_not_mem.2 fun other hother =>
      List.not_mem_nil ((hmem other).2 hother)).symm
  | cons entry rest ih =>
    cases others with
    | nil => exact absurd ((hmem entry).1 List.mem_cons_self) List.not_mem_nil
    | cons other more =>
      obtain ⟨hlow, hrest⟩ := List.pairwise_cons.1 hentries
      obtain ⟨hlow', hmore⟩ := List.pairwise_cons.1 hothers
      -- neither first entry has a lower key than the other
      have hle : key entry ≤ key other := by
        rcases List.mem_cons.1 ((hmem other).2 List.mem_cons_self) with rfl | hin
        · exact UInt8.le_refl _
        · exact hlow other hin
      have hge : key other ≤ key entry := by
        rcases List.mem_cons.1 ((hmem entry).1 List.mem_cons_self) with rfl | hin
        · exact UInt8.le_refl _
        · exact hlow' entry hin
      have hhead := h (key entry)
      rw [List.filter_cons_of_pos (by simp),
        List.filter_cons_of_pos (by simpa using UInt8.le_antisymm hge hle)] at hhead
      obtain ⟨rfl, -⟩ := List.cons.inj hhead
      have htail : ∀ k, rest.filter (fun entry => key entry = k) =
          more.filter fun entry => key entry = k := by
        intro k
        have hk := h k
        rw [List.filter_cons, List.filter_cons] at hk
        split at hk
        · exact (List.cons.inj hk).2
        · exact hk
      exact congrArg _ (ih hrest hmore htail (mem_iff_of_filter_eq htail))

theorem le_key_trans (a b c : β) (hab : decide (key a ≤ key b) = true)
    (hbc : decide (key b ≤ key c) = true) : decide (key a ≤ key c) = true :=
  decide_eq_true (UInt8.le_trans (of_decide_eq_true hab) (of_decide_eq_true hbc))

theorem le_key_total (a b : β) : (decide (key a ≤ key b) || decide (key b ≤ key a)) = true := by
  simpa using UInt8.le_total (key a) (key b)

theorem pairwise_mergeSort_key (key : β → UInt8) (entries : List β) :
    (entries.mergeSort fun entry later => key entry ≤ key later).Pairwise
      fun entry later => key entry ≤ key later :=
  List.Pairwise.imp of_decide_eq_true
    (List.pairwise_mergeSort le_key_trans le_key_total entries)

/-- Sorting leaves the entries of one key in their order. -/
theorem filter_mergeSort_key (key : β → UInt8) (entries : List β) (k : UInt8) :
    (entries.mergeSort fun entry later => key entry ≤ key later).filter
      (fun entry => key entry = k) = entries.filter fun entry => key entry = k := by
  have hequal : (entries.filter fun entry => key entry = k).Pairwise
      fun entry later => decide (key entry ≤ key later) = true := by
    refine List.pairwise_of_forall_mem_list fun entry hentry later hlater => decide_eq_true ?_
    rw [of_decide_eq_true (List.mem_filter.1 hentry).2,
      of_decide_eq_true (List.mem_filter.1 hlater).2]
    exact UInt8.le_refl k
  have hsublist : (entries.filter fun entry => key entry = k).Sublist
      (entries.mergeSort fun entry later => key entry ≤ key later) :=
    List.sublist_mergeSort le_key_trans le_key_total hequal List.filter_sublist
  have hfilter := hsublist.filter fun entry => key entry = k
  rw [List.filter_filter, List.filter_congr fun entry _ => Bool.and_self _] at hfilter
  exact (hfilter.eq_of_length ((List.mergeSort_perm _ _).filter _).length_eq.symm).symm

end Stable

/-! ## Filling a queue -/

/-- What is submitted as one batch. -/
structure Submission where
  session : UInt8
  priority : UInt8
  frames : List Bytes
  deriving DecidableEq, Repr

namespace Batch

/-- What a batch was submitted as. -/
def submission (b : Batch) : Submission :=
  { session := b.session, priority := b.priority, frames := b.frames }

/-- The batch is more urgent, or as urgent and submitted earlier. -/
def Precedes (b later : Batch) : Prop :=
  b.priority < later.priority ∨ b.priority = later.priority ∧ b.number < later.number

theorem sorted_flatMap_jobs {batches : List Batch}
    (h : batches.Pairwise fun b later => b.priority ≤ later.priority) :
    Queue.Sorted (batches.flatMap jobs) := by
  refine List.pairwise_flatMap.2 ⟨fun b _ => ?_, h.imp fun hle job hjob later hlater => ?_⟩
  · refine List.pairwise_of_forall_mem_list fun job hjob later hlater => ?_
    rw [priority_of_mem hjob, priority_of_mem hlater]
    exact UInt8.le_refl _
  · rw [priority_of_mem hjob, priority_of_mem hlater]
    exact hle

end Batch

namespace Queue

variable {q : Queue}

/-- Submits one batch after the other. -/
def pushAll (q : Queue) (submissions : List Submission) : Queue :=
  submissions.foldl (fun q s => q.push s.session s.priority s.frames) q

/-- The batches that a queue makes of these submissions. -/
def batchesOf (q : Queue) : List Submission → List Batch
  | [] => []
  | s :: rest =>
    q.nextOf s.session s.priority s.frames ::
      (q.push s.session s.priority s.frames).batchesOf rest

/-- The batches in the order in which they are sent. -/
def sendingOrder (q : Queue) (submissions : List Submission) : List Batch :=
  (q.batchesOf submissions).mergeSort fun b later => b.priority ≤ later.priority

theorem map_submission_batchesOf (q : Queue) (submissions : List Submission) :
    (q.batchesOf submissions).map Batch.submission = submissions := by
  induction submissions generalizing q with
  | nil => rfl
  | cons s rest ih =>
    rw [batchesOf, List.map_cons, ih]
    rfl

/-- Batches are numbered in the order of their submission. -/
theorem map_number_batchesOf (q : Queue) (submissions : List Submission) :
    (q.batchesOf submissions).map Batch.number = List.range' q.nextBatch submissions.length := by
  induction submissions generalizing q with
  | nil => rfl
  | cons s rest ih =>
    rw [batchesOf, List.map_cons, ih, List.length_cons, List.range'_succ]
    rfl

theorem map_submission_sendingOrder (q : Queue) (submissions : List Submission) :
    (q.sendingOrder submissions).map Batch.submission =
      submissions.mergeSort fun s later => s.priority ≤ later.priority :=
  calc (q.sendingOrder submissions).map Batch.submission
    _ = ((q.batchesOf submissions).map Batch.submission).mergeSort
        fun s later => s.priority ≤ later.priority := List.map_mergeSort fun _ _ _ _ => rfl
    _ = _ := by rw [map_submission_batchesOf]

theorem map_bytes_sendingOrder (q : Queue) (submissions : List Submission) :
    ((q.sendingOrder submissions).flatMap Batch.jobs).map Job.bytes =
      (submissions.mergeSort fun s later => s.priority ≤ later.priority).flatMap
        Submission.frames := by
  rw [← map_submission_sendingOrder q, List.map_flatMap, List.flatMap_map]
  exact List.flatMap_congr fun b _ => b.map_bytes_jobs

theorem sorted_pushAll (h : Sorted q.jobs) (submissions : List Submission) :
    Sorted (q.pushAll submissions).jobs := by
  induction submissions generalizing q with
  | nil => exact h
  | cons s rest ih => exact ih (sorted_push h s.session s.priority s.frames)

/-- Of the jobs of one priority, those that are submitted later come later. -/
theorem filter_priority_pushAll (h : Sorted q.jobs) (submissions : List Submission)
    (priority : UInt8) :
    (q.pushAll submissions).jobs.filter (fun job => job.priority = priority) =
      q.jobs.filter (fun job => job.priority = priority) ++
        ((q.batchesOf submissions).flatMap Batch.jobs).filter fun job => job.priority = priority := by
  induction submissions generalizing q with
  | nil => exact (List.append_nil _).symm
  | cons s rest ih =>
    have hpush := filter_push h (fun job (hjob : decide (job.priority = priority) = true) =>
      of_decide_eq_true hjob) s.session s.priority s.frames
    rw [batchesOf, List.flatMap_cons, List.filter_append, ← List.append_assoc, ← hpush]
    exact ih (sorted_push h s.session s.priority s.frames)

/-- What waits in a queue that was filled. -/
theorem jobs_pushAll (hempty : q.jobs = []) (submissions : List Submission) :
    (q.pushAll submissions).jobs = (q.sendingOrder submissions).flatMap Batch.jobs := by
  have hsorted : Sorted q.jobs := hempty ▸ List.Pairwise.nil
  refine eq_of_sorted_of_filter_eq (sorted_pushAll hsorted submissions)
    (Batch.sorted_flatMap_jobs (pairwise_mergeSort_key Batch.priority _)) fun priority => ?_
  rw [filter_priority_pushAll hsorted, hempty, List.filter_nil, List.nil_append,
    Batch.filter_priority_flatMap, Batch.filter_priority_flatMap]
  exact congrArg _ (filter_mergeSort_key Batch.priority _ priority).symm

theorem pushAll_eq (q : Queue) (submissions : List Submission) :
    q.pushAll submissions =
      { q with
        jobs := (q.pushAll submissions).jobs
        nextSequence := (q.pushAll submissions).nextSequence
        nextBatch := (q.pushAll submissions).nextBatch } := by
  induction submissions generalizing q with
  | nil => rfl
  | cons s rest ih => exact ih (q.push s.session s.priority s.frames)

/-- The order is that of urgency, and that of submission where the urgency is the
same. -/
theorem precedes_sendingOrder (q : Queue) (submissions : List Submission) :
    (q.sendingOrder submissions).Pairwise Batch.Precedes := by
  have hnumbers : (q.batchesOf submissions).Pairwise fun b later => b.number < later.number := by
    rw [← List.pairwise_map, map_number_batchesOf]
    exact List.pairwise_lt_range'
  refine List.pairwise_iff_forall_sublist.2 fun {b later} hsublist => ?_
  have hle : b.priority ≤ later.priority := List.pairwise_iff_forall_sublist.1
    (pairwise_mergeSort_key Batch.priority _) hsublist
  by_cases hsame : later.priority = b.priority
  · -- sorting has left these two as they were submitted
    have hkept := hsublist.filter fun other => other.priority = b.priority
    rw [List.filter_eq_self.2 (by simp [hsame])] at hkept
    unfold sendingOrder at hkept
    rw [filter_mergeSort_key Batch.priority] at hkept
    exact Or.inr ⟨hsame.symm,
      List.pairwise_iff_forall_sublist.1 hnumbers (hkept.trans List.filter_sublist)⟩
  · exact Or.inl (UInt8.lt_of_le_of_ne hle (Ne.symm hsame))

/-! ## One worker -/

/-- One worker claims and completes until there is nothing to claim: the jobs in the
order of their claims, and the queue that is left. -/
def drain (q : Queue) : List Job × Queue :=
  match _h : q.claim? with
  | none => ([], q)
  | some (job, next) =>
    let (jobs, last) := drain (next.complete job)
    (job :: jobs, last)
termination_by q.jobs.length
decreasing_by
  have hlength := length_jobs_of_claim? _h
  show next.jobs.length < q.jobs.length
  omega

theorem drain_of_none (h : q.claim? = none) : q.drain = ([], q) := by
  rw [drain]
  split
  · rfl
  · rename_i hsome
    exact absurd (h.symm.trans hsome) (by simp)

theorem drain_of_some {job : Job} {next : Queue} (h : q.claim? = some (job, next)) :
    q.drain = (job :: (next.complete job).drain.1, (next.complete job).drain.2) := by
  rw [drain]
  split
  · rename_i hnone
    exact absurd (h.symm.trans hnone) (by simp)
  · rename_i found more hsome
    obtain ⟨rfl, rfl⟩ := Prod.mk.inj (Option.some.inj (h.symm.trans hsome))
    rfl

/-- The queue with nothing in flight, with these jobs and pins. -/
def between (q : Queue) (jobs : List Job) (pinned : List (UInt8 × Nat)) : Queue :=
  { q with jobs, busy := [], pinned }

end Queue

/-- The pins after a job was claimed and completed. -/
def Job.pinsAfter (job : Job) (pinned : List (UInt8 × Nat)) : List (UInt8 × Nat) :=
  let opened := if job.opensBatch then (job.session, job.batch) :: pinned else pinned
  if job.closesBatch then opened.filter fun pin => pin.1 ≠ job.session else opened

/-- The pins when so many jobs of a batch have been sent and nothing else was
begun. -/
def Batch.pins (b : Batch) (taken : Nat) : List (UInt8 × Nat) :=
  if 0 < taken ∧ taken < b.frames.length then [(b.session, b.number)] else []

theorem Batch.pinsAfter_job (b : Batch) {taken : Nat} (htaken : taken < b.frames.length)
    (bytes : Bytes) : (b.job taken bytes).pinsAfter (b.pins taken) = b.pins (taken + 1) := by
  unfold Job.pinsAfter pins job
  by_cases hfirst : taken = 0
  · subst hfirst
    by_cases hsingle : b.frames.length = 1
    · simp [hsingle]
    · have hmany : 1 < b.frames.length := by omega
      simp [hmany, Ne.symm hsingle]
  · have hmany : 1 < b.frames.length := by omega
    have hpos : 0 < taken := Nat.pos_of_ne_zero hfirst
    by_cases hlast : taken + 1 = b.frames.length
    · simp [hmany, hfirst, hpos, hlast, htaken]
    · have hmore : taken + 1 < b.frames.length := by omega
      simp [hmany, hfirst, hpos, hlast, htaken, hmore]

/-- A batch is pinned to itself or not at all. -/
theorem Batch.lookup_pins (b : Batch) (taken : Nat) :
    (b.pins taken).lookup b.session = none ∨
      (b.pins taken).lookup b.session = some b.number := by
  unfold pins
  split
  · exact Or.inr List.lookup_cons_self
  · exact Or.inl rfl

namespace Queue

variable {q : Queue}

/-- The next job is sent if its session is not pinned to another batch. -/
theorem drain_between_cons {job : Job} {pinned : List (UInt8 × Nat)}
    (hfree : pinned.lookup job.session = none ∨ pinned.lookup job.session = some job.batch)
    (rest : List Job) :
    (q.between (job :: rest) pinned).drain =
      (job :: (q.between rest (job.pinsAfter pinned)).drain.1,
        (q.between rest (job.pinsAfter pinned)).drain.2) := by
  have hclaimable : (q.between (job :: rest) pinned).isClaimable job = true :=
    isClaimable_iff.2 ⟨List.not_mem_nil, hfree⟩
  have hclaim := claim?_eq_some_iff.2
    ⟨List.find?_cons_of_pos (l := rest) hclaimable, rfl⟩
  have hcomplete : ((q.between (job :: rest) pinned).takeJob job).complete job =
      q.between rest (job.pinsAfter pinned) := by
    simp [between, takeJob, complete, Job.pinsAfter]
  rw [drain_of_some hclaim, hcomplete]

/-- A batch that was begun is sent to its end. -/
theorem drain_batch (b : Batch) (taken : Nat) (rest : List Job) :
    (q.between (b.jobs.drop taken ++ rest) (b.pins taken)).drain =
      (b.jobs.drop taken ++ (q.between rest []).drain.1, (q.between rest []).drain.2) := by
  -- on the number of jobs of the batch that are left
  induction hleft : b.frames.length - taken generalizing taken with
  | zero =>
    have hdone : b.frames.length ≤ taken := Nat.sub_eq_zero_iff_le.1 hleft
    have hpins : b.pins taken = [] := if_neg fun hwithin => Nat.not_lt.2 hdone hwithin.2
    rw [(b.drop_jobs_eq_nil_iff taken).2 hdone, hpins, List.nil_append, List.nil_append]
  | succ left ih =>
    have htaken : taken < b.frames.length := by omega
    rw [Batch.drop_jobs htaken, List.cons_append, List.cons_append,
      drain_between_cons (b.lookup_pins taken), b.pinsAfter_job htaken, ih (taken + 1) (by omega)]

/-- Batches are sent one after the other. -/
theorem drain_batches (batches : List Batch) :
    (q.between (batches.flatMap Batch.jobs) []).drain =
      (batches.flatMap Batch.jobs, q.between [] []) := by
  induction batches with
  | nil => exact drain_of_none rfl
  | cons b rest ih =>
    have hpins : b.pins 0 = [] := if_neg fun hwithin => Nat.lt_irrefl 0 hwithin.1
    have hbatch := drain_batch (q := q) b 0 (rest.flatMap Batch.jobs)
    rw [hpins, List.drop_zero, ih] at hbatch
    exact hbatch

end Queue

/-! ## A pool of one worker -/

namespace Pool

/-- A pool of one worker, which waits for a job. -/
def ofOne (q : Queue) : Pool := { ofWorkers 1 with queue := q }

theorem settleOnto_of_advance? {reaction : Bytes → Reaction} {stalled : Bool} {p : Pool}
    {next : Pool × List Bytes} (h : p.advance? reaction stalled = some next) (sent : List Bytes) :
    p.settleOnto reaction stalled sent = next.1.settleOnto reaction stalled (next.2 ++ sent) := by
  rw [settleOnto]
  split
  · rename_i hnone
    exact absurd (h.symm.trans hnone) (by simp)
  · rename_i found hfound
    rw [Option.some.inj (h.symm.trans hfound)]

/-- One worker claims a job, hands its frame over and completes it. -/
theorem settleOnto_of_claim? {q next : Queue} {job : Job} (h : q.claim? = some (job, next))
    (sent : List Bytes) :
    (ofOne q).settleOnto (fun _ => .send) false sent =
      (ofOne (next.complete job)).settleOnto (fun _ => .send) false (job.bytes :: sent) := by
  have hclaim : (ofOne q).advance? (fun _ => .send) false =
      some ({ ofOne next with idle := 0, holding := [job] }, []) := by
    show (((q.claim?).map _).map _) = _
    rw [h]
    rfl
  have hhand : ({ ofOne next with idle := 0, holding := [job] } : Pool).advance?
      (fun _ => .send) false =
        some ({ ofOne next with idle := 0, returned := [job] }, [job.bytes]) := by
    show some (Pool.react _ job .send) = _
    simp [react, handOver, Reaction.send, ofOne, ofWorkers]
  have hcomplete : ({ ofOne next with idle := 0, returned := [job] } : Pool).advance?
      (fun _ => .send) false = some (ofOne (next.complete job), []) := by
    show some (Pool.complete _ job, []) = _
    simp [complete, ofOne, ofWorkers]
  rw [settleOnto_of_advance? hclaim, settleOnto_of_advance? hhand,
    settleOnto_of_advance? hcomplete]
  rfl

/-- One worker that is left to itself drains its queue. -/
theorem settleOnto_ofOne (q : Queue) (sent : List Bytes) :
    (ofOne q).settleOnto (fun _ => .send) false sent =
      (ofOne q.drain.2, (q.drain.1.map Job.bytes).reverse ++ sent) := by
  induction hlength : q.jobs.length using Nat.strongRecOn generalizing q sent with
  | ind n ih =>
    cases hclaim : q.claim? with
    | none =>
      have hstop : (ofOne q).advance? (fun _ => .send) false = none := by
        show (((q.claim?).map _).map _) = _
        rw [hclaim]
        rfl
      rw [settleOnto, Queue.drain_of_none hclaim]
      split
      · rfl
      · rename_i hsome
        exact absurd (hstop.symm.trans hsome) (by simp)
    | some claimed =>
      obtain ⟨job, next⟩ := claimed
      have hless := Queue.length_jobs_of_claim? hclaim
      rw [settleOnto_of_claim? hclaim, Queue.drain_of_some hclaim,
        ih next.jobs.length (by omega) (next.complete job) _ rfl, List.map_cons,
        List.reverse_cons, List.append_assoc]
      rfl

/-- What one worker sends is what is drained. -/
theorem settle_ofOne (q : Queue) :
    (ofOne q).settle (fun _ => .send) false = (ofOne q.drain.2, q.drain.1.map Job.bytes) := by
  unfold settle
  rw [settleOnto_ofOne, List.append_nil]
  simp only [List.reverse_reverse]

end Pool

namespace Queue

variable {q : Queue} {flight : List Job}

/-- A queue that can come about and has nothing to do has no pins and no busy
sessions, and so has one that is filled from it. -/
theorem Reachable.pushAll_eq_between (hreach : q.Reachable flight) (hidle : q.isIdle = true)
    (submissions : List Submission) :
    q.pushAll submissions =
      (q.pushAll submissions).between ((q.sendingOrder submissions).flatMap Batch.jobs) [] := by
  obtain ⟨hpinned, hbusy⟩ := hreach.neverStalls.free_of_isIdle hidle
  obtain ⟨hjobs, -⟩ := isIdle_iff.1 hidle
  rw [← jobs_pushAll hjobs submissions]
  unfold between
  rw [pushAll_eq, hpinned, hbusy]

/-- A queue that was idle when it was filled is drained in the order of the batches:
by priority, and by submission where the priority is the same, the frames of each
batch in their order with nothing between them.  No frame is left, and a pool of one
worker sends the same. -/
theorem Reachable.drain_pushAll (hreach : q.Reachable flight) (hidle : q.isIdle = true)
    (submissions : List Submission) :
    (∃ order : List Batch, order.Perm (q.batchesOf submissions) ∧
      order.Pairwise Batch.Precedes ∧
      (q.pushAll submissions).drain.1 = order.flatMap Batch.jobs) ∧
    (q.pushAll submissions).drain.1.map Job.bytes =
      (submissions.mergeSort fun s later => s.priority ≤ later.priority).flatMap
        Submission.frames ∧
    (q.pushAll submissions).drain.2.isIdle = true ∧
    (Pool.ofOne (q.pushAll submissions)).settle (fun _ => .send) false =
      (Pool.ofOne (q.pushAll submissions).drain.2,
        (submissions.mergeSort fun s later => s.priority ≤ later.priority).flatMap
          Submission.frames) := by
  have hdrain := drain_batches (q := q.pushAll submissions) (q.sendingOrder submissions)
  rw [← hreach.pushAll_eq_between hidle] at hdrain
  have hbytes : (q.pushAll submissions).drain.1.map Job.bytes =
      (submissions.mergeSort fun s later => s.priority ≤ later.priority).flatMap
        Submission.frames := by
    rw [hdrain]
    exact q.map_bytes_sendingOrder submissions
  refine ⟨⟨_, List.mergeSort_perm _ _, precedes_sendingOrder q submissions, ?_⟩, hbytes, ?_, ?_⟩
  · rw [hdrain]
    rfl
  · rw [hdrain]
    refine isIdle_iff.2 ⟨rfl, ?_⟩
    show (q.pushAll submissions).inFlight = 0
    rw [pushAll_eq]
    exact (isIdle_iff.1 hidle).2
  · rw [Pool.settle_ofOne, hbytes]

/-- A queue that has sent a batch of two frames is filled with five batches of two
sessions, the most urgent one last. -/
theorem Reachable.drain_pushAll_of_five :
    let sent : Batch :=
      { number := 0, start := 0, session := 1, priority := 7, frames := [[1], [2]] }
    let begun :=
      ((Queue.empty.push 1 7 [[1], [2]]).takeJob (sent.job 0 [1])).complete (sent.job 0 [1])
    let q := (begun.takeJob (sent.job 1 [2])).complete (sent.job 1 [2])
    let submissions : List Submission :=
      [⟨1, 7, [[3], [4]]⟩, ⟨2, 3, [[5]]⟩, ⟨1, 7, [[6]]⟩, ⟨2, 3, [[7], [8]]⟩, ⟨1, 0, [[9], [10]]⟩]
    q.Reachable [] ∧ q.isIdle = true ∧ (q.pushAll submissions).drain.2.isIdle = true ∧
      (q.pushAll submissions).drain.1.map Job.bytes =
        [[9], [10], [5], [7], [8], [3], [4], [6]] := by
  intro sent begun q submissions
  have hbegun : begun.Reachable [] :=
    .complete List.mem_cons_self
      (.claim (q := Queue.empty.push 1 7 [[1], [2]]) rfl (.push 1 7 (by simp) .empty))
  have hq : q.Reachable [] := .complete List.mem_cons_self (.claim (q := begun) rfl hbegun)
  have hidle : q.isIdle = true := rfl
  obtain ⟨-, hbytes, hdone, -⟩ := hq.drain_pushAll hidle submissions
  refine ⟨hq, hidle, hdone, hbytes.trans ?_⟩
  simp [submissions, List.mergeSort, List.MergeSort.Internal.splitInTwo]

end Queue

end HeadUnitLink
