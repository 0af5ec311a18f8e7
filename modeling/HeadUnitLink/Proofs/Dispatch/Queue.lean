import HeadUnitLink.Dispatch.Queue
import HeadUnitLink.Proofs.Lists

/-!
# Batches and their jobs

A `Batch` is what one accepted submission adds to a queue.  Its jobs are
numbered one after the other, and its first and its last job are marked.

The jobs that wait are sorted by priority, so a new batch goes behind
everything of its priority.  A lane is what waits of one session at one
priority: a new batch comes last on its lane and leaves all others alone, which
is `Queue.filter_lane_push`.
-/

namespace HeadUnitLink

/-- A batch as a queue has accepted it. -/
structure Batch where
  number : Nat
  /-- The number of its first frame. -/
  start : Nat
  session : UInt8
  priority : UInt8
  frames : List Bytes
  deriving DecidableEq, Repr

namespace Batch

/-- The job for the frame at an index. -/
def job (b : Batch) (index : Nat) (bytes : Bytes) : Job :=
  { priority := b.priority, sequence := b.start + index, batch := b.number, session := b.session
    bytes, opensBatch := 1 < b.frames.length && index = 0
    closesBatch := 1 < b.frames.length && index + 1 = b.frames.length }

@[simp] theorem session_job (b : Batch) (index : Nat) (bytes : Bytes) :
    (b.job index bytes).session = b.session := rfl

@[simp] theorem priority_job (b : Batch) (index : Nat) (bytes : Bytes) :
    (b.job index bytes).priority = b.priority := rfl

/-- The jobs of a batch. -/
def jobs (b : Batch) : List Job := b.frames.mapIdx b.job

theorem length_jobs (b : Batch) : b.jobs.length = b.frames.length := List.length_mapIdx

theorem jobs_ne_nil {b : Batch} (h : b.frames ≠ []) : b.jobs ≠ [] := by
  intro hnil
  have hlength := b.length_jobs
  rw [hnil] at hlength
  exact h (List.eq_nil_of_length_eq_zero hlength.symm)

theorem exists_of_mem_jobs {b : Batch} {job : Job} (h : job ∈ b.jobs) :
    ∃ index bytes, b.job index bytes = job := by
  obtain ⟨index, hindex, rfl⟩ := List.mem_mapIdx.1 h
  exact ⟨index, _, rfl⟩

theorem session_of_mem {b : Batch} {job : Job} (h : job ∈ b.jobs) : job.session = b.session := by
  obtain ⟨index, bytes, rfl⟩ := exists_of_mem_jobs h
  rfl

theorem priority_of_mem {b : Batch} {job : Job} (h : job ∈ b.jobs) :
    job.priority = b.priority := by
  obtain ⟨index, bytes, rfl⟩ := exists_of_mem_jobs h
  rfl

theorem batch_of_mem {b : Batch} {job : Job} (h : job ∈ b.jobs) : job.batch = b.number := by
  obtain ⟨index, bytes, rfl⟩ := exists_of_mem_jobs h
  rfl

theorem getElem_jobs {b : Batch} {index : Nat} (hjob : index < b.jobs.length)
    (hframe : index < b.frames.length) : b.jobs[index] = b.job index b.frames[index] :=
  List.getElem_mapIdx

theorem drop_jobs {b : Batch} {taken : Nat} (h : taken < b.frames.length) :
    b.jobs.drop taken = b.job taken b.frames[taken] :: b.jobs.drop (taken + 1) := by
  have hlt : taken < b.jobs.length := by rwa [b.length_jobs]
  rw [List.drop_eq_getElem_cons hlt, getElem_jobs hlt h]

theorem drop_jobs_eq_nil_iff (b : Batch) (taken : Nat) :
    b.jobs.drop taken = [] ↔ b.frames.length ≤ taken := by
  rw [List.drop_eq_nil_iff, b.length_jobs]

theorem filter_priority_jobs (b : Batch) (priority : UInt8) :
    (b.jobs.filter fun job => job.priority = priority) =
      if b.priority = priority then b.jobs else [] := by
  split
  · rename_i heq
    refine List.filter_eq_self.2 fun job hjob => decide_eq_true ?_
    rw [priority_of_mem hjob, heq]
  · rename_i hne
    refine List.filter_eq_nil_iff.2 fun job hjob heq => hne ?_
    rw [← priority_of_mem hjob, of_decide_eq_true heq]

theorem filter_priority_flatMap (batches : List Batch) (priority : UInt8) :
    (batches.flatMap jobs).filter (fun job => job.priority = priority) =
      (batches.filter fun b => b.priority = priority).flatMap jobs := by
  induction batches with
  | nil => rfl
  | cons b rest ih =>
    rw [List.flatMap_cons, List.filter_append, ih, filter_priority_jobs, List.filter_cons]
    by_cases heq : b.priority = priority
    · rw [if_pos heq, if_pos (decide_eq_true heq), List.flatMap_cons]
    · rw [if_neg heq, if_neg (mt of_decide_eq_true heq), List.nil_append]

/-- The frames of a batch are numbered without a gap. -/
theorem map_sequence_jobs (b : Batch) :
    b.jobs.map Job.sequence = (List.range b.frames.length).map (b.start + ·) := by
  refine List.ext_getElem ?_ fun index hleft hright => ?_
  · rw [List.length_map, List.length_map, length_jobs, List.length_range]
  · have hframe : index < b.frames.length := by simpa using hright
    rw [List.getElem_map, List.getElem_map, List.getElem_range, getElem_jobs _ hframe]
    rfl

theorem map_bytes_jobs (b : Batch) : b.jobs.map Job.bytes = b.frames := by
  refine List.ext_getElem ?_ fun index hleft hright => ?_
  · rw [List.length_map, length_jobs]
  · rw [List.getElem_map, getElem_jobs _ hright]
    rfl

end Batch

namespace Queue

/-- The batch that a queue makes of these frames. -/
def nextOf (q : Queue) (session priority : UInt8) (frames : List Bytes) : Batch :=
  { number := q.nextBatch, start := q.nextSequence, session, priority, frames }

theorem batchJobs_eq (q : Queue) (session priority : UInt8) (frames : List Bytes) :
    q.batchJobs session priority frames = (q.nextOf session priority frames).jobs := rfl

/-! ## Jobs by priority -/

/-- The jobs are in the order of priority. -/
def Sorted (jobs : List Job) : Prop := jobs.Pairwise fun job later => job.priority ≤ later.priority

theorem Sorted.takeWhile_eq {jobs : List Job} (h : Sorted jobs) (priority : UInt8) :
    (jobs.takeWhile fun job => job.priority ≤ priority) =
      jobs.filter fun job => job.priority ≤ priority := by
  induction jobs with
  | nil => rfl
  | cons job rest ih =>
    obtain ⟨hjob, hrest⟩ := List.pairwise_cons.1 h
    by_cases hle : job.priority ≤ priority
    · rw [List.takeWhile_cons_of_pos (by simpa using hle),
        List.filter_cons_of_pos (by simpa using hle), ih hrest]
    · rw [List.takeWhile_cons_of_neg (by simpa using hle),
        List.filter_cons_of_neg (by simpa using hle)]
      refine (List.filter_eq_nil_iff.2 fun later hlater => ?_).symm
      have := hjob later hlater
      simp only [decide_eq_true_eq]
      exact fun hlow => hle (UInt8.le_trans this hlow)

theorem Sorted.dropWhile_eq {jobs : List Job} (h : Sorted jobs) (priority : UInt8) :
    (jobs.dropWhile fun job => job.priority ≤ priority) =
      jobs.filter fun job => ¬ job.priority ≤ priority := by
  induction jobs with
  | nil => rfl
  | cons job rest ih =>
    obtain ⟨hjob, hrest⟩ := List.pairwise_cons.1 h
    by_cases hle : job.priority ≤ priority
    · rw [List.dropWhile_cons_of_pos (by simpa using hle),
        List.filter_cons_of_neg (by simpa using hle), ih hrest]
    · rw [List.dropWhile_cons_of_neg (by simpa using hle),
        List.filter_cons_of_pos (by simpa using hle)]
      refine congrArg (job :: ·) (List.filter_eq_self.2 fun later hlater => ?_).symm
      have := hjob later hlater
      simp only [decide_eq_true_eq]
      exact fun hlow => hle (UInt8.le_trans this hlow)

/-- A batch goes between the jobs up to its priority and those above it. -/
theorem jobs_push {q : Queue} (h : Sorted q.jobs) (session priority : UInt8)
    (frames : List Bytes) :
    (q.push session priority frames).jobs =
      (q.jobs.filter fun job => job.priority ≤ priority) ++
        (q.nextOf session priority frames).jobs ++
        q.jobs.filter fun job => ¬ job.priority ≤ priority := by
  unfold push
  simp only
  rw [h.takeWhile_eq, h.dropWhile_eq, batchJobs_eq]

theorem sorted_push {q : Queue} (h : Sorted q.jobs) (session priority : UInt8)
    (frames : List Bytes) : Sorted (q.push session priority frames).jobs := by
  have hnew : ∀ job ∈ (q.nextOf session priority frames).jobs, job.priority = priority :=
    fun job hjob => Batch.priority_of_mem hjob
  rw [jobs_push h]
  refine List.pairwise_append.2 ⟨List.pairwise_append.2 ⟨h.filter _, ?_, ?_⟩, h.filter _, ?_⟩
  · refine List.pairwise_of_forall_mem_list fun job hjob later hlater => ?_
    rw [hnew job hjob, hnew later hlater]
    exact UInt8.le_refl priority
  · intro job hjob later hlater
    rw [hnew later hlater]
    simpa using (List.mem_filter.1 hjob).2
  · intro job hjob later hlater
    have hhigh : priority ≤ later.priority := by
      have := (List.mem_filter.1 hlater).2
      simp only [decide_eq_true_eq] at this
      exact UInt8.le_of_lt (UInt8.not_le.1 this)
    rcases List.mem_append.1 hjob with hold | hjob
    · have hlow : job.priority ≤ priority := by simpa using (List.mem_filter.1 hold).2
      exact UInt8.le_trans hlow hhigh
    · rw [hnew job hjob]
      exact hhigh

theorem perm_jobs_push (q : Queue) (session priority : UInt8) (frames : List Bytes) :
    (q.push session priority frames).jobs.Perm
      (q.jobs ++ (q.nextOf session priority frames).jobs) := by
  have hsplit := List.takeWhile_append_dropWhile (p := fun job : Job => job.priority ≤ priority)
    (l := q.jobs)
  conv => rhs; rw [← hsplit]
  unfold push
  simp only [List.append_assoc]
  exact (List.perm_append_comm).append_left _

/-- Of the jobs of one priority, a new batch comes last. -/
theorem filter_push {q : Queue} (h : Sorted q.jobs) {keep : Job → Bool} {p : UInt8}
    (hkeep : ∀ job, keep job = true → job.priority = p) (session priority : UInt8)
    (frames : List Bytes) :
    (q.push session priority frames).jobs.filter keep =
      q.jobs.filter keep ++ (q.nextOf session priority frames).jobs.filter keep := by
  rw [jobs_push h, List.filter_append, List.filter_append]
  by_cases hle : p ≤ priority
  · have hin : ∀ job, keep job = true → decide (job.priority ≤ priority) = true :=
      fun job hkept => decide_eq_true (hkeep job hkept ▸ hle)
    have hout : ∀ job, keep job = true → decide (¬ job.priority ≤ priority) = false :=
      fun job hkept => decide_eq_false (not_not_intro (hkeep job hkept ▸ hle))
    rw [filter_filter_of_imp hin, filter_filter_of_not hout, List.append_nil]
  · have hin : ∀ job, keep job = true → decide (¬ job.priority ≤ priority) = true :=
      fun job hkept => decide_eq_true (hkeep job hkept ▸ hle)
    have hout : ∀ job, keep job = true → decide (job.priority ≤ priority) = false :=
      fun job hkept => decide_eq_false (hkeep job hkept ▸ hle)
    have hnew : (q.nextOf session priority frames).jobs.filter keep = [] := by
      refine List.filter_eq_nil_iff.2 fun job hjob hkept => hle ?_
      rw [← hkeep job hkept, Batch.priority_of_mem hjob]
      exact UInt8.le_refl priority
    rw [filter_filter_of_not hout, filter_filter_of_imp hin, hnew, List.append_nil,
      List.nil_append, List.append_nil]

/-! ## Lanes -/

/-- Is this a job of the session, at the priority? -/
def onLane (session priority : UInt8) (job : Job) : Bool :=
  job.session = session ∧ job.priority = priority

theorem onLane_iff {session priority : UInt8} {job : Job} :
    onLane session priority job = true ↔ job.session = session ∧ job.priority = priority := by
  unfold onLane
  exact decide_eq_true_iff

theorem filter_onLane_jobs (session priority : UInt8) (b : Batch) :
    b.jobs.filter (onLane session priority) =
      if b.session = session ∧ b.priority = priority then b.jobs else [] := by
  split
  · rename_i hlane
    refine List.filter_eq_self.2 fun job hjob => onLane_iff.2 ?_
    rw [Batch.session_of_mem hjob, Batch.priority_of_mem hjob]
    exact hlane
  · rename_i hlane
    refine List.filter_eq_nil_iff.2 fun job hjob hon => hlane ?_
    have hboth := onLane_iff.1 hon
    rw [Batch.session_of_mem hjob, Batch.priority_of_mem hjob] at hboth
    exact hboth

/-- A new batch comes last on its lane and leaves all other lanes alone. -/
theorem filter_lane_push {q : Queue} (h : Sorted q.jobs) (s p session priority : UInt8)
    (frames : List Bytes) :
    (q.push session priority frames).jobs.filter (onLane s p) =
      q.jobs.filter (onLane s p) ++
        if session = s ∧ priority = p then (q.nextOf session priority frames).jobs else [] := by
  rw [filter_push h (fun job hon => (onLane_iff.1 hon).2), filter_onLane_jobs]
  rfl

/-! ## Claims -/

theorem isClaimable_iff {q : Queue} {job : Job} :
    q.isClaimable job = true ↔
      job.session ∉ q.busy ∧
        (q.pinned.lookup job.session = none ∨ q.pinned.lookup job.session = some job.batch) := by
  unfold isClaimable
  cases q.pinned.lookup job.session with
  | none => simp
  | some batch => simp

theorem claim?_eq_some_iff {q next : Queue} {job : Job} :
    q.claim? = some (job, next) ↔
      q.jobs.find? q.isClaimable = some job ∧ next = q.takeJob job := by
  unfold claim?
  rw [Option.map_eq_some_iff]
  constructor
  · rintro ⟨found, hfind, heq⟩
    obtain ⟨rfl, rfl⟩ := Prod.mk.inj heq
    exact ⟨hfind, rfl⟩
  · rintro ⟨hfind, rfl⟩
    exact ⟨job, hfind, rfl⟩

theorem exists_claim? {q : Queue} {job : Job} (hjob : job ∈ q.jobs)
    (hclaimable : q.isClaimable job = true) : ∃ first next, q.claim? = some (first, next) := by
  cases hfind : q.jobs.find? q.isClaimable with
  | none => exact absurd hclaimable (List.find?_eq_none.1 hfind job hjob)
  | some first => exact ⟨first, _, claim?_eq_some_iff.2 ⟨hfind, rfl⟩⟩

theorem isIdle_iff {q : Queue} : q.isIdle = true ↔ q.jobs = [] ∧ q.inFlight = 0 := by
  unfold isIdle
  rw [Bool.and_eq_true, List.isEmpty_iff, decide_eq_true_iff]

end Queue

end HeadUnitLink
