import HeadUnitLink.Proofs.Dispatch.Progress
import HeadUnitLink.Proofs.Dispatch.Shutdown

/-!
# Workers come to an end

Workers that are left to themselves can take turns in many ways.  All ways are
finite, and none ends before the work does.

* `Pool.work_workerStep`: a worker that does something leaves one piece of work
  less, unless it leaves itself.
* `History.Orderly.exists_workerStep`: as long as there is work, some worker can do
  something.
* `History.exists_run_of_settle`: `Pool.settle` is one of the ways.
* `History.run_single`: one batch is handed over in its order, whatever turns
  the workers take.
-/

namespace HeadUnitLink

namespace Pool

variable {p p' : Pool} {w : WorkerEvent}

/-- A worker that does not leave does one piece of work. -/
theorem work_workerStep (hstep : p.workerStep w = some p') (hw : w ≠ .leave) :
    p'.work + 1 = p.work := by
  cases w with
  | claim =>
    obtain ⟨⟨job, next⟩, hclaim, rfl⟩ := Option.map_eq_some_iff.1 hstep
    obtain ⟨_, hfind, rfl⟩ := claim?_eq_some hclaim
    have hmem := List.mem_of_find?_eq_some hfind
    have hpos := List.length_pos_of_mem hmem
    simp only [work, Queue.takeJob, List.length_erase_of_mem hmem, List.length_append,
      List.length_singleton]
    omega
  | handOver job fails =>
    simp only [workerStep] at hstep
    split at hstep
    · rename_i hholding
      obtain rfl := Option.some.inj hstep
      have hpos := List.length_pos_of_mem hholding
      simp only [work, handOver, List.length_erase_of_mem hholding, List.length_append,
        List.length_singleton]
      omega
    · cases hstep
  | complete job =>
    simp only [workerStep] at hstep
    split at hstep
    · rename_i hreturned
      obtain rfl := Option.some.inj hstep
      have hpos := List.length_pos_of_mem hreturned
      simp only [work, complete, Queue.complete, List.length_erase_of_mem hreturned]
      omega
    · cases hstep
  | leave => exact absurd rfl hw

/-- What happens of itself is done by a worker, and the transport does not
fail. -/
theorem exists_workerStep_of_advance? {sent : List Bytes}
    (h : p.advance? (fun _ => .send) false = some (p', sent)) :
    ∃ w, (∀ job, w ≠ .handOver job true) ∧ p.workerStep w = some p' ∧
      sent = w.handed.map Job.bytes := by
  unfold advance? at h
  split at h
  · rename_i job rest hreturned
    obtain ⟨rfl, rfl⟩ := Prod.mk.inj (Option.some.inj h)
    refine ⟨.complete job, fun _ => by simp, ?_, rfl⟩
    simp only [workerStep, hreturned, List.mem_cons_self, if_true]
  · simp only at h
    split at h
    · rename_i job rest _ hholding
      obtain ⟨rfl, rfl⟩ := Prod.mk.inj (Option.some.inj h)
      refine ⟨.handOver job false, fun _ => by simp, ?_, rfl⟩
      simp only [workerStep, hholding, List.mem_cons_self, if_true]
    · obtain ⟨⟨job, next⟩, hclaim, heq⟩ := Option.map_eq_some_iff.1 h
      obtain ⟨rfl, rfl⟩ := Prod.mk.inj heq
      refine ⟨.claim, fun _ => by simp, ?_, rfl⟩
      simp only [workerStep, hclaim, Option.map_some]
      rfl

/-- When nothing happens of itself, nothing is in flight and nothing can be
claimed. -/
theorem of_advance?_eq_none (h : p.advance? (fun _ => .send) false = none) :
    p.returned = [] ∧ p.holding = [] ∧ p.claim? = none := by
  unfold advance? at h
  split at h
  · cases h
  · rename_i hreturned
    simp only at h
    split at h
    · cases h
    · rename_i hholding
      have hnone := Option.map_eq_none_iff.1 h
      refine ⟨hreturned, ?_, hnone⟩
      cases hlist : p.holding with
      | nil => rfl
      | cons job rest => exact absurd hlist (hholding job rest rfl)

end Pool

namespace History

variable {h h' : History} {workers : Nat} {ws : List WorkerEvent}

/-! ## Runs of the workers -/

/-- Workers accept nothing, and what they hand over comes behind what was handed
over before. -/
theorem run_workers (hrun : h.run (ws.map .worker) = some h') :
    h'.accepted = h.accepted ∧ h'.handed = h.handed ++ ws.flatMap WorkerEvent.handed ∧
      h'.pool.queue.isShutdown = h.pool.queue.isShutdown := by
  induction ws generalizing h with
  | nil =>
    obtain rfl := Option.some.inj hrun
    exact ⟨rfl, (List.append_nil _).symm, rfl⟩
  | cons w rest ih =>
    obtain ⟨next, hstep, hrest⟩ := Option.bind_eq_some_iff.1 hrun
    obtain ⟨pool, hpool, rfl⟩ := Option.map_eq_some_iff.1 hstep
    obtain ⟨haccepted, hhanded, hshut⟩ := ih hrest
    refine ⟨haccepted, ?_, hshut.trans (isShutdown_workerStep hpool)⟩
    rw [hhanded, List.flatMap_cons, List.append_assoc]

/-- While the queue is open, a run of the workers is as long as the work that it
does. -/
theorem work_run_workers (hopen : h.pool.queue.isShutdown = false)
    (hrun : h.run (ws.map .worker) = some h') : h'.pool.work + ws.length = h.pool.work := by
  induction ws generalizing h with
  | nil =>
    obtain rfl := Option.some.inj hrun
    rfl
  | cons w rest ih =>
    obtain ⟨next, hstep, hrest⟩ := Option.bind_eq_some_iff.1 hrun
    obtain ⟨pool, hpool, rfl⟩ := Option.map_eq_some_iff.1 hstep
    have hw : w ≠ .leave := by
      rintro rfl
      simp only [Pool.workerStep] at hpool
      split at hpool
      · rename_i hmay
        have hclosed := (Pool.mayLeave_iff.1 hmay).2.1
        rw [hopen] at hclosed
        cases hclosed
      · cases hpool
    have hwork := Pool.work_workerStep hpool hw
    have htail := ih ((isShutdown_workerStep hpool).trans hopen) hrest
    simp only at htail
    rw [List.length_cons]
    omega

/-- A pool that is left to itself is run by its workers until nothing happens
any more. -/
theorem exists_run_of_settleOnto (h : History) (sent : List Bytes) :
    ∃ (ws : List WorkerEvent) (h' : History), (∀ job, .handOver job true ∉ ws) ∧
      h.run (ws.map .worker) = some h' ∧
      h.pool.settleOnto (fun _ => .send) false sent =
        (h'.pool, ((ws.flatMap WorkerEvent.handed).map Job.bytes).reverse ++ sent) ∧
      h'.pool.advance? (fun _ => .send) false = none := by
  induction hwork : h.pool.work using Nat.strongRecOn generalizing h sent with
  | ind n ih =>
    rw [Pool.settleOnto]
    split
    · rename_i hnone
      exact ⟨[], h, fun _ => List.not_mem_nil, rfl, rfl, hnone⟩
    · rename_i next hnext
      obtain ⟨w, hsink, hstep, hsent⟩ := Pool.exists_workerStep_of_advance? hnext
      have hless := Pool.work_advance?_lt hnext
      obtain ⟨ws, h', hnofail, hrun, hsettle, hnone⟩ :=
        ih _ (hwork ▸ hless) { h with pool := next.1, handed := h.handed ++ w.handed }
          (next.2 ++ sent) rfl
      refine ⟨w :: ws, h', ?_, ?_, ?_, hnone⟩
      · intro job hjob
        rcases List.mem_cons.1 hjob with heq | hmem
        · exact hsink job heq.symm
        · exact hnofail job hmem
      · have hfirst : h.step (.worker w) =
            some { h with pool := next.1, handed := h.handed ++ w.handed } := by
          show (h.pool.workerStep w).map _ = _
          rw [hstep]
          rfl
        rw [List.map_cons, run, hfirst]
        exact hrun
      · -- one worker hands over one job at most, so the order of its bytes is no matter
        have hshort : (w.handed.map Job.bytes).reverse = w.handed.map Job.bytes := by
          cases w <;> rfl
        rw [hsettle, hsent, List.flatMap_cons, List.map_append, List.reverse_append, hshort,
          List.append_assoc]

/-- `Pool.settle` is a run of the workers. -/
theorem exists_run_of_settle (h : History) :
    ∃ (ws : List WorkerEvent) (h' : History), (∀ job, .handOver job true ∉ ws) ∧
      h.run (ws.map .worker) = some h' ∧
      h.pool.settle (fun _ => .send) false =
        (h'.pool, (ws.flatMap WorkerEvent.handed).map Job.bytes) ∧
      h'.pool.advance? (fun _ => .send) false = none := by
  obtain ⟨ws, h', hnofail, hrun, hsettle, hnone⟩ := h.exists_run_of_settleOnto []
  refine ⟨ws, h', hnofail, hrun, ?_, hnone⟩
  unfold Pool.settle
  rw [hsettle, List.append_nil]
  simp only [List.reverse_reverse]

/-! ## The end of the work -/

/-- With nothing in flight and nothing to claim, the work is done. -/
theorem Orderly.isIdle_of_claim?_none (ho : Orderly h) (hs : Staffed workers h)
    (hreturned : h.pool.returned = []) (hholding : h.pool.holding = [])
    (hclaim : h.pool.claim? = none) : h.pool.queue.isIdle = true := by
  have hflight : h.flight = [] := by
    unfold flight
    rw [hreturned, hholding, List.append_nil]
  have hcount := ho.kept.inFlight_eq
  rw [hflight] at hcount
  refine Queue.isIdle_iff.2 ⟨?_, hcount⟩
  by_cases hidle : h.pool.idle = 0
  · -- all workers are gone, and the first went when nothing waited
    have hall := hs.count
    rw [hidle, hflight] at hall
    exact (hs.drained (by simp only [List.length_nil] at hall; omega)).2
  · by_contra hjobs
    obtain ⟨job, hjob⟩ := List.exists_mem_of_ne_nil _ hjobs
    obtain ⟨next, hnext, -, hclaimable⟩ := ho.exists_claimable hjob fun other hother =>
      absurd (hflight ▸ hother) List.not_mem_nil
    obtain ⟨first, queue, hfound⟩ := Queue.exists_claim? hnext hclaimable
    unfold Pool.claim? at hclaim
    rw [if_neg hidle, hfound] at hclaim
    cases hclaim

/-- As long as there is work, some worker can do something, and the transport
need not fail. -/
theorem Orderly.exists_workerStep (ho : Orderly h) (hs : Staffed workers h)
    (hbusy : h.pool.queue.isIdle = false) :
    ∃ w p, (∀ job, w ≠ .handOver job true) ∧ h.pool.workerStep w = some p := by
  by_contra hstuck
  -- a stuck pool has no job in flight, and then its first job could be claimed
  have hnone : ∀ w, (∀ job, w ≠ .handOver job true) → h.pool.workerStep w = none := by
    intro w hw
    cases hstep : h.pool.workerStep w with
    | none => rfl
    | some p => exact absurd ⟨w, p, hw, hstep⟩ hstuck
  have hreturned : h.pool.returned = [] := by
    refine List.eq_nil_iff_forall_not_mem.2 fun job hjob => ?_
    have hstep := hnone (.complete job) (by simp)
    simp only [Pool.workerStep, if_pos hjob] at hstep
    cases hstep
  have hholding : h.pool.holding = [] := by
    refine List.eq_nil_iff_forall_not_mem.2 fun job hjob => ?_
    have hstep := hnone (.handOver job false) (by simp)
    simp only [Pool.workerStep, if_pos hjob] at hstep
    cases hstep
  have hclaim : h.pool.claim? = none := Option.map_eq_none_iff.1 (hnone .claim (by simp))
  have hidle := ho.isIdle_of_claim?_none hs hreturned hholding hclaim
  rw [hbusy] at hidle
  cases hidle

/-! ## One batch -/

/-- When all the work was one batch, its jobs have been handed over in their
order. -/
theorem Orderly.handed_of_single (ho : Orderly h) (hidle : h.pool.queue.isIdle = true)
    {b : Batch} (haccepted : h.accepted = [b]) : h.handed = b.jobs := by
  have hlane := ho.filter_handed_of_isIdle hidle b.session b.priority
  have hown : Batch.onLane b.session b.priority b = true := Batch.onLane_iff.2 ⟨rfl, rfl⟩
  have hall : ∀ job ∈ h.handed, Queue.onLane b.session b.priority job = true := by
    intro job hjob
    have hmem := ho.kept.mem_jobs_of_handed hjob
    unfold jobs at hmem
    rw [haccepted, List.flatMap_singleton] at hmem
    exact Queue.onLane_iff.2 ⟨Batch.session_of_mem hmem, Batch.priority_of_mem hmem⟩
  rw [haccepted, List.filter_cons_of_pos hown, List.filter_nil, List.flatMap_singleton,
    List.filter_eq_self.2 hall] at hlane
  exact hlane

/-- A pool of idle workers with one batch. -/
def single (workers : Nat) (session priority : UInt8) (frames : List Bytes) : History :=
  (ofWorkers workers).accept session priority frames

section Single

variable {session priority : UInt8} {frames : List Bytes}

theorem jobs_single :
    (single workers session priority frames).pool.queue.jobs =
      (Queue.empty.nextOf session priority frames).jobs := by
  show [] ++ _ ++ [] = _
  rw [List.nil_append, List.append_nil]
  rfl

/-- What holds of a pool with one batch, however its workers go on. -/
theorem orderly_run_single (hframes : frames ≠ [])
    (hrun : (single workers session priority frames).run (ws.map .worker) = some h') :
    Orderly h' ∧ Staffed workers h' ∧
      h'.accepted = [Queue.empty.nextOf session priority frames] := by
  have ho : Orderly (single workers session priority frames) :=
    (orderly_ofWorkers workers).step (.accepted session priority frames hframes)
  have hs : Staffed workers (single workers session priority frames) :=
    (staffed_ofWorkers workers).accept rfl session priority frames
  exact ⟨run_induction (fun _ _ hstep ho => ho.step hstep) hrun ho, hs.run hrun,
    (run_workers hrun).1⟩

/-- However the workers go on with one batch, they come to an end in so many
steps, and not before all its frames are handed over in their order. -/
theorem run_single (hframes : frames ≠ [])
    (hrun : (single workers session priority frames).run (ws.map .worker) = some h') :
    ws.length ≤ 3 * frames.length ∧
      (h'.pool.queue.isIdle = true → h'.handed.map Job.bytes = frames) ∧
      (h'.pool.queue.isIdle = false →
        ∃ w p, (∀ job, w ≠ .handOver job true) ∧ h'.pool.workerStep w = some p) := by
  obtain ⟨ho, hs, haccepted⟩ := orderly_run_single hframes hrun
  refine ⟨?_, fun hidle => ?_, ho.exists_workerStep hs⟩
  · have hwork := work_run_workers rfl hrun
    have hall : (single workers session priority frames).pool.work = 3 * frames.length := by
      show 3 * (single workers session priority frames).pool.queue.jobs.length + 2 * 0 + 0 = _
      rw [jobs_single, Batch.length_jobs]
      rfl
    omega
  · rw [ho.handed_of_single hidle haccepted, Batch.map_bytes_jobs]
    rfl

/-- A pool that is left to itself hands over the frames of its batch in their
order. -/
theorem settle_single (workers : Nat) (session priority : UInt8) (hframes : frames ≠ []) :
    ((single workers session priority frames).pool.settle (fun _ => .send) false).2 = frames := by
  obtain ⟨ws, h', -, hrun, hsettle, hnone⟩ :=
    exists_run_of_settle (single workers session priority frames)
  obtain ⟨ho, hs, -⟩ := orderly_run_single hframes hrun
  obtain ⟨hreturned, hholding, hclaim⟩ := Pool.of_advance?_eq_none hnone
  have hidle := ho.isIdle_of_claim?_none hs hreturned hholding hclaim
  obtain ⟨-, hhanded, -⟩ := run_workers hrun
  rw [hsettle, ← (run_single hframes hrun).2.1 hidle, hhanded]
  rfl

end Single

end History

end HeadUnitLink
