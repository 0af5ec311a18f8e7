import HeadUnitLink.Proofs.Engine.Transcript
import HeadUnitLink.Proofs.Engine.Version
import HeadUnitLink.Proofs.Message.Lengths
import HeadUnitLink.Proofs.Wire.Codec

/-!
# The length of the frames that are sent

The payload of a data frame is sized by the transport unit.  The payload of a
first frame is not, and neither is that of a control frame, and the settings
are accepted with a transport unit that has no room for them.

* `Engine.step_adds` says that every frame that a request makes fits
  (`Frame.Fits`) into a header of the highest version and `Config.room`.
* `Engine.Backed` bounds all that has passed through the queue, and
  `Engine.Reachable.backed` carries it through every run.
* `Engine.exists_sends_first` is a run that sends a first frame.
* `Engine.sends_within_mtu_iff` says for which settings the transport unit
  bounds every frame that is sent.
-/

namespace HeadUnitLink

/-! ## The frames of a request -/

/-- The most payload of a frame that is sent: that of a data frame, or that of
a first frame. -/
def Config.room (c : Config) : Nat := max c.maxDataSize firstPayloadSize

namespace Engine

variable {config : Config} {e e' : Engine} {size : Nat}

theorem fits_bare {header : Except FrameError Header} {version : UInt8} {frame : Frame}
    (hframe : bare header = .ok frame)
    (hversion : ∀ found, header = .ok found → found.version = version) :
    frame.Fits version firstPayloadSize := by
  cases hfound : header with
  | error cause =>
    rw [hfound] at hframe
    exact absurd hframe (by simp [bare, Except.map])
  | ok found =>
    rw [hfound] at hframe
    obtain rfl := Except.ok.inj hframe
    have hsame : found.version = version := hversion found hfound
    exact ⟨UInt8.le_of_eq hsame, Nat.zero_le _⟩

theorem fits_startService {service : Service} {session version : UInt8} {frame : Frame}
    (hframe : bare (Header.startService service session version) = .ok frame) :
    frame.Fits version firstPayloadSize := by
  refine fits_bare hframe fun found hfound => ?_
  unfold Header.startService at hfound
  split at hfound
  · exact absurd hfound (by simp)
  · rw [Header.eq_of_checked hfound]
    rfl

theorem fits_endService {service : Service} {session version : UInt8} {hashId : Option UInt32}
    {frame : Frame} (hframe : Frame.endService service session hashId version = .ok frame) :
    frame.Fits version firstPayloadSize := by
  unfold Frame.endService at hframe
  split at hframe
  · exact absurd hframe (by simp)
  · rename_i header hchecked
    obtain rfl := Header.eq_of_checked hchecked
    cases hashId with
    | some hash =>
      obtain rfl := Except.ok.inj hframe
      have hlength : (Word.toBytes hash).length ≤ firstPayloadSize := by
        rw [Word.length_toBytes]
        decide
      exact ⟨UInt8.le_refl _, hlength⟩
    | none =>
      obtain rfl := Except.ok.inj hframe
      exact ⟨UInt8.le_refl _, Nat.zero_le _⟩

/-- The queue stays as it is, or gets one batch of frames with at most so many
bytes. -/
def Adds (limit : Nat) (e e' : Engine) : Prop :=
  e'.outlet.pool = e.outlet.pool ∨
    ∃ session priority encoded, (∀ bytes ∈ encoded, bytes.length ≤ limit) ∧
      e.outlet.pool.submit session priority encoded = .ok e'.outlet.pool

theorem adds_of_submit (hsize : headerSize? config.maxVersion = some size) {service : Service}
    {session : UInt8} {frames : List Frame} {room : Nat}
    (hfits : ∀ frame ∈ frames, frame.Fits config.maxVersion room)
    (hsubmit : e.submit service session frames = .ok e') : Adds (size + room) e e' := by
  obtain ⟨encoded, pool, hencoded, hpool, rfl⟩ := submit_eq_ok hsubmit
  refine Or.inr ⟨session, service.priority, encoded, ?_, hpool⟩
  intro bytes hbytes
  have hmem : Except.ok bytes ∈ frames.map Frame.encode := by
    rw [encodeEach_eq_ok_iff.1 hencoded]
    exact List.mem_map_of_mem hbytes
  obtain ⟨frame, hframe, hencode⟩ := List.mem_map.1 hmem
  exact (hfits frame hframe).length_le hencode hsize

theorem adds_request (hsize : headerSize? config.maxVersion = some size)
    (hversion : e.version ≤ config.maxVersion) {service : Service} {session : UInt8}
    {frame : Except FrameError Frame}
    (hfits : ∀ content, frame = .ok content → content.Fits e.version firstPayloadSize) :
    Adds (size + config.room) e (e.request service session frame).2 := by
  rcases request_cases e service session frame with hsame | ⟨content, hframe, hsubmit⟩
  · rw [hsame]
    exact Or.inl rfl
  · refine adds_of_submit hsize ?_ hsubmit
    intro other hother
    rw [List.mem_singleton.1 hother]
    exact (hfits content hframe).mono hversion (Nat.le_max_right _ _)

theorem adds_startService (hsize : headerSize? config.maxVersion = some size)
    (hversion : e.version ≤ config.maxVersion) (service : Service) (session : UInt8) :
    Adds (size + config.room) e (e.startService service session).2 := by
  unfold startService
  split
  · exact Or.inl rfl
  · exact adds_request hsize hversion fun _ => fits_startService

theorem adds_send (hsize : headerSize? config.maxVersion = some size) (he : e.config = config)
    (m : Message) : Adds (size + config.room) e (e.send m).2.1 := by
  rcases send_cases e m with ⟨cause, id, hsend⟩ | ⟨frames, next, hfragment, hsubmit, hsend⟩
  · rw [hsend]
    exact Or.inl rfl
  · have hspoken : e.config.Spoken m.version := spoken_of_send (by rw [hsend])
    rw [he] at hspoken
    have hfits : ∀ frame ∈ frames, frame.Fits config.maxVersion config.room := by
      intro frame hframe
      obtain ⟨header, payload, rfl, hheader, hpayload⟩ :=
        Message.stamped_of_fragment hfragment hframe
      refine ⟨?_, Nat.le_trans hpayload ?_⟩
      · show header.version ≤ config.maxVersion
        rw [hheader]
        exact hspoken.2
      · rw [he]
        unfold Config.room firstPayloadSize
        omega
    have hadds := adds_of_submit hsize hfits hsubmit
    rw [hsend]
    exact hadds

/-- A step adds frames that fit to the queue, or shuts it down, or is the work
of a worker. -/
theorem step_adds (hsize : headerSize? config.maxVersion = some size) (he : e.config = config)
    (hversion : e.version ≤ config.maxVersion) {event : EngineEvent}
    (hstep : e.step event = some e') :
    Adds (size + config.room) e e' ∨ e'.outlet.pool = e.outlet.pool.shutdown ∨
      ∃ w, e.outlet.pool.workerStep w = some e'.outlet.pool := by
  cases event with
  | send m =>
    obtain rfl := Option.some.inj hstep
    exact Or.inl (adds_send hsize he m)
  | startSession session =>
    obtain rfl := Option.some.inj hstep
    exact Or.inl (adds_startService hsize hversion .rpc session)
  | startService service session =>
    obtain rfl := Option.some.inj hstep
    exact Or.inl (adds_startService hsize hversion service session)
  | endService service session =>
    obtain rfl := Option.some.inj hstep
    exact Or.inl (adds_request hsize hversion fun _ => fits_endService)
  | heartbeat session =>
    obtain rfl := Option.some.inj hstep
    refine Or.inl (adds_request hsize hversion fun content hframe => ?_)
    exact fits_bare hframe fun found hfound => by rw [Header.eq_of_checked hfound]; rfl
  | heartbeatAck session =>
    obtain rfl := Option.some.inj hstep
    refine Or.inl (adds_request hsize hversion fun content hframe => ?_)
    exact fits_bare hframe fun found hfound => by rw [Header.eq_of_checked hfound]; rfl
  | setVersion version =>
    obtain rfl := Option.some.inj hstep
    unfold setVersion
    split
    · exact Or.inl (Or.inl rfl)
    · exact Or.inl (Or.inl rfl)
  | receive chunk =>
    obtain rfl := Option.some.inj hstep
    exact Or.inl (Or.inl rfl)
  | shutdown =>
    obtain rfl := Option.some.inj hstep
    exact Or.inr (Or.inl rfl)
  | worker w =>
    obtain ⟨pool, hpool, rfl⟩ := Option.map_eq_some_iff.1 hstep
    exact Or.inr (Or.inr ⟨w, hpool⟩)

/-! ## What has passed through the queue -/

/-- The pool of the engine has this history, and no frame in it is longer. -/
structure Backed (limit : Nat) (e : Engine) (h : History) : Prop where
  pool_eq : h.pool = e.outlet.pool
  kept : h.Kept
  length_le : ∀ b ∈ h.accepted, ∀ bytes ∈ b.frames, bytes.length ≤ limit

theorem Backed.adds {limit : Nat} {h : History} (hb : Backed limit e h) (hadds : Adds limit e e') :
    ∃ h', Backed limit e' h' := by
  rcases hadds with hsame | ⟨session, priority, encoded, hlength, hsubmit⟩
  · exact ⟨h, hb.pool_eq.trans hsame.symm, hb.kept, hb.length_le⟩
  · rw [← hb.pool_eq] at hsubmit
    refine ⟨h.submit session priority encoded, ?_,
      hb.kept.step (h.submit_cases session priority encoded), ?_⟩
    · rw [History.pool_submit, hsubmit]
      rfl
    · intro b hmem bytes hbytes
      unfold History.submit at hmem
      simp only [hsubmit] at hmem
      split at hmem
      · exact hb.length_le b hmem bytes hbytes
      · rcases List.mem_append.1 hmem with hold | hnew
        · exact hb.length_le b hold bytes hbytes
        · rw [List.mem_singleton.1 hnew] at hbytes
          exact hlength bytes hbytes

/-- Every reachable engine has a history of frames that fit. -/
theorem Reachable.backed (h : Reachable config e) (hconfig : config.fault? = none)
    (hsize : headerSize? config.maxVersion = some size) :
    ∃ history, Backed (size + config.room) e history := by
  induction h with
  | fresh h =>
    obtain ⟨_, rfl⟩ := ofConfig_eq_ok h
    exact ⟨History.ofWorkers config.workers, rfl, History.kept_ofWorkers _,
      fun b hb => absurd hb List.not_mem_nil⟩
  | @step e e' event hreach hstep ih =>
    obtain ⟨history, hb⟩ := ih
    rcases step_adds hsize hreach.config_eq ((hreach.spoken hconfig).2) hstep with
      hadds | hshut | ⟨w, hwork⟩
    · exact hb.adds hadds
    · refine ⟨{ history with pool := history.pool.shutdown }, ?_,
        hb.kept.step History.Step.shutdown, hb.length_le⟩
      rw [hshut, hb.pool_eq]
    · rw [← hb.pool_eq] at hwork
      exact ⟨_, rfl, hb.kept.step (History.workerStep_cases hwork), hb.length_le⟩

/-! ## What is sent -/

/-- An engine with these settings can hand these bytes to its transport. -/
def Sends (config : Config) (bytes : Bytes) : Prop :=
  ∃ e e' job fails, Reachable config e ∧ e.step (.worker (.handOver job fails)) = some e' ∧
    job.bytes = bytes

theorem length_le_of_sends (hconfig : config.fault? = none)
    (hsize : headerSize? config.maxVersion = some size) {bytes : Bytes} (h : Sends config bytes) :
    bytes.length ≤ size + config.room := by
  obtain ⟨e, e', job, fails, hreach, hstep, rfl⟩ := h
  obtain ⟨history, hb⟩ := hreach.backed hconfig hsize
  obtain ⟨pool, hpool, -⟩ := Option.map_eq_some_iff.1 hstep
  have hjob : job ∈ history.jobs := by
    refine hb.kept.all.mem_iff.1 (List.mem_append_left _ (List.mem_append_right _ ?_))
    rw [hb.pool_eq]
    simp only [Pool.workerStep] at hpool
    split at hpool
    · assumption
    · exact absurd hpool (by simp)
  obtain ⟨b, hb', hmem⟩ := List.mem_flatMap.1 hjob
  refine hb.length_le b hb' job.bytes ?_
  rw [← b.map_bytes_jobs]
  exact List.mem_map_of_mem hmem

/-- A batch of frames is queued, unless the queue is shut down. -/
theorem submit_queues {frames : List Frame} {encoded : List Bytes}
    (hencoded : encodeEach frames = .ok encoded) (hne : encoded ≠ [])
    (hopen : e.outlet.pool.queue.isShutdown = false) (service : Service) (session : UInt8) :
    ∃ next, e.submit service session frames = .ok next ∧
      next.outlet.pool = { e.outlet.pool with
        queue := e.outlet.pool.queue.push session service.priority encoded } := by
  unfold submit Outlet.submit Pool.submit Queue.submit
  simp only [hencoded, if_neg hne, hopen]
  exact ⟨_, rfl, rfl⟩

/-- A message of a session and of a version that is spoken is queued, unless the
queue is shut down. -/
theorem send_queues {m : Message} (hspeaks : e.speaks m.version = true)
    (hsession : m.session ≠ 0) {frames : List Frame} {encoded : List Bytes}
    (hfragment : m.fragment e.nextMessageId e.config.maxDataSize = .ok frames)
    (hencoded : encodeEach frames = .ok encoded) (hne : encoded ≠ [])
    (hopen : e.outlet.pool.queue.isShutdown = false) :
    (e.send m).2.1.outlet.pool = { e.outlet.pool with
      queue := e.outlet.pool.queue.push m.session m.service.priority encoded } := by
  obtain ⟨next, hsubmit, hpool⟩ :=
    submit_queues (e := { e with nextMessageId := e.nextMessageId + 1 }) hencoded hne hopen
      m.service m.session
  unfold send
  rw [if_neg (by simp [hspeaks]), if_neg (fun h => hsession h.2)]
  simp only [hfragment, hsubmit]
  exact hpool

end Engine

/-- The first frame of a batch that is alone in the queue is claimed first. -/
theorem Pool.claim?_push (workers : Nat) (session priority : UInt8) (bytes : Bytes)
    (more : List Bytes) :
    ∃ job p, Pool.claim? { Pool.ofWorkers workers with
        queue := Queue.empty.push session priority (bytes :: more) } = some (job, p) ∧
      job ∈ p.holding ∧ job.bytes = bytes := by
  have hworker : max workers 1 ≠ 0 := by omega
  unfold Pool.claim? Pool.ofWorkers
  rw [if_neg hworker]
  unfold Queue.claim? Queue.push Queue.empty Queue.batchJobs
  simp only [List.takeWhile_nil, List.dropWhile_nil, List.nil_append, List.append_nil,
    List.mapIdx_cons]
  rw [List.find?_cons_of_pos (by simp [Queue.isClaimable])]
  exact ⟨_, _, rfl, List.mem_singleton_self _, rfl⟩

namespace Engine

variable {config : Config} {size : Nat}

/-- A job that can be claimed can be handed over. -/
theorem sends_of_claim {e : Engine} (hreach : Reachable config e) {job : Job} {pool : Pool}
    (hclaim : e.outlet.pool.claim? = some (job, pool)) (hholding : job ∈ pool.holding) :
    Sends config job.bytes := by
  have hstep : e.step (.worker .claim) = some { e with outlet := { e.outlet with pool } } := by
    show ((Pool.claim? e.outlet.pool).map Prod.snd).map _ = _
    rw [hclaim]
    rfl
  have hhandOver : step { e with outlet := { e.outlet with pool } }
      (.worker (.handOver job false)) =
        some { e with outlet := { e.outlet with pool := pool.handOver job } } := by
    show (Pool.workerStep pool (.handOver job false)).map _ = _
    simp only [Pool.workerStep, if_pos hholding]
    rfl
  exact ⟨_, _, job, false, hreach.step hstep, hhandOver, rfl⟩

/-- A fresh engine that is asked to send a message can hand over the first frame
of it. -/
theorem sends_of_send {e : Engine} (he : ofConfig config = .ok e) {m : Message}
    (hspeaks : e.speaks m.version = true) (hsession : m.session ≠ 0) {frames : List Frame}
    {first : Bytes} {more : List Bytes}
    (hfragment : m.fragment e.nextMessageId e.config.maxDataSize = .ok frames)
    (hencoded : encodeEach frames = .ok (first :: more)) : Sends config first := by
  have hopen : e.outlet.pool.queue.isShutdown = false := by
    rw [(ofConfig_eq_ok he).2]
    rfl
  have hfresh : e.outlet.pool = { Pool.ofWorkers config.workers with queue := Queue.empty } := by
    rw [(ofConfig_eq_ok he).2]
    rfl
  have hqueued := send_queues hspeaks hsession hfragment hencoded (List.cons_ne_nil _ _) hopen
  obtain ⟨job, pool, hclaim, hholding, hjob⟩ :=
    Pool.claim?_push config.workers m.session m.service.priority first more
  rw [hfresh] at hqueued
  rw [← hqueued] at hclaim
  have hsend : e.step (.send m) = some (e.send m).2.1 := rfl
  have hsent : Reachable config (e.send m).2.1 := (Reachable.fresh he).step hsend
  rw [← hjob]
  exact sends_of_claim hsent hclaim hholding

/-- A message that does not fit into one frame is announced by a first frame,
which is as long as the header and the announcement. -/
theorem exists_sends_first (hconfig : config.fault? = none)
    (hsize : headerSize? config.maxVersion = some size)
    (hmtu : config.mtu ≤ Message.maxFragmentedSize) :
    ∃ bytes, Sends config bytes ∧ bytes.length = size + firstPayloadSize := by
  obtain ⟨hroom, hspoken, _⟩ := Config.fault?_eq_none hconfig
  obtain ⟨e, he⟩ : ∃ e, ofConfig config = .ok e := by
    unfold ofConfig
    rw [hconfig]
    exact ⟨_, rfl⟩
  have hsame : e.config = config := (Reachable.fresh he).config_eq
  -- One byte more than a frame has room for.
  let m := Message.plain .rpc 1 config.maxVersion (List.replicate (config.maxDataSize + 1) 0)
  have hlength : m.wirePayload.length = config.maxDataSize + 1 := List.length_replicate
  have hbudget : max config.maxDataSize 1 < m.wirePayload.length := by
    unfold Config.maxDataSize at hlength ⊢
    omega
  have hdeclared : m.wirePayload.length ≤ Message.maxFragmentedSize := by
    unfold Config.maxDataSize maxHeaderSize longHeaderSize at hlength
    omega
  have hfragment := Message.fragment_eq hsize hdeclared e.nextMessageId config.maxDataSize
  rw [if_neg (Nat.not_le_of_lt hbudget)] at hfragment
  obtain ⟨first, hfirst, hsized⟩ :=
    Message.exists_encode_of_fragment hsize hfragment List.mem_cons_self
  obtain ⟨more, hmore⟩ := Frame.exists_encoded fun frame hframe =>
    (Message.exists_encode_of_fragment hsize hfragment (List.mem_cons_of_mem _ hframe)).imp
      fun _ h => h.1
  have hspeaks : e.speaks m.version = true := by
    rw [speaks_iff, hsame]
    exact hspoken
  have hsession : m.session ≠ 0 := by
    show (1 : UInt8) ≠ 0
    decide
  have hencoded : encodeEach (m.firstFrame e.nextMessageId config.maxDataSize ::
      m.consecutives e.nextMessageId 0 (pieces (max config.maxDataSize 1) m.wirePayload)) =
        .ok (first :: more) := by
    rw [encodeEach_eq_ok_iff, List.map_cons, hfirst, hmore, List.map_cons]
  refine ⟨first, sends_of_send he hspeaks hsession ?_ hencoded, hsized⟩
  rw [hsame]
  exact hfragment

/-- With settings that are accepted, every frame that is sent is within the
transport unit if and only if the transport unit has room for the header of
the highest version and the payload of a first frame. -/
theorem sends_within_mtu_iff (hconfig : config.fault? = none) :
    ∃ size, headerSize? config.maxVersion = some size ∧
      ((∀ bytes, Sends config bytes → bytes.length ≤ config.mtu) ↔
        size + firstPayloadSize ≤ config.mtu) := by
  obtain ⟨hroom, ⟨hmin, _⟩, hversion⟩ := Config.fault?_eq_none hconfig
  obtain ⟨size, hsize⟩ := exists_headerSize?_iff.2 ⟨hmin, hversion⟩
  have hmax := (headerSize_bounds hsize).2
  refine ⟨size, hsize, ?_, ?_⟩
  · intro hwithin
    by_cases hmtu : config.mtu ≤ Message.maxFragmentedSize
    · obtain ⟨bytes, hsends, hlength⟩ := exists_sends_first hconfig hsize hmtu
      have hle := hwithin bytes hsends
      omega
    · unfold Message.maxFragmentedSize at hmtu
      unfold firstPayloadSize
      unfold maxHeaderSize longHeaderSize at hmax
      omega
  · intro hfirst bytes hsends
    have hle := length_le_of_sends hconfig hsize hsends
    unfold Config.room Config.maxDataSize at hle
    omega

/-- The least transport unit that bounds every frame of version 4. -/
theorem sends_within_mtu_iff_twenty :
    let config := { Config.default with mtu := 20 }
    config.fault? = none ∧ ∀ bytes, Sends config bytes → bytes.length ≤ 20 := by
  intro config
  have hconfig : config.fault? = none := rfl
  obtain ⟨size, hsize, hiff⟩ := sends_within_mtu_iff hconfig
  obtain rfl : 12 = size := Option.some.inj hsize
  exact ⟨hconfig, hiff.2 (by decide)⟩

/-- A message of two bytes. -/
def twoBytes : Message := Message.plain .nav 1 4 [0x0A, 0x0B]

/-- A transport unit of 13 bytes is accepted, and a message of two bytes is
announced in a frame of 20. -/
theorem exists_sends_beyond_mtu :
    let config := { Config.default with mtu := 13 }
    config.fault? = none ∧ ∃ bytes, Sends config bytes ∧
      bytes = [0x42, 0x0B, 0, 1, 0, 0, 0, 8, 0, 0, 0, 1, 0, 0, 0, 2, 0, 0, 0, 2] ∧
        config.mtu < bytes.length := by
  intro config
  have hpieces : pieces 1 [0x0A, 0x0B] = [[0x0A], [0x0B]] := by simp [pieces]
  have hfragment : twoBytes.fragment 1 config.maxDataSize =
      .ok [twoBytes.firstFrame 1 1, twoBytes.consecutiveFrame 1 1 [0x0A],
        twoBytes.consecutiveFrame 1 terminalSequence [0x0B]] := by
    have hsize : headerSize? twoBytes.version = some longHeaderSize := rfl
    rw [Message.fragment_eq hsize (by decide), if_neg (by decide)]
    show Except.ok (_ :: twoBytes.consecutives 1 0 (pieces 1 [0x0A, 0x0B])) = _
    rw [hpieces]
    rfl
  have hencoded : encodeEach [twoBytes.firstFrame 1 1, twoBytes.consecutiveFrame 1 1 [0x0A],
      twoBytes.consecutiveFrame 1 terminalSequence [0x0B]] =
        .ok [[0x42, 0x0B, 0, 1, 0, 0, 0, 8, 0, 0, 0, 1, 0, 0, 0, 2, 0, 0, 0, 2],
          [0x43, 0x0B, 1, 1, 0, 0, 0, 1, 0, 0, 0, 1, 0x0A],
          [0x43, 0x0B, 0, 1, 0, 0, 0, 1, 0, 0, 0, 1, 0x0B]] := rfl
  have he : ofConfig config = .ok { config, receiver := Receiver.ofConfig config
                                    outlet := Outlet.ofWorkers config.workers
                                    nextMessageId := 1 } := rfl
  have hsends := sends_of_send he (m := twoBytes) rfl (by decide) hfragment hencoded
  exact ⟨rfl, _, hsends, rfl, by decide⟩

end Engine

end HeadUnitLink
