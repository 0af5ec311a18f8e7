import HeadUnitLink.Proofs.Dispatch.Order
import HeadUnitLink.Proofs.Engine.Run
import HeadUnitLink.Proofs.Receiver.Frames

/-!
# What an engine sends

A `Transcript` is an engine with a record of the messages that it has accepted
and of the bytes that its transport has taken.

Every request that is accepted becomes one batch of the dispatch queue.  A
`Parcel` is what is in it: the fragments of a message, or one control frame
with a request.  `Engine.step_effect` says once what an event does to the queue,
and `Transcript.Recorded` ties a transcript to the history of the pool, so that
the order in which the pool works carries over to the bytes.
-/

namespace HeadUnitLink

/-! ## Transcripts -/

/-- An engine with a record of what it has sent. -/
structure Transcript where
  engine : Engine
  /-- The messages that were accepted, each with the id that it was given. -/
  sent : List (Message × UInt32)
  /-- The bytes that the transport has taken. -/
  wire : Bytes

namespace EngineEvent

/-- The message that an event sends, if it is accepted, with its id. -/
def sent (e : Engine) : EngineEvent → List (Message × UInt32)
  | .send m =>
    match (e.send m).1 with
    | .ok messageId => [(m, messageId)]
    | .error _ => []
  | _ => []

/-- The bytes that the transport takes. -/
def wire : EngineEvent → Bytes
  | .worker (.handOver job false) => job.bytes
  | _ => []

end EngineEvent

namespace Transcript

/-- Nothing has been sent yet. -/
def start (e : Engine) : Transcript := { engine := e, sent := [], wire := [] }

/-- The transcript after an event, if the event can happen. -/
def step (t : Transcript) (event : EngineEvent) : Option Transcript :=
  (t.engine.step event).map fun engine =>
    { engine, sent := t.sent ++ event.sent t.engine, wire := t.wire ++ event.wire }

/-- The transcript after a sequence of events, if each can happen in its
turn. -/
def run (t : Transcript) : List EngineEvent → Option Transcript
  | [] => some t
  | event :: rest => (t.step event).bind fun t => t.run rest

end Transcript

/-! ## Parcels -/

/-- What one accepted request puts into the queue. -/
inductive Parcel where
  | message (m : Message) (messageId : UInt32)
  | request (frame : Frame)

namespace Parcel

/-- The session and the service that a parcel belongs to. -/
def key : Parcel → MessageKey
  | message m _ => m.key
  | request frame => frame.header.key

/-- The frames of a parcel. -/
def frames (maxDataSize : Nat) : Parcel → Except LinkError (List Frame)
  | message m messageId => m.fragment messageId maxDataSize
  | request frame => .ok [frame]

/-- The message in a parcel. -/
def sent? : Parcel → Option (Message × UInt32)
  | message m messageId => some (m, messageId)
  | request _ => none

end Parcel

/-- Is this a control frame with a request or a heartbeat? -/
structure Frame.Asks (frame : Frame) : Prop where
  control : frame.header.frameType = .control
  kind : ∃ kind : ControlKind, frame.header.frameData = kind.toByte ∧
    (kind = .startService ∨ kind = .endService ∨ kind = .heartbeat ∨ kind = .heartbeatAck)
  short : frame.payload.length ≤ firstPayloadSize

/-- The control frames in a parcel are requests. -/
def Parcel.Proper : Parcel → Prop
  | message _ _ => True
  | request frame => frame.Asks

theorem Frame.Asks.controlKind {frame : Frame} (h : frame.Asks) :
    ∃ kind : ControlKind, frame.header.controlKind? = some kind ∧
      (kind = .startService ∨ kind = .endService ∨ kind = .heartbeat ∨ kind = .heartbeatAck) := by
  obtain ⟨kind, hdata, hkind⟩ := h.kind
  refine ⟨kind, ?_, hkind⟩
  unfold Header.controlKind?
  rw [if_pos h.control, hdata, ControlKind.ofByte?_toByte]

theorem Frame.Asks.quiet {frame : Frame} (h : frame.Asks) : frame.Quiet := by
  obtain ⟨kind, hsome, hkind⟩ := h.controlKind
  intro other hother
  obtain rfl := Option.some.inj (hsome.symm.trans hother)
  exact hkind

theorem Frame.Asks.readable {frame : Frame} (h : frame.Asks) : frame.header.Readable := by
  obtain ⟨kind, hdata, _⟩ := h.kind
  intro _
  rw [hdata, ControlKind.ofByte?_toByte]
  simp

/-! ## The requests of an engine -/

theorem Header.eq_of_checked {h h' : Header} (hchecked : h.checked = .ok h') : h' = h := by
  unfold checked at hchecked
  split at hchecked
  · exact absurd hchecked (by simp)
  · exact (Except.ok.inj hchecked).symm

/-- A request is a control frame of the service and session that it is about. -/
theorem asks_stamped {header : Header} {service : Service} {session version : UInt8}
    {kind : ControlKind} (messageId : UInt32) {payload : Bytes}
    (hchecked : (Header.control service session kind version).checked = .ok header)
    (hkind : kind = .startService ∨ kind = .endService ∨ kind = .heartbeat ∨ kind = .heartbeatAck)
    (hshort : payload.length ≤ firstPayloadSize) :
    (Frame.stamped { header with messageId } payload).Asks ∧
      (Frame.stamped { header with messageId } payload).header.key = { session, service } := by
  obtain rfl := Header.eq_of_checked hchecked
  exact ⟨⟨rfl, ⟨kind, rfl, hkind⟩, hshort⟩, rfl⟩

theorem asks_bare {header : Except FrameError Header} {service : Service}
    {session version : UInt8} {kind : ControlKind} {frame : Frame}
    (hframe : Engine.bare header = .ok frame)
    (hheader : ∀ found, header = .ok found →
      (Header.control service session kind version).checked = .ok found)
    (hkind : kind = .startService ∨ kind = .endService ∨ kind = .heartbeat ∨
      kind = .heartbeatAck) :
    frame.Asks ∧ frame.header.key = { session, service } := by
  cases hfound : header with
  | error cause =>
    rw [hfound] at hframe
    exact absurd hframe (by simp [Engine.bare, Except.map])
  | ok found =>
    rw [hfound] at hframe
    obtain rfl := Except.ok.inj hframe
    exact asks_stamped found.messageId (hheader found hfound) hkind (Nat.zero_le _)

theorem asks_startService {service : Service} {session version : UInt8} {frame : Frame}
    (hframe : Engine.bare (Header.startService service session version) = .ok frame) :
    frame.Asks ∧ frame.header.key = { session, service } := by
  have hchecked : ∀ found, Header.startService service session version = .ok found →
      (Header.control service session .startService version).checked = .ok found := by
    intro found hfound
    unfold Header.startService at hfound
    split at hfound
    · exact absurd hfound (by simp)
    · exact hfound
  exact asks_bare hframe hchecked (Or.inl rfl)

theorem asks_endService {service : Service} {session version : UInt8} {hashId : Option UInt32}
    {frame : Frame} (hframe : Frame.endService service session hashId version = .ok frame) :
    frame.Asks ∧ frame.header.key = { session, service } := by
  unfold Frame.endService at hframe
  split at hframe
  · exact absurd hframe (by simp)
  · rename_i header hchecked
    cases hashId with
    | some hash =>
      obtain rfl := Except.ok.inj hframe
      refine asks_stamped hash hchecked (Or.inr (Or.inl rfl)) ?_
      rw [Word.length_toBytes]
      decide
    | none =>
      obtain rfl := Except.ok.inj hframe
      exact asks_stamped header.messageId hchecked (Or.inr (Or.inl rfl)) (Nat.zero_le _)

namespace Engine

/-- The engine has put this parcel into its queue. -/
structure Queues (e : Engine) (p : Parcel) (e' : Engine) : Prop where
  proper : p.Proper
  submitted : ∃ frames encoded, p.frames e.config.maxDataSize = .ok frames ∧
    encodeEach frames = .ok encoded ∧
    e.outlet.pool.submit p.key.session p.key.service.priority encoded = .ok e'.outlet.pool

/-- What an event does to the queue of an engine. -/
inductive Effect (e : Engine) (event : EngineEvent) (e' : Engine) : Prop where
  | idle (hpool : e'.outlet.pool = e.outlet.pool) (hsent : event.sent e = [])
      (hwire : event.wire = [])
  | queued (p : Parcel) (hqueues : e.Queues p e') (hsent : event.sent e = p.sent?.toList)
      (hwire : event.wire = [])
  | shutdown (hpool : e'.outlet.pool = e.outlet.pool.shutdown) (hsent : event.sent e = [])
      (hwire : event.wire = [])
  | worked (w : WorkerEvent) (hevent : event = .worker w)
      (hpool : e.outlet.pool.workerStep w = some e'.outlet.pool)

theorem request_effect {e : Engine} {service : Service} {session : UInt8}
    {frame : Except FrameError Frame} {event : EngineEvent} (hsent : event.sent e = [])
    (hwire : event.wire = [])
    (hasks : ∀ content, frame = .ok content →
      content.Asks ∧ content.header.key = { session, service }) :
    Effect e event (e.request service session frame).2 := by
  rcases request_cases e service session frame with hsame | ⟨content, hframe, hsubmit⟩
  · rw [hsame]
    exact Effect.idle rfl hsent hwire
  · obtain ⟨hask, hkey⟩ := hasks content hframe
    obtain ⟨encoded, pool, hencoded, hpool, hnext⟩ := submit_eq_ok hsubmit
    refine Effect.queued (.request content) ⟨hask, [content], encoded, rfl, hencoded, ?_⟩ hsent
      hwire
    rw [hnext]
    show e.outlet.pool.submit content.header.key.session content.header.key.service.priority encoded
      = .ok pool
    rw [hkey]
    exact hpool

theorem startService_effect {e : Engine} {event : EngineEvent} (hsent : event.sent e = [])
    (hwire : event.wire = []) (service : Service) (session : UInt8) :
    Effect e event (e.startService service session).2 := by
  unfold startService
  split
  · exact Effect.idle rfl hsent hwire
  · exact request_effect hsent hwire fun _ => asks_startService

theorem send_effect (e : Engine) (m : Message) : Effect e (.send m) (e.send m).2.1 := by
  rcases send_cases e m with ⟨cause, id, hsend⟩ | ⟨frames, e', hfragment, hsubmit, hsend⟩
  · refine Effect.idle ?_ ?_ rfl
    · rw [hsend]
    · simp only [EngineEvent.sent, hsend]
  · obtain ⟨encoded, pool, hencoded, hpool, hnext⟩ := submit_eq_ok hsubmit
    refine Effect.queued (.message m e.nextMessageId)
      ⟨trivial, frames, encoded, hfragment, hencoded, ?_⟩ ?_ rfl
    · rw [hsend, hnext]
      exact hpool
    · simp only [EngineEvent.sent, hsend]
      rfl

/-- Every event leaves the queue alone, puts one parcel into it, shuts it down
or is the work of a worker. -/
theorem step_effect {e e' : Engine} {event : EngineEvent} (hstep : e.step event = some e') :
    Effect e event e' := by
  cases event with
  | send m =>
    obtain rfl := Option.some.inj hstep
    exact send_effect e m
  | startSession session =>
    obtain rfl := Option.some.inj hstep
    exact startService_effect rfl rfl .rpc session
  | startService service session =>
    obtain rfl := Option.some.inj hstep
    exact startService_effect rfl rfl service session
  | endService service session =>
    obtain rfl := Option.some.inj hstep
    exact request_effect rfl rfl fun _ => asks_endService
  | heartbeat session =>
    obtain rfl := Option.some.inj hstep
    exact request_effect rfl rfl fun _ hframe =>
      asks_bare hframe (fun _ hfound => hfound) (Or.inr (Or.inr (Or.inl rfl)))
  | heartbeatAck session =>
    obtain rfl := Option.some.inj hstep
    exact request_effect rfl rfl fun _ hframe =>
      asks_bare hframe (fun _ hfound => hfound) (Or.inr (Or.inr (Or.inr rfl)))
  | setVersion version =>
    obtain rfl := Option.some.inj hstep
    refine Effect.idle ?_ rfl rfl
    unfold setVersion
    split <;> rfl
  | receive chunk =>
    obtain rfl := Option.some.inj hstep
    exact Effect.idle rfl rfl rfl
  | shutdown =>
    obtain rfl := Option.some.inj hstep
    exact Effect.shutdown rfl rfl rfl
  | worker w =>
    obtain ⟨pool, hpool, rfl⟩ := Option.map_eq_some_iff.1 hstep
    exact Effect.worked w rfl hpool

/-- Frames are written one by one, and all of them or none. -/
theorem encodeEach_eq_ok_iff {frames : List Frame} {encoded : List Bytes} :
    encodeEach frames = .ok encoded ↔ frames.map Frame.encode = encoded.map .ok := by
  unfold encodeEach
  induction frames generalizing encoded with
  | nil =>
    constructor
    · intro h
      obtain rfl := Except.ok.inj h
      rfl
    · intro h
      obtain rfl := List.map_eq_nil_iff.1 h.symm
      rfl
  | cons frame rest ih =>
    rw [List.mapM_cons, List.map_cons]
    cases hframe : frame.encode with
    | error cause =>
      refine iff_of_false (by simp [bind, Except.bind]) fun h => ?_
      cases encoded <;> exact absurd h (by simp)
    | ok bytes =>
      constructor
      · intro h
        cases hrest : rest.mapM Frame.encode with
        | error cause =>
          rw [hrest] at h
          exact absurd h (by simp [bind, Except.bind])
        | ok more =>
          rw [hrest] at h
          obtain rfl := Except.ok.inj h
          rw [List.map_cons, ih.1 hrest]
      · intro h
        cases encoded with
        | nil => exact absurd h (by simp)
        | cons first more =>
          rw [List.map_cons] at h
          obtain ⟨hfirst, hmore⟩ := List.cons.inj h
          obtain rfl := Except.ok.inj hfirst
          rw [ih.2 hmore]
          rfl

end Engine

/-! ## The batches of a transcript -/

theorem Parcel.frames_ne_nil {p : Parcel} {maxDataSize : Nat} {frames : List Frame}
    (h : p.frames maxDataSize = .ok frames) : frames ≠ [] := by
  cases p with
  | message m messageId =>
    obtain ⟨_, _, ⟨_, rfl⟩ | ⟨_, rfl⟩⟩ := Message.fragment_cases h
    · exact List.cons_ne_nil _ _
    · exact List.cons_ne_nil _ _
  | request frame =>
    obtain rfl := Except.ok.inj h
    exact List.cons_ne_nil _ _

/-- A batch holds the bytes of this parcel. -/
structure Batch.Carries (maxDataSize : Nat) (b : Batch) (p : Parcel) : Prop where
  session_eq : b.session = p.key.session
  priority_eq : b.priority = p.key.service.priority
  proper : p.Proper
  encoded : ∃ frames, p.frames maxDataSize = .ok frames ∧
    frames.map Frame.encode = b.frames.map .ok

namespace Transcript

/-- The pool of the engine has this history, and `packed` are its batches with
the parcels that they carry. -/
structure Recorded (t : Transcript) (h : History) (packed : List (Batch × Parcel)) : Prop where
  pool_eq : h.pool = t.engine.outlet.pool
  orderly : History.Orderly h
  accepted_eq : h.accepted = packed.map Prod.fst
  carries : ∀ entry ∈ packed, entry.1.Carries t.engine.config.maxDataSize entry.2
  sent_eq : t.sent = packed.filterMap fun entry => entry.2.sent?
  wire_eq : t.wire = h.handed.flatMap Job.bytes

theorem recorded_start {config : Config} {e : Engine} (he : Engine.ofConfig config = .ok e) :
    Recorded (start e) (History.ofWorkers config.workers) [] := by
  obtain ⟨_, rfl⟩ := Engine.ofConfig_eq_ok he
  exact ⟨rfl, History.orderly_ofWorkers _, rfl, fun _ hentry => absurd hentry List.not_mem_nil,
    rfl, rfl⟩

variable {t : Transcript} {h : History} {packed : List (Batch × Parcel)}

/-- A parcel that is put into the queue is the next batch. -/
theorem Recorded.queue (hr : Recorded t h packed) {e' : Engine} {p : Parcel}
    (hqueues : t.engine.Queues p e') (hconfig : e'.config = t.engine.config) :
    ∃ h' packed', Recorded
      { engine := e', sent := t.sent ++ p.sent?.toList, wire := t.wire } h' packed' := by
  obtain ⟨frames, encoded, hframes, hencoded, hpool⟩ := hqueues.submitted
  have hmap := Engine.encodeEach_eq_ok_iff.1 hencoded
  have hne : encoded ≠ [] := by
    rintro rfl
    exact Parcel.frames_ne_nil hframes (List.map_eq_nil_iff.1 hmap)
  have hstep := h.submit_cases p.key.session p.key.service.priority encoded
  have hsubmit : h.submit p.key.session p.key.service.priority encoded =
      { h with
        pool := e'.outlet.pool
        accepted := h.accepted ++
          [h.pool.queue.nextOf p.key.session p.key.service.priority encoded] } := by
    unfold History.submit
    rw [hr.pool_eq, hpool]
    simp only [if_neg hne]
  rw [hsubmit] at hstep
  refine ⟨_, packed ++ [(h.pool.queue.nextOf p.key.session p.key.service.priority encoded, p)],
    rfl, hr.orderly.step hstep, ?_, ?_, ?_, hr.wire_eq⟩
  · rw [List.map_append, hr.accepted_eq]
    rfl
  · intro entry hentry
    rw [hconfig]
    rcases List.mem_append.1 hentry with hold | hnew
    · exact hr.carries entry hold
    · rw [List.mem_singleton.1 hnew]
      exact ⟨rfl, rfl, hqueues.proper, frames, hframes, hmap⟩
  · rw [List.filterMap_append, hr.sent_eq]
    cases hsent : p.sent? <;> simp [hsent]

theorem wire_eq_of_worker {w : WorkerEvent} (hsink : ∀ job, w ≠ .handOver job true) :
    (EngineEvent.worker w).wire = w.handed.flatMap Job.bytes := by
  cases w with
  | claim => rfl
  | handOver job fails =>
    cases fails with
    | false => simp [EngineEvent.wire, WorkerEvent.handed]
    | true => exact absurd rfl (hsink job)
  | complete job => rfl
  | leave => rfl

/-- Every event of an engine is a step of the history of its pool. -/
theorem Recorded.step (hr : Recorded t h packed) {event : EngineEvent} {t' : Transcript}
    (hsink : ∀ job, event ≠ .worker (.handOver job true)) (hstep : t.step event = some t') :
    ∃ h' packed', Recorded t' h' packed' := by
  obtain ⟨e', he, rfl⟩ := Option.map_eq_some_iff.1 hstep
  have hconfig := (Engine.receiver_step he).1
  have hcarries : ∀ entry ∈ packed, entry.1.Carries e'.config.maxDataSize entry.2 := by
    rw [hconfig]
    exact hr.carries
  cases Engine.step_effect he with
  | idle hpool hsent hwire =>
    rw [hsent, hwire, List.append_nil, List.append_nil]
    exact ⟨h, packed, hr.pool_eq.trans hpool.symm, hr.orderly, hr.accepted_eq, hcarries,
      hr.sent_eq, hr.wire_eq⟩
  | queued p hqueues hsent hwire =>
    rw [hsent, hwire, List.append_nil]
    exact hr.queue hqueues hconfig
  | shutdown hpool hsent hwire =>
    rw [hsent, hwire, List.append_nil, List.append_nil]
    refine ⟨{ h with pool := h.pool.shutdown }, packed, ?_, hr.orderly.step History.Step.shutdown,
      hr.accepted_eq, hcarries, hr.sent_eq, hr.wire_eq⟩
    rw [hpool, hr.pool_eq]
  | worked w hevent hpool =>
    subst hevent
    rw [← hr.pool_eq] at hpool
    have hwire := wire_eq_of_worker fun job heq => hsink job (congrArg EngineEvent.worker heq)
    refine ⟨_, packed, rfl, hr.orderly.step (History.workerStep_cases hpool), hr.accepted_eq,
      hcarries, ?_, ?_⟩
    · show t.sent ++ [] = _
      rw [List.append_nil]
      exact hr.sent_eq
    · rw [hwire, List.flatMap_append, hr.wire_eq]

/-- Every run of an engine whose transport does not fail has a history. -/
theorem Recorded.run (hr : Recorded t h packed) {events : List EngineEvent} {t' : Transcript}
    (hsink : ∀ job, .worker (.handOver job true) ∉ events) (hrun : t.run events = some t') :
    ∃ h' packed', Recorded t' h' packed' := by
  induction events generalizing t h packed with
  | nil =>
    obtain rfl := Option.some.inj hrun
    exact ⟨h, packed, hr⟩
  | cons event rest ih =>
    obtain ⟨next, hstep, hrest⟩ := Option.bind_eq_some_iff.1 hrun
    have hfirst : ∀ job, event ≠ .worker (.handOver job true) := by
      rintro job rfl
      exact hsink job List.mem_cons_self
    obtain ⟨h', packed', hr'⟩ := hr.step hfirst hstep
    exact ih hr' (fun job hjob => hsink job (List.mem_cons_of_mem _ hjob)) hrest

end Transcript

end HeadUnitLink
